import Peripheral.Device.Execute
import Peripheral.IrqQueue
import Peripheral.Settings.Basic

/-!
# Activity

The activity of a device ticks it at regular instants and offers the interrupts raised to a queue. It can be paused; every
order to go on, whether it was paused or not, makes the next tick due one interval later. It ends when told to, when nobody
is left who could give orders, and when it raises an interrupt that nobody is there to take.
-/

namespace Peripheral

/-- Orders to an activity. -/
inductive Activity.Order
  | pause (on : Bool)
  | shutdown
  deriving DecidableEq, Repr

/-- The state of an activity: the instant of the next tick is in milliseconds. -/
structure Activity where
  period : Nat
  due : Nat
  paused : Bool
  ended : Bool
  rng : Rng
  deriving DecidableEq, Repr

namespace Activity

/-- An activity that starts now. -/
def start (c : ActivityConfig) (now : Nat) : Activity where
  period := c.period
  due := now + c.startupDelay.toNat
  paused := false
  ended := false
  rng := .ofSeed (c.seed.getD 0)

/-- Takes an order. -/
def obey (a : Activity) (now : Nat) : Order → Activity
  | .pause true => { a with paused := true }
  | .pause false => { a with paused := false, due := now + a.period }
  | .shutdown => { a with ended := true }

/-- Nobody is left who could give orders. -/
def abandon (a : Activity) : Activity := { a with ended := true }

/-- The instant of the next tick, if there will be one as things stand. -/
def nextTick? (a : Activity) : Option Nat := if a.ended || a.paused then none else some a.due

/-- Offers numbers to a queue in turn. One that finds no room is lost; a closed queue ends the offering. -/
def forward (q : IrqQueue) : List UInt32 → Bool × IrqQueue
  | [] => (true, q)
  | id :: rest =>
    match q.offer id with
    | (.closed, q) => (false, q)
    | (_, q) => forward q rest

/-- The tick that is due. -/
def tick {δ : Type} [Service δ] (a : Activity) (d : δ) (q : IrqQueue) : Activity × δ × IrqQueue :=
  let (ids, d, rng) := Service.tick d a.rng
  let (heard, q) := forward q ids
  ({ a with rng, due := a.due + a.period, ended := !heard }, d, q)

/-- Lets time pass up to an instant: every tick due by then happens. At most the given number of ticks is made. -/
def elapseWithin {δ : Type} [Service δ] (horizon : Nat) :
    Nat → Activity → δ → IrqQueue → Activity × δ × IrqQueue
  | 0, a, d, q => (a, d, q)
  | n + 1, a, d, q =>
    match a.nextTick? with
    | none => (a, d, q)
    | some t =>
      if t ≤ horizon then
        let (a, d, q) := a.tick d q
        elapseWithin horizon n a d q
      else (a, d, q)

/-- Lets time pass up to an instant: every tick due by then happens. -/
def elapse {δ : Type} [Service δ] (a : Activity) (horizon : Nat) (d : δ) (q : IrqQueue) : Activity × δ × IrqQueue :=
  elapseWithin horizon (horizon + 1 - a.due) a d q

end Activity

end Peripheral
