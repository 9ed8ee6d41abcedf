import Peripheral.Hub.Move

/-!
# Running a hub

Between two instants every task moves as far as it can; a task gives something up only when nothing else is possible. Time
then goes on to the next deadline. The clients act on their ends of the links in between.
-/

namespace Peripheral.Hub

variable {δ : Type} [Service δ]

/-- The moves of a task that go on with its work. -/
def Move.forward (t : Nat) : Task → List Move
  | task => if task.isFinished then [] else [.heed t, .advance t Frame.size]

/-- The moves of a task that give something up. -/
def Move.backward (t : Nat) : Task → List Move
  | task => if task.deadline?.isSome then [.expire t] else []

/-- The moves that may be possible, in the order in which they are tried. -/
def candidates (h : Hub δ) : List Move :=
  (h.tasks.zipIdx.flatMap fun (task, t) => Move.forward t task) ++
    h.tasks.zipIdx.flatMap fun (task, t) => Move.backward t task

/-- The hub after the first move that is possible. -/
def next? (h : Hub δ) : Option (Hub δ) := h.candidates.findSome? h.move?

/-- At least as many moves as the tasks can still make. -/
def effort (h : Hub δ) : Nat := h.tasks.foldr (fun t n => t.effort + n) 0

/-- Makes moves until none is possible, but not more than the given number. -/
def settleWithin : Nat → Hub δ → Hub δ
  | 0, h => h
  | n + 1, h =>
    match h.next? with
    | none => h
    | some h => settleWithin n h

/-- Makes moves until none is possible. -/
def settle (h : Hub δ) : Hub δ := settleWithin h.effort h

/-- The next instant at which something is given up. -/
def deadline? (h : Hub δ) : Option Nat := (h.tasks.filterMap Task.deadline?).min?

/-- Lets everything happen until a task has ended, at most the given number of deadlines. -/
def awaitWithin (t : Nat) : Nat → Hub δ → Hub δ
  | 0, h => h.settle
  | n + 1, h =>
    let h := h.settle
    if h.isFinished t then h
    else
      match h.deadline? with
      | none => h
      | some d => awaitWithin t n { h with clock := max h.clock d }

/-- Lets everything happen until a task has ended; each deadline that passes ends some work. -/
def await (h : Hub δ) (t : Nat) : Hub δ := awaitWithin t h.effort h

/-- Lets time pass up to an instant, with at most the given number of deadlines on the way. -/
def passWithin (target : Nat) : Nat → Hub δ → Hub δ
  | 0, h => { h.settle with clock := max h.clock target }.settle
  | n + 1, h =>
    let h := h.settle
    match h.deadline? with
    | none => { h with clock := max h.clock target }
    | some d =>
      if d ≤ target then passWithin target n { h with clock := max h.clock d }
      else { h with clock := max h.clock target }

/-- Lets some time pass. -/
def pass (h : Hub δ) (ms : Nat) : Hub δ := passWithin (h.clock + ms) h.effort h

/-- Begins a task and lets everything happen until it has ended. The task is the last one. -/
def complete (h : Hub δ) : Courier × Hub δ :=
  let t := h.tasks.length - 1
  let h := h.await t
  ((h.courier? t).getD (.start []), h)

/-- A client writes as much as is taken without time passing. Writing to nobody fails, unless there is nothing to write. -/
def feedWithin (p : Peer) : Nat → Bytes → Nat → Hub δ → Except IoFault Nat × Hub δ
  | 0, _, sent, h => (.ok sent, h)
  | n + 1, bytes, sent, h =>
    match bytes, h.links[p]? with
    | [], _ | _, none => (.ok sent, h)
    | bytes, some l =>
      if l.inbound.isBroken || h.isGone p then (.error .brokenPipe, h)
      else
        let k := (l.feed bytes).1
        if k = 0 then (.ok sent, h)
        else feedWithin p n (bytes.drop k) (sent + k) (h.updateLink p fun l => (l.feed bytes).2).settle

/-- A client writes as much as is taken without time passing. -/
def feed (h : Hub δ) (p : Peer) (bytes : Bytes) : Except IoFault Nat × Hub δ :=
  feedWithin p (bytes.length + 1) bytes 0 h

/-- A client reads all that comes without time passing. -/
def collectWithin (p : Peer) : Nat → Bytes → Hub δ → Bytes × Hub δ
  | 0, got, h => (got, h)
  | n + 1, got, h =>
    match h.links[p]? with
    | none => (got, h)
    | some l =>
      match (l.collect).1 with
      | [] => (got, h)
      | b :: more => collectWithin p n (got ++ b :: more) (h.updateLink p fun l => l.collect.2).settle

/-- A client reads all that comes without time passing. -/
def collect (h : Hub δ) (p : Peer) : Bytes × Hub δ := collectWithin p (h.effort + 1) [] h

end Peripheral.Hub
