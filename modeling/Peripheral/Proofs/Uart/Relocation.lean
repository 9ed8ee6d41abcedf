import Peripheral.Proofs.Trace
import Peripheral.Proofs.Uart.Run

/-!
# The place of a UART does not matter

A UART sees of an address only its distance from the base address, modulo 2^32. So a UART that is put somewhere else does the
same for accesses that are moved along with it, at any two places, also where the registers lie around the end of the address
space (`trace_moved`).
-/

namespace Peripheral.Uart

/-- The UART at another base address. -/
def moved (u : Uart) (base : UInt32) : Uart := { u with base }

/-- The action with its access moved from one base address to another. -/
def Action.moved (source target : UInt32) : Action → Action
  | .read address => .read (address - source + target)
  | .write address v => .write (address - source + target) v
  | a => a

/-- Two actions give back the same; of refusals it is the reason that is the same, and each names the address of its own
access. -/
def SameReply : Action → Action → Reply → Reply → Prop
  | .read a, .read a', .value (.error e), .value (.error e') => e = .unmapped a ∧ e' = .unmapped a'
  | .write a _, .write a' _, .stored (.error e), .stored (.error e') => e = .rejected a ∧ e' = .rejected a'
  | _, _, r, r' => r = r'

/-- Which byte arrives depends on what could arrive and how likely it is. This is shown without a look into the draws, whose
loops are as long as a period of the generator. -/
theorem arrival_congr {u w : Uart} (g : Rng) (hlistening : u.listening = w.listening) (hchance : u.chance = w.chance)
    (hpattern : u.pattern = w.pattern) : u.arrival g = w.arrival g := by
  unfold arrival
  rw [hlistening, hchance, hpattern]

section

variable (u : Uart) (base : UInt32)

/-! ## Each operation, elsewhere -/

/-- The distance from the base address stays, and it alone says which register is meant. -/
theorem register?_moved (address : UInt32) :
    (u.moved base).register? (address - u.base + base) = u.register? address := by
  have hdistance : address - u.base + base - base = address - u.base := UInt32.add_sub_cancel _ _
  exact congrArg Register.ofOffset? hdistance

/-- The arrival of a byte does not go by the base address. -/
theorem receive_moved (b : UInt8) :
    (u.moved base).receive b = ((u.receive b).1, (u.receive b).2.moved base) := by
  have hrx : (u.moved base).rx = u.rx := rfl
  simp only [receive, hrx]
  rcases u.rx.push b with ⟨_ | _, rx⟩ <;> rfl

/-- The removal of a byte does not go by the base address. -/
theorem transmit?_moved :
    (u.moved base).transmit? = u.transmit?.map fun x => (x.1, x.2.moved base) := by
  have htx : (u.moved base).tx = u.tx := rfl
  simp only [transmit?, htx]
  rcases u.tx.pop? with _ | ⟨b, tx⟩ <;> rfl

/-- The taking of a received byte does not go by the base address. -/
theorem fetch_moved : (u.moved base).fetch = u.fetch.moved base := by
  have hrx : (u.moved base).rx = u.rx := rfl
  simp only [fetch, hrx]
  rcases u.rx.pop? with _ | ⟨b, rx⟩ <;> rfl

/-- The offering of a byte for transmission does not go by the base address. -/
theorem enqueue_moved (v : UInt32) : (u.moved base).enqueue v = (u.enqueue v).moved base := by
  have htx : (u.moved base).tx = u.tx := rfl
  simp only [enqueue, htx]
  rcases u.tx.push v.toUInt8 with ⟨_ | _, tx⟩ <;> rfl

/-- What a read of a register gives does not go by the base address. -/
theorem readRegister_moved (r : Register) :
    (u.moved base).readRegister r = ((u.readRegister r).1, (u.readRegister r).2.moved base) := by
  cases r with
  | data =>
    simp only [readRegister, fetch_moved]
    rfl
  | control | status | baud => rfl

/-- A write of a register does not go by the base address. -/
theorem writeRegister_moved (v : UInt32) (r : Register) :
    (u.moved base).writeRegister v r = (u.writeRegister v r).moved base := by
  cases r with
  | data => exact enqueue_moved u base v
  | control | status | baud => rfl

/-- The departure of a tick does not go by the base address. -/
theorem departure_moved : (u.moved base).departure = (u.departure.1, u.departure.2.moved base) := by
  have hcontrol : (u.moved base).control = u.control := rfl
  rw [departure_eq, departure_eq, hcontrol, transmit?_moved]
  cases has u.control Control.txEnable with
  | false => rfl
  | true => cases u.transmit? <;> rfl

/-- Whether a byte arrives does not go by the base address. -/
theorem arrival_moved (g : Rng) : (u.moved base).arrival g = u.arrival g :=
  arrival_congr g rfl rfl rfl

/-- What an arrival leaves behind does not go by the base address. -/
theorem afterArrival_moved (g : Rng) : (u.moved base).afterArrival g = (u.afterArrival g).moved base := by
  simp only [afterArrival, arrival_moved]
  rcases (u.arrival g).1 with _ | b
  · rfl
  · exact congrArg Prod.snd (receive_moved u base b)

/-- A tick does not go by the base address. -/
theorem tick_moved (g : Rng) :
    (u.moved base).tick g = ((u.tick g).1, (u.tick g).2.1.moved base, (u.tick g).2.2) := by
  have henabled : (u.moved base).enabled = u.enabled := rfl
  simp only [tick, henabled, arrival_moved, afterArrival_moved, departure_moved]
  cases u.enabled <;> rfl

/-! ## Each action, elsewhere -/

/-- An action that is moved with the UART does what it did. -/
theorem perform_moved (a : Action) : (u.moved base).perform (a.moved u.base base) = (u.perform a).moved base := by
  cases a with
  | read address =>
    simp only [Action.moved, perform, read, register?_moved]
    cases u.register? address with
    | none => rfl
    | some r => exact congrArg Prod.snd (readRegister_moved u base r)
  | write address v =>
    simp only [Action.moved, perform, write, register?_moved]
    cases u.register? address with
    | none => rfl
    | some r => exact writeRegister_moved u base v r
  | tick g => exact congrArg (·.2.1) (tick_moved u base g)
  | receive b => exact congrArg Prod.snd (receive_moved u base b)
  | transmit =>
    simp only [Action.moved, perform, transmit?_moved]
    cases u.transmit? <;> rfl
  | init id => rfl
  | deinit id => rfl

/-- An action that is moved with the UART gives back what it gave. -/
theorem reply_moved (a : Action) :
    SameReply a (a.moved u.base base) (u.reply a) ((u.moved base).reply (a.moved u.base base)) := by
  cases a with
  | read address =>
    simp only [Action.moved, reply, read, register?_moved]
    cases u.register? address with
    | none => exact ⟨rfl, rfl⟩
    | some r => exact congrArg (fun x => Reply.value (.ok x.1)) (readRegister_moved u base r).symm
  | write address v =>
    simp only [Action.moved, reply, write, register?_moved]
    cases u.register? address with
    | none => exact ⟨rfl, rfl⟩
    | some r => rfl
  | tick g => exact congrArg (fun x => Reply.raised x.1 x.2.2) (tick_moved u base g).symm
  | receive b => exact congrArg (fun x => Reply.received x.1) (receive_moved u base b).symm
  | transmit =>
    simp only [Action.moved, reply, transmit?_moved]
    cases u.transmit? <;> rfl
  | init id => rfl
  | deinit id => rfl

/-- Wherever a UART is put, and whatever is done to it, it does the same as before: moved along with it, every access gives back
the same value or success, or is refused for the same reason under its own address; every tick raises the same interrupts and
draws the same; and after every action the two UARTs differ in their base address only. -/
theorem trace_moved (actions : List Action) :
    List.Forall₂
      (fun x y => SameReply x.input y.input x.output y.output ∧ y.after = x.after.moved base ∧ x.after.base = u.base)
      (trace act u actions) (trace act (u.moved base) (actions.map (·.moved u.base base))) := by
  refine forall₂_trace (R := fun (s t : Uart) => t = s.moved base ∧ s.base = u.base)
    (A := fun a b => b = a.moved u.base base) ?_ ⟨rfl, rfl⟩ ?_
  · rintro s t a b ⟨rfl, hbase⟩ rfl
    rw [← hbase]
    exact ⟨reply_moved s base a, perform_moved s base a, perform_base s a⟩
  · rw [List.forall₂_map_right_iff]
    exact List.forall₂_same.mpr fun _ _ => rfl

end

/-- Registers at the end of the address space go on at its beginning. -/
example : ((ofConfig default).moved 0xFFFFFFFC).register? 4 = some .data := by decide

end Peripheral.Uart
