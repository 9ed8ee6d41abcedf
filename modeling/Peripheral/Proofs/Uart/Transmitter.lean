import Peripheral.Proofs.Trace
import Peripheral.Proofs.Uart.Status
import Peripheral.Proofs.Uart.Tick

/-!
# The transmit side does not notice what is received

Both directions of a UART share the control register, the status register and the tick. Still nothing comes over from the
receive side: what is received touches none of what the transmit side goes by (`SameTransmitter`), and what the transmit side
does is decided by that alone. So two UARTs that agree there, and are used alike, send alike, whatever they receive
(`transmission_undisturbed`).
-/

namespace Peripheral.Uart

/-- Two UARTs agree on all that the transmit side goes by. -/
structure SameTransmitter (u w : Uart) : Prop where
  base : u.base = w.base
  control : u.control = w.control
  /-- All bits but the one that tells of received bytes. -/
  status : clearBits u.status Status.rxFull = clearBits w.status Status.rxFull
  baud : u.baud = w.baud
  tx : u.tx = w.tx
  transmitted : u.transmitted = w.transmitted

/-- The same action, but a tick may draw from another generator. -/
def Action.SameButDraws : Action → Action → Prop
  | .tick _, .tick _ => True
  | a, b => a = b

/-- Writes and transmissions gave back the same, and a tick told on both sides, or on neither, that the last byte has left. -/
def SameSending : Reply → Reply → Prop
  | .stored r, .stored r' => r = r'
  | .sent b?, .sent b?' => b? = b?'
  | .raised ids _, .raised ids' _ => Interrupt.txComplete ∈ ids ↔ Interrupt.txComplete ∈ ids'
  | .value _, .value _ | .received _, .received _ | .done, .done => True
  | _, _ => False

theorem clearBits_setBits_self (word mask : UInt32) : clearBits (setBits word mask) mask = clearBits word mask := by
  have hself : clearBits mask mask = 0 := UInt32.and_not_self
  rw [clearBits_setBits, hself]
  exact UInt32.or_zero

theorem clearBits_clearBits_self (word mask : UInt32) : clearBits (clearBits word mask) mask = clearBits word mask := by
  simp only [clearBits, UInt32.and_assoc, UInt32.and_self]

/-- The interrupt for the last byte having left depends on what left, and not on what arrived. -/
theorem mem_raised_txComplete (u : Uart) (arrived : Option UInt8) (sent : Option (UInt8 × Bool)) :
    Interrupt.txComplete ∈ u.raised arrived sent ↔
      sent.any (·.2) = true ∧ has u.control Control.irqEnable = true := by
  have hother : Interrupt.txComplete ≠ Interrupt.rxReady := by decide
  rw [raised_eq Iff.rfl Iff.rfl, List.mem_append]
  simp only [List.mem_ite_nil_right, List.mem_singleton, hother, and_false, false_or, and_true]

namespace SameTransmitter

theorem refl (u : Uart) : SameTransmitter u u := ⟨rfl, rfl, rfl, rfl, rfl, rfl⟩

theorem symm {u w : Uart} (h : SameTransmitter u w) : SameTransmitter w u :=
  ⟨h.base.symm, h.control.symm, h.status.symm, h.baud.symm, h.tx.symm, h.transmitted.symm⟩

theorem trans {u v w : Uart} (h : SameTransmitter u v) (h' : SameTransmitter v w) : SameTransmitter u w :=
  ⟨h.base.trans h'.base, h.control.trans h'.control, h.status.trans h'.status, h.baud.trans h'.baud, h.tx.trans h'.tx,
    h.transmitted.trans h'.transmitted⟩

/-! ## The receive side leaves the transmit side alone -/

/-- A byte that arrives sets the one bit of the status register that does not count here. -/
theorem receive (u : Uart) (b : UInt8) : SameTransmitter u (u.receive b).2 := by
  by_cases hroom : u.rx.entries.length < u.rx.capacity
  · rw [receive_of_room b hroom]
    exact ⟨rfl, rfl, (clearBits_setBits_self _ _).symm, rfl, rfl, rfl⟩
  · rw [receive_of_full b (Nat.le_of_not_lt hroom)]
    exact ⟨rfl, rfl, rfl, rfl, rfl, rfl⟩

/-- The last byte that is taken out clears the same bit. -/
theorem fetch (u : Uart) : SameTransmitter u u.fetch := by
  cases he : u.rx.entries with
  | nil =>
    rw [fetch_of_nil he]
    exact refl u
  | cons b rest =>
    obtain ⟨rx, -, -, -, hfetch⟩ := fetch_of_cons he
    rw [hfetch]
    refine ⟨rfl, rfl, ?_, rfl, rfl, rfl⟩
    cases rest with
    | nil => exact (clearBits_clearBits_self _ _).symm
    | cons => rfl

/-- An arrival leaves the transmit side alone. -/
theorem afterArrival (u : Uart) (g : Rng) : SameTransmitter u (u.afterArrival g) := by
  rcases harrival : u.arrival g with ⟨_ | b, g'⟩
  · rw [afterArrival_of_none harrival]
    exact refl u
  · rw [afterArrival_of_some harrival]
    exact receive u b

/-- A read of a register leaves the transmit side alone. -/
theorem readRegister (u : Uart) (r : Register) : SameTransmitter u (u.readRegister r).2 := by
  cases r with
  | data => exact fetch u
  | control | status | baud => exact refl u

/-- A read leaves the transmit side alone. -/
theorem read (u : Uart) (address : UInt32) : SameTransmitter u (u.read address).2 := by
  rw [Uart.read]
  cases u.register? address with
  | none => exact refl u
  | some r => exact readRegister u r

/-! ## What the transmit side does is decided by what it goes by -/

section

variable {u w : Uart} (h : SameTransmitter u w)

include h

/-- Setting bits keeps an agreement in all bits but the one of the receiver. -/
theorem setBits_status (mask : UInt32) :
    clearBits (setBits u.status mask) Status.rxFull = clearBits (setBits w.status mask) Status.rxFull := by
  rw [clearBits_setBits, clearBits_setBits, h.status]

/-- Clearing bits keeps an agreement in all bits but the one of the receiver. -/
theorem clearBits_status (mask : UInt32) :
    clearBits (clearBits u.status mask) Status.rxFull = clearBits (clearBits w.status mask) Status.rxFull := by
  rw [clearBits_comm, h.status, clearBits_comm]

theorem setControl (v : UInt32) : SameTransmitter (u.setControl v) (w.setControl v) := by
  refine ⟨h.base, rfl, ?_, h.baud, h.tx, h.transmitted⟩
  simp only [Uart.setControl]
  cases has v Control.enable with
  | true => exact h.setBits_status _
  | false => exact h.clearBits_status _

/-- Offering a byte for transmission keeps the agreement. -/
theorem enqueue (v : UInt32) : SameTransmitter (u.enqueue v) (w.enqueue v) := by
  simp only [Uart.enqueue, ← h.tx]
  rcases u.tx.push v.toUInt8 with ⟨_ | _, tx⟩
  · exact ⟨h.base, h.control, h.status, h.baud, rfl, h.transmitted⟩
  · exact ⟨h.base, h.control, h.clearBits_status _, h.baud, rfl, h.transmitted⟩

/-- A write of a register keeps the agreement. -/
theorem writeRegister (v : UInt32) (r : Register) : SameTransmitter (u.writeRegister v r) (w.writeRegister v r) := by
  cases r with
  | control => exact h.setControl v
  | status => exact ⟨h.base, h.control, rfl, h.baud, h.tx, h.transmitted⟩
  | data => exact h.enqueue v
  | baud => exact ⟨h.base, h.control, h.status, rfl, h.tx, h.transmitted⟩

/-- UARTs that agree have the same registers at the same addresses. -/
theorem register?_eq (address : UInt32) : u.register? address = w.register? address := by
  rw [register?, register?, h.base]

/-- A write gives back the same on both sides, and keeps the agreement. -/
theorem write (address v : UInt32) :
    (u.write address v).1 = (w.write address v).1 ∧ SameTransmitter (u.write address v).2 (w.write address v).2 := by
  rw [Uart.write, Uart.write, h.register?_eq]
  cases w.register? address with
  | none => exact ⟨rfl, h⟩
  | some r => exact ⟨rfl, h.writeRegister v r⟩

/-- What is left of the status register after an initialisation, without the bit that tells of received bytes, is what the
transmit queue calls for. -/
theorem init : SameTransmitter u.init w.init := by
  refine ⟨h.base, h.control, ?_, h.baud, h.tx, h.transmitted⟩
  have hleft (u : Uart) : clearBits u.initialStatus Status.rxFull = Status.word true u.tx.entries.isEmpty false false := by
    rw [initialStatus_eq, clearBits_rxFull_word]
  exact (hleft u).trans (h.tx ▸ (hleft w).symm)

/-- The byte that leaves, and whether it is the last, depend on the transmit queue only. -/
theorem transmit? :
    u.transmit?.map (·.1) = w.transmit?.map (·.1) ∧
      SameTransmitter ((u.transmit?.map (·.2)).getD u) ((w.transmit?.map (·.2)).getD w) := by
  simp only [Uart.transmit?, ← h.tx]
  rcases u.tx.pop? with _ | ⟨b, tx⟩
  · exact ⟨rfl, h⟩
  · refine ⟨rfl, h.base, h.control, ?_, h.baud, rfl, congrArg (· + 1) h.transmitted⟩
    simp only [Option.map_some, Option.getD_some]
    cases tx.isEmpty with
    | true => exact h.setBits_status _
    | false => exact h.status

/-- The same leaves on both sides, and the agreement is kept. -/
theorem departure : u.departure.1 = w.departure.1 ∧ SameTransmitter u.departure.2 w.departure.2 := by
  rw [departure_eq, departure_eq, h.control]
  cases has w.control Control.txEnable with
  | true => exact h.transmit?
  | false => exact ⟨rfl, h⟩

/-- Whatever arrives in a tick, and whatever it draws, what leaves is the same. -/
theorem tick (g g' : Rng) :
    (Interrupt.txComplete ∈ (u.tick g).1 ↔ Interrupt.txComplete ∈ (w.tick g').1) ∧
      SameTransmitter (u.tick g).2.1 (w.tick g').2.1 := by
  have henabled : u.enabled = w.enabled := by rw [enabled, enabled, h.control]
  by_cases hon : u.enabled = true
  · rcases harrival : u.arrival g with ⟨byte?, g₁⟩
    rcases harrival' : w.arrival g' with ⟨byte?', g₁'⟩
    -- The arrivals may differ, but either UART still agrees with itself before, so the departures start from agreement.
    have hafter : SameTransmitter (u.afterArrival g) (w.afterArrival g') :=
      ((afterArrival u g).symm.trans h).trans (afterArrival w g')
    obtain ⟨hsent, hdeparted⟩ := hafter.departure
    rw [tick_of_enabled hon harrival, tick_of_enabled (henabled ▸ hon) harrival', mem_raised_txComplete,
      mem_raised_txComplete, h.control, hsent]
    exact ⟨Iff.rfl, hdeparted⟩
  · rw [Uart.tick, Uart.tick, if_neg hon, if_neg (henabled ▸ hon)]
    exact ⟨Iff.rfl, h⟩

/-! ## Actions and runs -/

/-- What is given back for an action, and what becomes of the agreement. -/
theorem act {a b : Action} (hab : a.SameButDraws b) :
    SameSending (u.act a).1 (w.act b).1 ∧ SameTransmitter (u.act a).2 (w.act b).2 := by
  cases a with
  | tick g =>
    cases b with
    | tick g' => exact h.tick g g'
    | _ => cases hab
  | read address =>
    obtain rfl : Action.read address = b := hab
    exact ⟨trivial, ((read u address).symm.trans h).trans (read w address)⟩
  | write address v =>
    obtain rfl : Action.write address v = b := hab
    exact h.write address v
  | init id =>
    obtain rfl : Action.init id = b := hab
    exact ⟨trivial, h.init⟩
  | deinit id =>
    obtain rfl : Action.deinit id = b := hab
    exact ⟨trivial, h⟩
  | receive byte =>
    obtain rfl : Action.receive byte = b := hab
    exact ⟨trivial, ((receive u byte).symm.trans h).trans (receive w byte)⟩
  | transmit =>
    obtain rfl : Action.transmit = b := hab
    exact h.transmit?

end

end SameTransmitter

/-- Two UARTs that agree on what the transmit side goes by, and are used alike, agree on it after every action, however
differently they receive: writes and transmissions give back the same on both, and a tick tells on both, or on neither, that
the last byte has left. -/
theorem transmission_undisturbed {u w : Uart} (h : SameTransmitter u w) {as bs : List Action}
    (hs : List.Forall₂ Action.SameButDraws as bs) :
    List.Forall₂ (fun x y => SameSending x.output y.output ∧ SameTransmitter x.after y.after)
      (trace act u as) (trace act w bs) :=
  forall₂_trace (Q := fun _ _ => SameSending) (fun h hab => h.act hab) h hs

/-- Say, a UART that receives nothing, and one that is never without something to receive and has a byte waiting already: what
leaves the one in the end leaves the other. -/
theorem transmission_undisturbed_noise :
    let quiet := { ofConfig default with pattern := [] }
    let noisy := { ofConfig default with chance := 1, rx := (Fifo.push (.empty 16) 7).2, data := 9, status := 7 }
    let common : List Action := [.write 0x40000000 15, .write 0x40000008 0x41, .write 0x40000008 0x42]
    SameTransmitter quiet noisy ∧
      List.Forall₂ Action.SameButDraws (common ++ [.tick ⟨1⟩, .transmit]) (common ++ [.tick ⟨2⟩, .transmit]) ∧
      List.Forall₂ (fun x y => SameSending x.output y.output ∧ SameTransmitter x.after y.after)
        (trace act quiet (common ++ [.tick ⟨1⟩, .transmit])) (trace act noisy (common ++ [.tick ⟨2⟩, .transmit])) := by
  intro quiet noisy common
  have h : SameTransmitter quiet noisy := ⟨rfl, rfl, by decide, rfl, rfl, rfl⟩
  have hs : List.Forall₂ Action.SameButDraws (common ++ [.tick ⟨1⟩, .transmit]) (common ++ [.tick ⟨2⟩, .transmit]) :=
    .cons rfl (.cons rfl (.cons rfl (.cons trivial (.cons rfl .nil))))
  exact ⟨h, hs, transmission_undisturbed h hs⟩

end Peripheral.Uart
