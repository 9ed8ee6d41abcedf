import Peripheral.Device.Uart

/-!
# Runs of a UART

What can be done to a UART, as actions, and what an action changes, as a list of changes. A change says which byte entered or
left which queue, or which register was set; nothing in it speaks of the status register. `leads_changes` says that an action
does to a UART exactly what its changes say, one after the other, and `leads_history` says it of a run. Statements about all
runs are proved change by change (`Leads`), never action by action.
-/

namespace Peripheral.Uart

/-- What can be done to a UART. A tick comes with the generator that it draws from. -/
inductive Action
  | read (address : UInt32)
  | write (address value : UInt32)
  | init (id : UInt32)
  | deinit (id : UInt32)
  | tick (g : Rng)
  | receive (byte : UInt8)
  | transmit
  deriving DecidableEq

/-- The UART after an action. -/
def perform (u : Uart) : Action → Uart
  | .read address => (u.read address).2
  | .write address v => (u.write address v).2
  | .init id => Device.init u id
  | .deinit id => Device.deinit u id
  | .tick g => (u.tick g).2.1
  | .receive b => (u.receive b).2
  | .transmit => (u.transmit?.map (·.2)).getD u

/-- What an action gives back. -/
inductive Reply
  | value (result : Except Refusal UInt32)
  | stored (result : Except Refusal Unit)
  | done
  /-- The interrupts that were raised, and the generator afterwards. -/
  | raised (ids : List UInt32) (g : Rng)
  | received (result : Except Fifo.Overflow Unit)
  /-- The byte that left, if one waited; the flag says that it left none behind. -/
  | sent (byte? : Option (UInt8 × Bool))

/-- What the UART gives back for an action. -/
def reply (u : Uart) : Action → Reply
  | .read address => .value (u.read address).1
  | .write address v => .stored (u.write address v).1
  | .init _ | .deinit _ => .done
  | .tick g => .raised (u.tick g).1 (u.tick g).2.2
  | .receive b => .received (u.receive b).1
  | .transmit => .sent (u.transmit?.map (·.1))

/-- The UART as a machine that takes actions. -/
def act (u : Uart) (a : Action) : Reply × Uart := (u.reply a, u.perform a)

/-- The UART after actions. -/
def run (u : Uart) : List Action → Uart
  | [] => u
  | a :: rest => (u.perform a).run rest

/-- One thing that changes in a UART. -/
inductive Change
  | initialised
  | controlled (value : UInt32)
  /-- The status register was overwritten. -/
  | marked (value : UInt32)
  /-- The baud register was overwritten. -/
  | clocked (value : UInt32)
  /-- A byte was accepted for transmission. -/
  | queued (byte : UInt8)
  /-- A byte found the transmit queue full. -/
  | refused (byte : UInt8)
  /-- A byte left the transmit queue; the flag says that it left none behind. -/
  | sent (byte : UInt8) (last : Bool)
  /-- A byte was accepted by the receive queue. -/
  | arrived (byte : UInt8)
  /-- A byte found the receive queue full. -/
  | lost (byte : UInt8)
  /-- A byte was taken out of the receive queue. -/
  | fetched (byte : UInt8)
  deriving DecidableEq

/-- The removal of the byte that waited longest for transmission, if there is one. -/
def sending (u : Uart) : List Change :=
  match u.tx.entries with
  | [] => []
  | b :: rest => [.sent b rest.isEmpty]

/-- The arrival of a byte on the line. -/
def receiving (u : Uart) (b : UInt8) : Change := if u.rx.isFull then .lost b else .arrived b

/-- What an action changes. -/
def changes (u : Uart) : Action → List Change
  | .read address =>
    match u.register? address with
    | some .data => (u.rx.entries.head?.map .fetched).toList
    | _ => []
  | .write address v =>
    match u.register? address with
    | some .control => [.controlled v]
    | some .status => [.marked v]
    | some .data => [if u.tx.isFull then .refused v.toUInt8 else .queued v.toUInt8]
    | some .baud => [.clocked v]
    | none => []
  | .init _ => [.initialised]
  | .deinit _ => []
  | .tick g =>
    if u.enabled then
      ((u.arrival g).1.map u.receiving).toList ++ (if has u.control Control.txEnable then u.sending else [])
    else []
  | .receive b => [u.receiving b]
  | .transmit => u.sending

/-- Everything that a run changes, in the order in which it happens. -/
def history (u : Uart) : List Action → List Change
  | [] => []
  | a :: rest => u.changes a ++ (u.perform a).history rest

/-- The UART after a change. -/
def change (u : Uart) : Change → Uart
  | .initialised => u.init
  | .controlled v => u.setControl v
  | .marked v => { u with status := v }
  | .clocked v => { u with baud := v }
  | .queued b => u.enqueue b.toUInt32
  | .refused b => u.enqueue b.toUInt32
  | .sent _ _ => (u.transmit?.map (·.2)).getD u
  | .arrived b => (u.receive b).2
  | .lost b => (u.receive b).2
  | .fetched _ => u.fetch

/-- When a change can happen: a byte is accepted only where there is room, and it is the oldest that leaves. -/
def Fits (u : Uart) : Change → Prop
  | .queued _ => u.tx.entries.length < u.tx.capacity
  | .refused _ => u.tx.capacity ≤ u.tx.entries.length
  | .sent b last => ∃ rest, u.tx.entries = b :: rest ∧ last = rest.isEmpty
  | .arrived _ => u.rx.entries.length < u.rx.capacity
  | .lost _ => u.rx.capacity ≤ u.rx.entries.length
  | .fetched b => ∃ rest, u.rx.entries = b :: rest
  | _ => True

/-- Changes that can happen one after the other lead from one UART to another. -/
inductive Leads : Uart → List Change → Uart → Prop
  | nil (u : Uart) : Leads u [] u
  | cons {u w : Uart} {c : Change} {rest : List Change} : u.Fits c → Leads (u.change c) rest w → Leads u (c :: rest) w

theorem Leads.single {u : Uart} {c : Change} (h : u.Fits c) : Leads u [c] (u.change c) :=
  .cons h (.nil _)

theorem Leads.append {u v w : Uart} {cs ds : List Change} (h : Leads u cs v) (h' : Leads v ds w) :
    Leads u (cs ++ ds) w := by
  induction h with
  | nil => exact h'
  | cons hc _ ih => exact .cons hc (ih h')

/-! ## Addresses -/

/-- The distance of a register from the base address. -/
def Register.offset : Register → UInt32
  | .control => 0
  | .status => 4
  | .data => 8
  | .baud => 12

/-- A register is at an offset exactly if this is its offset. -/
theorem ofOffset?_eq_some_iff (offset : UInt32) (r : Register) :
    Register.ofOffset? offset = some r ↔ offset = r.offset := by
  unfold Register.ofOffset?
  constructor
  · intro h
    repeat' split at h
    all_goals cases h <;> assumption
  · rintro rfl
    cases r <;> rfl

/-- An address stands for a register exactly when it lies at that register's distance from the base, modulo 2^32. -/
theorem register?_eq_some_iff (u : Uart) (address : UInt32) (r : Register) :
    u.register? address = some r ↔ address = u.base + r.offset := by
  rw [register?, ofOffset?_eq_some_iff]
  constructor
  · intro h
    rw [← h, UInt32.add_comm, UInt32.sub_add_cancel]
  · rintro rfl
    rw [UInt32.add_comm, UInt32.add_sub_cancel]

/-! ## What the operations on the queues do -/

/-- A queue that holds something hands out its first byte. -/
theorem pop?_of_cons {q : Fifo} {b : UInt8} {rest : Bytes} (h : q.entries = b :: rest) :
    ∃ r, q.pop? = some (b, r) ∧ r.entries = rest ∧ r.dropped = q.dropped ∧ r.capacity = q.capacity := by
  cases hp : q.pop? with
  | none =>
    rw [Fifo.pop?_eq_none_iff, h] at hp
    cases hp
  | some br =>
    obtain ⟨c, r⟩ := br
    obtain ⟨he, hd, hc⟩ := Fifo.entries_of_pop? hp
    rw [h] at he
    cases he
    exact ⟨r, rfl, rfl, hd, hc⟩

/-- What becomes of a byte depends on the low byte of the word that is written, and on nothing else of it. -/
theorem enqueue_toUInt32 (u : Uart) (v : UInt32) : u.enqueue v.toUInt8.toUInt32 = u.enqueue v := by
  simp only [enqueue, UInt8.toUInt8_toUInt32]

/-- A byte that is offered while there is room waits for transmission, and the status says that there is something to send.
-/
theorem enqueue_of_room {u : Uart} (b : UInt8) (h : u.tx.entries.length < u.tx.capacity) :
    u.enqueue b.toUInt32 =
      { u with tx := (u.tx.push b).2, status := clearBits u.status (setBits Status.txEmpty Status.txComplete) } := by
  have hp : u.tx.push b = (.ok (), (u.tx.push b).2) := Prod.ext (Fifo.push_of_lt u.tx b h).1 rfl
  simp only [enqueue, UInt8.toUInt8_toUInt32]
  rw [hp]

/-- A byte that is offered while there is no room is dropped and counted, and the status stays as it is. -/
theorem enqueue_of_full {u : Uart} (b : UInt8) (h : u.tx.capacity ≤ u.tx.entries.length) :
    u.enqueue b.toUInt32 = { u with tx := (u.tx.push b).2 } := by
  have hp : u.tx.push b = (.error ⟨b, u.tx.capacity⟩, (u.tx.push b).2) := Prod.ext (Fifo.push_of_full u.tx b h).1 rfl
  simp only [enqueue, UInt8.toUInt8_toUInt32]
  rw [hp]

/-- A byte that arrives while there is room is received, and the status says so. -/
theorem receive_of_room {u : Uart} (b : UInt8) (h : u.rx.entries.length < u.rx.capacity) :
    (u.receive b).2 = { u with rx := (u.rx.push b).2, status := setBits u.status Status.rxFull } := by
  have hp : u.rx.push b = (.ok (), (u.rx.push b).2) := Prod.ext (Fifo.push_of_lt u.rx b h).1 rfl
  rw [receive, hp]

/-- A byte that arrives while there is no room is dropped and counted, and the status stays as it is. -/
theorem receive_of_full {u : Uart} (b : UInt8) (h : u.rx.capacity ≤ u.rx.entries.length) :
    (u.receive b).2 = { u with rx := (u.rx.push b).2 } := by
  have hp : u.rx.push b = (.error ⟨b, u.rx.capacity⟩, (u.rx.push b).2) := Prod.ext (Fifo.push_of_full u.rx b h).1 rfl
  rw [receive, hp]

/-- Nothing leaves an empty transmit queue. -/
theorem transmit?_of_nil {u : Uart} (h : u.tx.entries = []) : u.transmit? = none := by
  rw [transmit?, (Fifo.pop?_eq_none_iff u.tx).mpr h]

/-- The byte that waited longest leaves; the status register tells of it only if no byte is left behind. -/
theorem transmit?_of_cons {u : Uart} {b : UInt8} {rest : Bytes} (h : u.tx.entries = b :: rest) :
    ∃ tx : Fifo, tx.entries = rest ∧ tx.dropped = u.tx.dropped ∧ tx.capacity = u.tx.capacity ∧
      u.transmit? = some ((b, rest.isEmpty),
        { u with
          tx
          status := if rest.isEmpty then setBits u.status (setBits Status.txEmpty Status.txComplete) else u.status
          transmitted := u.transmitted + 1 }) := by
  obtain ⟨tx, hp, he, hd, hc⟩ := pop?_of_cons h
  refine ⟨tx, he, hd, hc, ?_⟩
  simp only [transmit?, hp, Fifo.isEmpty, he]

/-- The byte that waited longest leaves, and the status tells when it was the last one. -/
theorem change_sent {u : Uart} {b : UInt8} {rest : Bytes} (h : u.tx.entries = b :: rest) (last : Bool) :
    ∃ tx : Fifo, tx.entries = rest ∧ tx.dropped = u.tx.dropped ∧ tx.capacity = u.tx.capacity ∧
      u.change (.sent b last) =
        { u with
          tx
          status := if rest.isEmpty then setBits u.status (setBits Status.txEmpty Status.txComplete) else u.status
          transmitted := u.transmitted + 1 } := by
  obtain ⟨tx, he, hd, hc, ht⟩ := transmit?_of_cons h
  refine ⟨tx, he, hd, hc, ?_⟩
  rw [change, ht]
  rfl

/-- Nothing is taken out of an empty receive queue. -/
theorem fetch_of_nil {u : Uart} (h : u.rx.entries = []) : u.fetch = u := by
  rw [fetch, (Fifo.pop?_eq_none_iff u.rx).mpr h]

/-- The byte that was received first goes into the data register. -/
theorem fetch_of_cons {u : Uart} {b : UInt8} {rest : Bytes} (h : u.rx.entries = b :: rest) :
    ∃ rx : Fifo, rx.entries = rest ∧ rx.dropped = u.rx.dropped ∧ rx.capacity = u.rx.capacity ∧
      u.fetch =
        { u with
          rx
          status := if rest.isEmpty then clearBits u.status Status.rxFull else u.status
          data := b.toUInt32 } := by
  obtain ⟨rx, hp, he, hd, hc⟩ := pop?_of_cons h
  refine ⟨rx, he, hd, hc, ?_⟩
  simp only [fetch, hp, Fifo.isEmpty, he]

/-- The base address stays what it is. -/
theorem change_base {u : Uart} {c : Change} (h : u.Fits c) : (u.change c).base = u.base := by
  cases c with
  | queued b => rw [change, enqueue_of_room b h]
  | refused b => rw [change, enqueue_of_full b h]
  | arrived b => rw [change, receive_of_room b h]
  | lost b => rw [change, receive_of_full b h]
  | sent b last =>
    obtain ⟨rest, he, -⟩ := h
    obtain ⟨tx, -, -, -, hu⟩ := change_sent he last
    rw [hu]
  | fetched b =>
    obtain ⟨rest, he⟩ := h
    obtain ⟨rx, -, -, -, hu⟩ := fetch_of_cons he
    rw [change, hu]
  | initialised => rfl
  | controlled v => rfl
  | marked v => rfl
  | clocked v => rfl

/-- No change moves the registers. -/
theorem Leads.base {u w : Uart} {cs : List Change} (h : Leads u cs w) : w.base = u.base := by
  induction h with
  | nil => rfl
  | cons hc _ ih => rw [ih, change_base hc]

/-! ## An action does what its changes say -/

/-- A byte that arrives is received or lost. -/
theorem receiving_eq (u : Uart) (b : UInt8) : u.receiving b = .lost b ∨ u.receiving b = .arrived b := by
  rw [receiving]
  split
  · exact .inl rfl
  · exact .inr rfl

/-- At most one byte leaves. -/
theorem sending_eq (u : Uart) : u.sending = [] ∨ ∃ b last, u.sending = [.sent b last] := by
  rw [sending]
  split
  · exact .inl rfl
  · exact .inr ⟨_, _, rfl⟩

/-- What a tick changes: at most one byte arrives, and at most one leaves. -/
theorem mem_changes_tick {u : Uart} {g : Rng} {c : Change} (h : c ∈ u.changes (.tick g)) :
    (∃ b, c = u.receiving b) ∨ c ∈ u.sending := by
  simp only [changes] at h
  split at h
  · rcases List.mem_append.mp h with h | h
    · rw [Option.mem_toList, Option.map_eq_some_iff] at h
      obtain ⟨b, -, rfl⟩ := h
      exact .inl ⟨b, rfl⟩
    · split at h
      · exact .inr h
      · cases h
  · cases h

/-- The removal of a byte is a change that can happen, or none. -/
theorem leads_sending (u : Uart) : u.Leads u.sending ((u.transmit?.map (·.2)).getD u) := by
  cases h : u.tx.entries with
  | nil =>
    rw [sending, h, transmit?_of_nil h]
    exact .nil u
  | cons b rest =>
    rw [sending, h]
    exact .single ⟨rest, h, rfl⟩

/-- The arrival of a byte is a change that can happen. -/
theorem leads_receiving (u : Uart) (b : UInt8) : u.Leads [u.receiving b] (u.receive b).2 := by
  rw [receiving]
  by_cases h : u.rx.capacity ≤ u.rx.entries.length
  · rw [if_pos (by simpa [Fifo.isFull] using h)]
    exact .single (c := .lost b) h
  · rw [if_neg (by simpa [Fifo.isFull] using h)]
    exact .single (c := .arrived b) (Nat.not_le.mp h)

/-- What a read changes can happen. -/
theorem leads_read (u : Uart) (address : UInt32) : u.Leads (u.changes (.read address)) (u.perform (.read address)) := by
  simp only [changes, perform, read]
  cases u.register? address with
  | none => exact .nil u
  | some r =>
    cases r with
    | data =>
      cases h : u.rx.entries with
      | nil =>
        simp only [readRegister, fetch_of_nil h]
        exact .nil u
      | cons b rest => exact .single (c := .fetched b) ⟨rest, h⟩
    | _ => exact .nil u

/-- What a write changes can happen. -/
theorem leads_write (u : Uart) (address v : UInt32) :
    u.Leads (u.changes (.write address v)) (u.perform (.write address v)) := by
  simp only [changes, perform, write]
  cases u.register? address with
  | none => exact .nil u
  | some r =>
    cases r with
    | control => exact .single (c := .controlled v) trivial
    | status => exact .single (c := .marked v) trivial
    | baud => exact .single (c := .clocked v) trivial
    | data =>
      simp only [writeRegister]
      rw [← enqueue_toUInt32]
      by_cases h : u.tx.capacity ≤ u.tx.entries.length
      · rw [if_pos (by simpa [Fifo.isFull] using h)]
        exact .single (c := .refused v.toUInt8) h
      · rw [if_neg (by simpa [Fifo.isFull] using h)]
        exact .single (c := .queued v.toUInt8) (Nat.not_le.mp h)

/-- The arrival of a byte concerns neither the control register nor the transmit queue. -/
theorem receive_transmitter (u : Uart) (b : UInt8) :
    (u.receive b).2.control = u.control ∧ (u.receive b).2.tx = u.tx := by
  by_cases h : u.rx.capacity ≤ u.rx.entries.length
  · rw [receive_of_full b h]
    exact ⟨rfl, rfl⟩
  · rw [receive_of_room b (Nat.not_le.mp h)]
    exact ⟨rfl, rfl⟩

/-- A departure is a transmission, if the transmitter is on. -/
theorem departure_eq (u : Uart) :
    u.departure =
      if has u.control Control.txEnable then (u.transmit?.map (·.1), (u.transmit?.map (·.2)).getD u) else (none, u) := by
  rw [departure]
  cases u.transmit? <;> rfl

/-- What a departure changes can happen. -/
theorem leads_departure (u : Uart) :
    u.Leads (if has u.control Control.txEnable then u.sending else []) u.departure.2 := by
  rw [departure_eq]
  cases has u.control Control.txEnable with
  | true => exact leads_sending u
  | false => exact .nil u

/-- In a tick the arrival comes first; what leaves afterwards was there before. -/
theorem leads_tick (u : Uart) (g : Rng) : u.Leads (u.changes (.tick g)) (u.perform (.tick g)) := by
  simp only [changes, perform, tick]
  cases u.enabled with
  | false => exact .nil u
  | true =>
    simp only [if_true]
    cases ha : (u.arrival g).1 with
    | none =>
      rw [afterArrival, ha]
      exact leads_departure u
    | some b =>
      rw [afterArrival, ha]
      obtain ⟨hc, ht⟩ := receive_transmitter u b
      have hd := leads_departure (u.receive b).2
      rw [hc, show (u.receive b).2.sending = u.sending by rw [sending, sending, ht]] at hd
      exact (leads_receiving u b).append hd

/-- An action does to a UART what its changes say. -/
theorem leads_changes (u : Uart) (a : Action) : u.Leads (u.changes a) (u.perform a) := by
  cases a with
  | read address => exact leads_read u address
  | write address v => exact leads_write u address v
  | init id => exact .single (c := .initialised) trivial
  | deinit id => exact .nil u
  | tick g => exact leads_tick u g
  | receive b => exact leads_receiving u b
  | transmit => exact leads_sending u

/-- No action moves the registers. -/
theorem perform_base (u : Uart) (a : Action) : (u.perform a).base = u.base := (leads_changes u a).base

/-- A run does to a UART what its history says. -/
theorem leads_history (u : Uart) (actions : List Action) : u.Leads (u.history actions) (u.run actions) := by
  induction actions generalizing u with
  | nil => exact .nil u
  | cons a rest ih => exact (leads_changes u a).append (ih (u.perform a))

end Peripheral.Uart
