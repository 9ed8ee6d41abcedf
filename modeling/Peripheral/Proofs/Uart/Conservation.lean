import Peripheral.Proofs.Uart.Run

/-!
# No byte is lost, doubled or moved out of turn

What the queues of a UART take in comes out again in the same order (`Conserved`, change by change), so that after any run of
a new UART every byte is accounted for: the ones written and accepted are the ones sent and the ones still
waiting, the ones received are the ones read and the ones still waiting, and a write of the data register is either counted as
sent, or waits, or was dropped.
-/

namespace Peripheral.Uart

namespace Change

/-- The byte that was accepted for transmission. -/
def queued? : Change → Option UInt8
  | queued b => some b
  | _ => none

/-- The byte that found the transmit queue full. -/
def refused? : Change → Option UInt8
  | refused b => some b
  | _ => none

/-- The byte that left the transmit queue. -/
def sent? : Change → Option UInt8
  | sent b _ => some b
  | _ => none

/-- The byte that was accepted by the receive queue. -/
def arrived? : Change → Option UInt8
  | arrived b => some b
  | _ => none

/-- The byte that was taken out of the receive queue. -/
def fetched? : Change → Option UInt8
  | fetched b => some b
  | _ => none

end Change

/-- The action is a write of the data register of a UART at the given base address. -/
def Action.writesData (base : UInt32) : Action → Bool
  | .write address _ => address == base + 8
  | _ => false

/-- The action is an initialisation or release, or an access to another address than that of the data register. -/
def Action.SparesData (base : UInt32) : Action → Prop
  | .read address => address ≠ base + 8
  | .write address _ => address ≠ base + 8
  | .init _ => True
  | .deinit _ => True
  | _ => False

instance (base : UInt32) : (a : Action) → Decidable (a.SparesData base)
  | .read address => inferInstanceAs (Decidable (address ≠ base + 8))
  | .write address _ => inferInstanceAs (Decidable (address ≠ base + 8))
  | .init _ | .deinit _ => isTrue trivial
  | .tick _ | .receive _ | .transmit => isFalse id

/-- The log between two states of a UART accounts for what became of the queues, the counters and the data register. -/
structure Conserved (u : Uart) (log : List Change) (w : Uart) : Prop where
  tx : u.tx.entries ++ log.filterMap Change.queued? = log.filterMap Change.sent? ++ w.tx.entries
  rx : u.rx.entries ++ log.filterMap Change.arrived? = log.filterMap Change.fetched? ++ w.rx.entries
  transmitted : w.transmitted = u.transmitted + (log.filterMap Change.sent?).length
  dropped : w.tx.dropped = u.tx.dropped + (log.filterMap Change.refused?).length
  data : w.data = ((log.filterMap Change.fetched?).getLast?.map UInt8.toUInt32).getD u.data
  txCapacity : w.tx.capacity = u.tx.capacity
  rxCapacity : w.rx.capacity = u.rx.capacity

/-- When nothing changes, everything is accounted for. -/
theorem Conserved.nil (u : Uart) : Conserved u [] u :=
  ⟨by simp, by simp, rfl, rfl, rfl, rfl, rfl⟩

theorem Conserved.append {u v w : Uart} {cs ds : List Change} (h : Conserved u cs v) (h' : Conserved v ds w) :
    Conserved u (cs ++ ds) w where
  tx := by
    rw [List.filterMap_append, List.filterMap_append, ← List.append_assoc, h.tx, List.append_assoc, h'.tx,
      List.append_assoc]
  rx := by
    rw [List.filterMap_append, List.filterMap_append, ← List.append_assoc, h.rx, List.append_assoc, h'.rx,
      List.append_assoc]
  transmitted := by
    rw [h'.transmitted, h.transmitted, List.filterMap_append, List.length_append, Nat.add_assoc]
  dropped := by
    rw [h'.dropped, h.dropped, List.filterMap_append, List.length_append, Nat.add_assoc]
  data := by
    rw [h'.data, h.data, List.filterMap_append, List.getLast?_append]
    cases (ds.filterMap Change.fetched?).getLast? <;> rfl
  txCapacity := h'.txCapacity.trans h.txCapacity
  rxCapacity := h'.rxCapacity.trans h.rxCapacity

/-- Every change keeps the accounts: what goes in is put behind the others, what comes out is the oldest. -/
theorem Conserved.change {u : Uart} {c : Change} (h : u.Fits c) : Conserved u [c] (u.change c) := by
  have still (q : Fifo) : q.entries ++ [] = [] ++ q.entries := List.append_nil q.entries
  cases c with
  | queued b =>
    obtain ⟨-, he, hd, hc⟩ := Fifo.push_of_lt u.tx b h
    rw [Uart.change, enqueue_of_room b h]
    exact ⟨he.symm, still u.rx, rfl, hd, rfl, hc, rfl⟩
  | refused b =>
    obtain ⟨-, he, hd, hc⟩ := Fifo.push_of_full u.tx b h
    rw [Uart.change, enqueue_of_full b h]
    exact ⟨(List.append_nil _).trans he.symm, still u.rx, rfl, hd, rfl, hc, rfl⟩
  | sent b last =>
    obtain ⟨rest, ht, -⟩ := h
    obtain ⟨tx, rfl, hd, hc, hu⟩ := change_sent ht last
    rw [hu]
    exact ⟨(List.append_nil _).trans ht, still u.rx, rfl, hd, rfl, hc, rfl⟩
  | arrived b =>
    obtain ⟨-, he, -, hc⟩ := Fifo.push_of_lt u.rx b h
    rw [Uart.change, receive_of_room b h]
    exact ⟨still u.tx, he.symm, rfl, rfl, rfl, rfl, hc⟩
  | lost b =>
    obtain ⟨-, he, -, hc⟩ := Fifo.push_of_full u.rx b h
    rw [Uart.change, receive_of_full b h]
    exact ⟨still u.tx, (List.append_nil _).trans he.symm, rfl, rfl, rfl, rfl, hc⟩
  | fetched b =>
    obtain ⟨rest, hx⟩ := h
    obtain ⟨rx, rfl, -, hc, hu⟩ := fetch_of_cons hx
    rw [Uart.change, hu]
    exact ⟨still u.tx, (List.append_nil _).trans hx, rfl, rfl, rfl, rfl, hc⟩
  | initialised => exact ⟨still u.tx, still u.rx, rfl, rfl, rfl, rfl, rfl⟩
  | controlled v => exact ⟨still u.tx, still u.rx, rfl, rfl, rfl, rfl, rfl⟩
  | marked v => exact ⟨still u.tx, still u.rx, rfl, rfl, rfl, rfl, rfl⟩
  | clocked v => exact ⟨still u.tx, still u.rx, rfl, rfl, rfl, rfl, rfl⟩

/-- Changes that can happen one after the other account for everything. -/
theorem Leads.conserved {u w : Uart} {cs : List Change} (h : u.Leads cs w) : Conserved u cs w := by
  induction h with
  | nil u => exact .nil u
  | cons hc _ ih => exact (Conserved.change hc).append ih

/-! ## Writes of the data register -/

/-- The number of bytes that were offered to the transmit queue. -/
def offers (log : List Change) : Nat := (log.filterMap Change.queued?).length + (log.filterMap Change.refused?).length

theorem offers_append (cs ds : List Change) : offers (cs ++ ds) = offers cs + offers ds := by
  simp only [offers, List.filterMap_append, List.length_append]
  omega

/-- The removal of a byte offers none to the transmit queue. -/
theorem offers_sending (u : Uart) : offers u.sending = 0 := by
  rcases sending_eq u with h | ⟨b, last, h⟩ <;> rw [h] <;> rfl

/-- The arrival of a byte offers none to the transmit queue. -/
theorem offers_receiving (u : Uart) (b : UInt8) : offers [u.receiving b] = 0 := by
  rcases receiving_eq u b with h | h <;> rw [h] <;> rfl

/-- A write is one of the data register if its address is that of the register. -/
theorem writesData_write (u : Uart) (address v : UInt32) :
    (Action.write address v).writesData u.base = (u.register? address == some .data) := by
  rw [Action.writesData, Bool.eq_iff_iff, beq_iff_eq, beq_iff_eq]
  exact (register?_eq_some_iff u address .data).symm

/-- A byte is offered for transmission by a write of the data register, and by nothing else. -/
theorem offers_changes (u : Uart) (a : Action) : offers (u.changes a) = if a.writesData u.base then 1 else 0 := by
  cases a with
  | write address v =>
    rw [writesData_write]
    simp only [changes]
    cases u.register? address with
    | none => rfl
    | some r =>
      cases r with
      | data =>
        by_cases hf : u.tx.isFull
        · rw [if_pos hf]
          rfl
        · rw [if_neg hf]
          rfl
      | _ => rfl
  | read address =>
    simp only [changes]
    split
    · cases u.rx.entries.head? <;> rfl
    · rfl
  | tick g =>
    have ha : offers ((u.arrival g).1.map u.receiving).toList = 0 := by
      cases (u.arrival g).1 with
      | none => rfl
      | some b => exact offers_receiving u b
    simp only [changes, Action.writesData]
    split
    · rw [offers_append, ha, Nat.zero_add]
      split
      · exact offers_sending u
      · rfl
    · rfl
  | receive b => exact offers_receiving u b
  | transmit => exact offers_sending u
  | init id => rfl
  | deinit id => rfl

/-- As many bytes were offered to the transmit queue as there were writes of the data register. -/
theorem offers_history (u : Uart) (actions : List Action) :
    offers (u.history actions) = actions.countP (·.writesData u.base) := by
  induction actions generalizing u with
  | nil => rfl
  | cons a rest ih =>
    rw [history, offers_append, offers_changes, ih, perform_base, List.countP_cons, Nat.add_comm]

/-! ## Accesses beside the data register -/

/-- An action that spares the data register changes neither queue. -/
theorem entries_of_sparesData {u : Uart} {a : Action} (h : a.SparesData u.base) :
    (u.perform a).tx.entries = u.tx.entries ∧ (u.perform a).rx.entries = u.rx.entries := by
  have hd (address : UInt32) (h : address ≠ u.base + 8) : u.register? address ≠ some .data :=
    fun hr => h ((register?_eq_some_iff u address .data).mp hr)
  cases a with
  | read address =>
    simp only [perform, read]
    cases hr : u.register? address with
    | none => exact ⟨rfl, rfl⟩
    | some r =>
      cases r with
      | data => exact absurd hr (hd address h)
      | _ => exact ⟨rfl, rfl⟩
  | write address v =>
    simp only [perform, write]
    cases hr : u.register? address with
    | none => exact ⟨rfl, rfl⟩
    | some r =>
      cases r with
      | data => exact absurd hr (hd address h)
      | _ => exact ⟨rfl, rfl⟩
  | init id => exact ⟨rfl, rfl⟩
  | deinit id => exact ⟨rfl, rfl⟩
  | tick g => exact h.elim
  | receive b => exact h.elim
  | transmit => exact h.elim

/-! ## The whole account -/

/-- What a read of the data register returns: the oldest byte received, or else what the register held before. -/
theorem read_data (u : Uart) :
    (u.read (u.base + 8)).1 = .ok ((u.rx.entries.head?.map UInt8.toUInt32).getD u.data) := by
  rw [read, (register?_eq_some_iff u (u.base + 8) .data).mpr rfl]
  cases h : u.rx.entries with
  | nil => simp only [readRegister, fetch_of_nil h, List.head?_nil, Option.map_none, Option.getD_none]
  | cons b rest =>
    obtain ⟨rx, -, -, -, hf⟩ := fetch_of_cons h
    simp only [readRegister, hf, List.head?_cons, Option.map_some, Option.getD_some]

/-- Every byte is accounted for after every run of a new UART. The bytes accepted for transmission, in order, are those that
have left the transmit queue followed by those that wait in it; each write of the data register is counted as transmitted,
waits, or was dropped; the bytes accepted by the receive queue, in order, are those read followed by those that wait; a read of
the data register returns the oldest byte that waits, and if there is none the last one that was read; and neither queue ever
holds more than 16 bytes. No access beside the data register moves a byte. -/
theorem bytes_accounted (c : Config) (actions : List Action) :
    let u := (ofConfig c).run actions
    let log := (ofConfig c).history actions
    log.filterMap Change.queued? = log.filterMap Change.sent? ++ u.tx.entries ∧
      u.transmitted = (log.filterMap Change.sent?).length ∧
      actions.countP (·.writesData c.baseAddress) = u.transmitted + u.tx.size + u.tx.dropped ∧
      log.filterMap Change.arrived? = log.filterMap Change.fetched? ++ u.rx.entries ∧
      (u.read (c.baseAddress + 8)).1 =
        .ok ((u.rx.entries.head?.or (log.filterMap Change.fetched?).getLast?).elim 0 UInt8.toUInt32) ∧
      u.tx.size ≤ 16 ∧ u.rx.size ≤ 16 ∧
      ∀ a : Action, a.SparesData c.baseAddress →
        (u.perform a).tx.entries = u.tx.entries ∧ (u.perform a).rx.entries = u.rx.entries := by
  intro u log
  have hl : (ofConfig c).Leads log u := leads_history _ actions
  have h := hl.conserved
  have hb : u.base = c.baseAddress := hl.base
  have hq : log.filterMap Change.queued? = log.filterMap Change.sent? ++ u.tx.entries := h.tx
  have ht : u.transmitted = (log.filterMap Change.sent?).length := h.transmitted.trans (Nat.zero_add _)
  have hd : u.tx.dropped = (log.filterMap Change.refused?).length := h.dropped.trans (Nat.zero_add _)
  refine ⟨hq, ht, ?_, h.rx, ?_, ?_, ?_, fun a ha => entries_of_sparesData (hb ▸ ha)⟩
  · have ho := offers_history (ofConfig c) actions
    have hn := congrArg List.length hq
    rw [List.length_append] at hn
    rw [show c.baseAddress = (ofConfig c).base from rfl, ← ho, ht, hd, Fifo.size, ← hn]
    rfl
  · rw [← hb, read_data, h.data]
    cases u.rx.entries.head? with
    | some b => rfl
    | none => cases (log.filterMap Change.fetched?).getLast? <;> rfl
  · exact Nat.le_trans u.tx.bounded (Nat.le_of_eq h.txCapacity)
  · exact Nat.le_trans u.rx.bounded (Nat.le_of_eq h.rxCapacity)

/-- Say, with one byte read, one sent and one that waits, before somebody overwrites the status register. -/
theorem bytes_accounted_overwritten :
    ∃ (actions : List Action) (u : Uart), u = (ofConfig default).run actions ∧
      Action.SparesData (default : Config).baseAddress (.write 0x40000004 0) ∧ [0x41, 0x42] = 0x41 :: u.tx.entries ∧
      (u.perform (.write 0x40000004 0)).tx.entries = u.tx.entries ∧
      (u.read ((default : Config).baseAddress + 8)).1 = .ok 7 := by
  obtain ⟨actions, ha⟩ : ∃ actions : List Action, actions =
      [.write 0x40000008 0x1141, .receive 7, .read 0x40000008, .write 0x40000008 0x42, .transmit] := ⟨_, rfl⟩
  have hl : (ofConfig default).history actions = [.queued 0x41, .arrived 7, .fetched 7, .queued 0x42, .sent 0x41 false] := by
    subst ha
    decide
  have h := bytes_accounted default actions
  rw [hl] at h
  generalize hu : (ofConfig default).run actions = u at h
  obtain ⟨hq, -, -, hx, hr, -, -, hp⟩ := h
  have he : u.rx.entries = [] := List.self_eq_append_right.mp (show [7] = [7] ++ u.rx.entries from hx)
  have hs : Action.SparesData (default : Config).baseAddress (.write 0x40000004 0) := by decide
  rw [he] at hr
  exact ⟨actions, u, hu.symm, hs, hq, (hp _ hs).1, hr⟩

end Peripheral.Uart
