import Peripheral.Proofs.Uart.Run

/-!
# What the registers of a UART keep

The control and the baud register belong to the user: nothing but a write to their address changes them, so they read as the
latest word written there (`word_run`). A word for the control register reaches one bit of the status register and nothing
behind it, and an access beside the four registers reaches nothing at all (`registers_kept`).
-/

namespace Peripheral.Uart

/-- The word that a register holds. -/
def word (u : Uart) : Register → UInt32
  | .control => u.control
  | .status => u.status
  | .data => u.data
  | .baud => u.baud

/-- Nothing but a write changes the register. -/
def Register.isSetting : Register → Bool
  | .control | .baud => true
  | .status | .data => false

/-- The register that a change overwrites, and the word that it puts there. -/
def Change.setting? : Change → Option (Register × UInt32)
  | .controlled v => some (.control, v)
  | .marked v => some (.status, v)
  | .clocked v => some (.baud, v)
  | _ => none

/-- The word that a change puts into a register. -/
def Change.sets? (r : Register) (c : Change) : Option UInt32 :=
  c.setting?.bind fun s => if s.1 = r then some s.2 else none

/-- The word that an action writes to an address. -/
def Action.wordTo? (address : UInt32) : Action → Option UInt32
  | .write a v => if a = address then some v else none
  | _ => none

/-- The words that actions write to an address, in order. -/
def wordsTo (address : UInt32) (actions : List Action) : List UInt32 := actions.filterMap (Action.wordTo? address)

/-! ## Registers that belong to the user -/

section

variable {r : Register} (hr : r.isSetting = true)

include hr

/-- What touches neither the control nor the baud register leaves the word as it was. -/
theorem word_eq_of_kept {u w : Uart} (hcontrol : w.control = u.control) (hbaud : w.baud = u.baud) :
    w.word r = u.word r := by
  cases r with
  | control => exact hcontrol
  | baud => exact hbaud
  | status | data => cases hr

/-- A change that puts no word into the register leaves the one that is there. -/
theorem word_change {u : Uart} {c : Change} (h : u.Fits c) : (u.change c).word r = (c.sets? r).getD (u.word r) := by
  have hkept {w : Uart} (hcontrol : w.control = u.control) (hbaud : w.baud = u.baud) : w.word r = u.word r :=
    word_eq_of_kept hr hcontrol hbaud
  cases c with
  | controlled v | marked v | clocked v =>
    cases r with
    | control | baud => rfl
    | status | data => cases hr
  | initialised => exact hkept rfl rfl
  | queued b =>
    rw [change, enqueue_of_room b h]
    exact hkept rfl rfl
  | refused b =>
    rw [change, enqueue_of_full b h]
    exact hkept rfl rfl
  | arrived b =>
    rw [change, receive_of_room b h]
    exact hkept rfl rfl
  | lost b =>
    rw [change, receive_of_full b h]
    exact hkept rfl rfl
  | sent b last =>
    obtain ⟨rest, he, -⟩ := h
    obtain ⟨tx, -, -, -, hu⟩ := change_sent he last
    rw [hu]
    exact hkept rfl rfl
  | fetched b =>
    obtain ⟨rest, he⟩ := h
    obtain ⟨rx, -, -, -, hu⟩ := fetch_of_cons he
    rw [change, hu]
    exact hkept rfl rfl

/-- After changes, the register holds the last word that one of them put there. -/
theorem Leads.word {u w : Uart} {cs : List Change} (h : u.Leads cs w) :
    w.word r = (cs.filterMap (Change.sets? r)).getLast?.getD (u.word r) := by
  induction h with
  | nil => rfl
  | @cons u w c rest hc _ ih =>
    rw [ih, word_change hr hc, List.filterMap_cons]
    cases c.sets? r with
    | none => rfl
    | some v => simp only [List.getLast?_cons, Option.getD_some]

/-- A register that belongs to the user is overwritten by a write to its address, and by nothing else. -/
theorem sets_changes (u : Uart) (a : Action) :
    (u.changes a).filterMap (Change.sets? r) = (a.wordTo? (u.base + r.offset)).toList := by
  have hreceiving (b : UInt8) : (u.receiving b).sets? r = none := by
    rcases receiving_eq u b with h | h <;> rw [h] <;> rfl
  have hsending : u.sending.filterMap (Change.sets? r) = [] := by
    rcases sending_eq u with h | ⟨b, last, h⟩ <;> rw [h] <;> rfl
  cases a with
  | write address v =>
    simp only [changes, Action.wordTo?, ← register?_eq_some_iff]
    cases u.register? address with
    | none => rfl
    | some s =>
      cases s with
      | data =>
        cases r with
        | control | baud => cases u.tx.isFull <;> rfl
        | status | data => cases hr
      | control | status | baud =>
        cases r with
        | control | baud => rfl
        | status | data => cases hr
  | read address =>
    simp only [changes]
    split
    · cases u.rx.entries.head? <;> rfl
    · rfl
  | tick g =>
    -- Neither half of a tick puts a word into a register.
    refine List.filterMap_eq_nil_iff.mpr fun c hc => ?_
    rcases mem_changes_tick hc with ⟨b, rfl⟩ | hc
    · exact hreceiving b
    · exact List.filterMap_eq_nil_iff.mp hsending c hc
  | receive b => simp only [changes, List.filterMap_cons, hreceiving, List.filterMap_nil]; rfl
  | transmit => exact hsending
  | init id => rfl
  | deinit id => rfl

/-- The words that a run puts into a register are those that its actions write to the address. -/
theorem sets_history (u : Uart) (actions : List Action) :
    (u.history actions).filterMap (Change.sets? r) = wordsTo (u.base + r.offset) actions := by
  induction actions generalizing u with
  | nil => rfl
  | cons a rest ih =>
    rw [history, List.filterMap_append, sets_changes hr, ih, perform_base, wordsTo, wordsTo, List.filterMap_cons]
    cases a.wordTo? (u.base + r.offset) <;> rfl

/-- After a run, the register holds the latest word that was written to its address, or what it held before if there was
none. -/
theorem word_run (u : Uart) (actions : List Action) :
    (u.run actions).word r = (wordsTo (u.base + r.offset) actions).getLast?.getD (u.word r) := by
  rw [← sets_history hr]
  exact (leads_history u actions).word hr

end

/-! ## Single accesses -/

/-- A read of any register but the data register tells the word in it and leaves the UART as it is. -/
theorem read_word (u : Uart) {r : Register} (hr : r ≠ .data) : u.read (u.base + r.offset) = (.ok (u.word r), u) := by
  rw [read, (register?_eq_some_iff u _ r).mpr rfl]
  cases r with
  | data => exact absurd rfl hr
  | control | status | baud => rfl

/-- Beside the four addresses there is no register. -/
theorem register?_of_not_mem {u : Uart} {address : UInt32}
    (h : address ∉ [u.base, u.base + 4, u.base + 8, u.base + 12]) : u.register? address = none := by
  rw [Option.eq_none_iff_forall_ne_some]
  intro r hr
  rw [register?_eq_some_iff] at hr
  subst hr
  apply h
  cases r with
  | control => exact List.mem_cons.mpr (.inl (UInt32.add_zero _))
  | status => exact List.mem_cons_of_mem _ List.mem_cons_self
  | data => exact List.mem_cons_of_mem _ (List.mem_cons_of_mem _ List.mem_cons_self)
  | baud => exact List.mem_cons_of_mem _ (List.mem_cons_of_mem _ (List.mem_cons_of_mem _ List.mem_cons_self))

/-- A word for the control register reaches the bit of the status register that says that the UART is ready, and nothing else
but the control register itself. -/
theorem write_control (u : Uart) (v : UInt32) :
    ∃ status, u.write u.base v = (.ok (), { u with control := v, status }) ∧
      ∀ i, i ≠ 0 → status.toNat.testBit i = u.status.toNat.testBit i := by
  have hregister : u.register? u.base = some .control :=
    (register?_eq_some_iff u u.base .control).mpr (UInt32.add_zero _).symm
  refine ⟨(u.setControl v).status, ?_, fun i hi => ?_⟩
  · rw [write, hregister]
    rfl
  · have hready : Status.ready.toNat.testBit i = false := by
      rw [Bool.eq_false_iff, ne_eq, show Status.ready.toNat = 1 from rfl, Nat.testBit_one_eq_true_iff_self_eq_zero]
      exact hi
    simp only [setControl]
    cases has v Control.enable with
    | true => exact testBit_setBits_of_unset hready u.status
    | false => exact testBit_clearBits_of_unset hready u.status

/-! ## The registers as a whole -/

/-- What the registers of a UART at a base address answer after the given actions, and what an access to them reaches. -/
structure KeepsRegisters (u : Uart) (base : UInt32) (actions : List Action) : Prop where
  /-- The control register reads as the latest word that was written to it, and the read changes nothing. -/
  control : u.read base = (.ok ((wordsTo base actions).getLast?.getD 0), u)
  /-- So does the baud register. -/
  baud : u.read (base + 12) = (.ok ((wordsTo (base + 12) actions).getLast?.getD 9600), u)
  /-- A read of the status register changes nothing. -/
  status : u.read (base + 4) = (.ok u.status, u)
  /-- A word for the control register changes the lowest bit of the status register at most, and no queue. -/
  written : ∀ v, ∃ status, u.write base v = (.ok (), { u with control := v, status }) ∧
    ∀ i, i ≠ 0 → status.toNat.testBit i = u.status.toNat.testBit i
  /-- An access to any other address is refused under this address, and changes nothing. -/
  refused : ∀ address, address ∉ [base, base + 4, base + 8, base + 12] →
    u.read address = (.error (.unmapped address), u) ∧ ∀ v, u.write address v = (.error (.rejected address), u)

/-- Whatever is done to a new UART, its registers keep what the user wrote, and answer at four addresses only. -/
theorem registers_kept (c : Config) (actions : List Action) :
    ((ofConfig c).run actions).KeepsRegisters c.baseAddress actions := by
  have hbase : ((ofConfig c).run actions).base = c.baseAddress := (leads_history (ofConfig c) actions).base
  have hcontrol := word_run (r := .control) rfl (ofConfig c) actions
  have hbaud := word_run (r := .baud) rfl (ofConfig c) actions
  generalize (ofConfig c).run actions = u at hbase hcontrol hbaud
  rw [show (ofConfig c).base = u.base from hbase.symm] at hcontrol hbaud
  have hzero : u.base + Register.control.offset = u.base := UInt32.add_zero _
  rw [hzero] at hcontrol
  rw [← hbase]
  refine ⟨?_, ?_, read_word u (r := .status) nofun, write_control u, fun address h => ?_⟩
  · have hread := read_word u (r := .control) nofun
    rw [hzero, hcontrol] at hread
    exact hread
  · have hread := read_word u (r := .baud) nofun
    rw [hbaud] at hread
    exact hread
  · have hnone := register?_of_not_mem h
    refine ⟨?_, fun v => ?_⟩
    · rw [read, hnone]
    · rw [write, hnone]

end Peripheral.Uart
