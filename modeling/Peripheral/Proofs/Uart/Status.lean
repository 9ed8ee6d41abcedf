import Peripheral.Proofs.Uart.Run

/-!
# The status register tells the truth

Each operation of a UART sets and clears single bits of the status register. What they amount to is this: as long as nobody
overwrites the register, its bits are those that the queues and the changes since the last initialisation call for, after any
run. `StatusAgrees` is the invariant behind it, and `StatusAgrees.change` the one place where the operations are looked at.
-/

namespace Peripheral.Uart

/-! ## What the register should say -/

/-- The changes since the UART was last initialised, or all of them if it never was. -/
def sinceInit (log : List Change) : List Change := (log.reverse.takeWhile (· ≠ .initialised)).reverse

/-- The word that was put into the control register. -/
def Change.control? : Change → Option UInt32
  | .controlled v => some v
  | _ => none

/-- Since the last initialisation a removal has emptied the transmit queue, and nothing was accepted after the last one
that did. -/
def Completed (log : List Change) : Prop :=
  ∃ before b after, sinceInit log = before ++ .sent b true :: after ∧
    ∀ c ∈ after, (∀ x, c ≠ .queued x) ∧ ∀ x, c ≠ .sent x true

/-- The last word put into the control register since the last initialisation switches the UART on, or there was none. -/
def Readied (log : List Change) : Prop :=
  ∀ v, ((sinceInit log).filterMap Change.control?).getLast? = some v → has v Control.enable

/-- The action overwrites the status register of a UART at the given base address. -/
def Action.MarksStatus (base : UInt32) : Action → Prop
  | .write address _ => address = base + 4
  | _ => False

instance (base : UInt32) : (a : Action) → Decidable (a.MarksStatus base)
  | .write address _ => inferInstanceAs (Decidable (address = base + 4))
  | .read _ | .init _ | .deinit _ | .tick _ | .receive _ | .transmit => isFalse id

/-- With an initialisation the changes since then begin anew, and any other change is one more of them. -/
theorem sinceInit_snoc (log : List Change) (c : Change) :
    sinceInit (log ++ [c]) = if c = .initialised then [] else sinceInit log ++ [c] := by
  by_cases h : c = .initialised <;> simp [sinceInit, h]

/-- One more change: the removal that empties the queue completes the transmission, and only an initialisation or an accepted
byte undoes that. -/
theorem completed_snoc (log : List Change) (c : Change) :
    Completed (log ++ [c]) ↔
      (∃ b, c = .sent b true) ∨ (Completed log ∧ c ≠ .initialised ∧ ∀ b, c ≠ .queued b) := by
  by_cases hc : c = .initialised
  · simp [Completed, sinceInit_snoc, hc]
  · simp only [Completed, sinceInit_snoc, if_neg hc]
    constructor
    · rintro ⟨before, b, after, hs, ha⟩
      rcases List.eq_nil_or_concat after with rfl | ⟨after', d, rfl⟩
      · have hl := (List.append_inj' hs rfl).2
        exact .inl ⟨b, List.singleton_inj.mp hl⟩
      · rw [List.concat_eq_append, ← List.cons_append, ← List.append_assoc] at hs
        obtain ⟨hs', hd⟩ := List.append_inj' hs rfl
        obtain rfl := List.singleton_inj.mp hd
        simp only [List.concat_eq_append, List.mem_append, List.mem_singleton] at ha
        exact .inr ⟨⟨before, b, after', hs', fun x hx => ha x (.inl hx)⟩, hc, (ha c (.inr rfl)).1⟩
    · rintro (⟨b, rfl⟩ | ⟨⟨before, b, after, hs, ha⟩, -, hq⟩)
      · exact ⟨sinceInit log, b, [], rfl, by simp⟩
      · by_cases hd : ∃ x, c = .sent x true
        · obtain ⟨x, rfl⟩ := hd
          exact ⟨sinceInit log, x, [], rfl, by simp⟩
        · refine ⟨before, b, after ++ [c], by rw [hs]; simp, fun x hx => ?_⟩
          rcases List.mem_append.mp hx with hx | hx
          · exact ha x hx
          · obtain rfl := List.mem_singleton.mp hx
            exact ⟨hq, fun y hy => hd ⟨y, hy⟩⟩

/-- One more change: only the control register and an initialisation have a say in whether the UART is ready. -/
theorem readied_snoc (log : List Change) (c : Change) :
    Readied (log ++ [c]) ↔
      c = .initialised ∨ (∃ v, c = .controlled v ∧ has v Control.enable = true) ∨
        (Readied log ∧ c ≠ .initialised ∧ ∀ v, c ≠ .controlled v) := by
  cases c with
  | initialised => simp [Readied, sinceInit_snoc]
  | controlled v => simp [Readied, sinceInit_snoc, Change.control?]
  | _ => simp [Readied, sinceInit_snoc, Change.control?]

/-! ## The register as four answers -/

/-- The word that says whether the UART is ready, has nothing to send, has received something, and has finished sending. -/
def Status.word (ready txEmpty rxFull txComplete : Bool) : UInt32 :=
  (if ready then Status.ready else 0) ||| (if txEmpty then Status.txEmpty else 0) |||
    (if rxFull then Status.rxFull else 0) ||| (if txComplete then Status.txComplete else 0)

section Word

variable (r e f d : Bool)

theorem has_ready_word : has (Status.word r e f d) Status.ready = r := by
  revert r e f d
  decide

theorem has_txEmpty_word : has (Status.word r e f d) Status.txEmpty = e := by
  revert r e f d
  decide

theorem has_rxFull_word : has (Status.word r e f d) Status.rxFull = f := by
  revert r e f d
  decide

theorem has_txComplete_word : has (Status.word r e f d) Status.txComplete = d := by
  revert r e f d
  decide

theorem word_lt : (Status.word r e f d).toNat < 16 := by
  revert r e f d
  decide

theorem setBits_ready_word : setBits (Status.word r e f d) Status.ready = Status.word true e f d := by
  revert r e f d
  decide

theorem clearBits_ready_word : clearBits (Status.word r e f d) Status.ready = Status.word false e f d := by
  revert r e f d
  decide

theorem setBits_rxFull_word : setBits (Status.word r e f d) Status.rxFull = Status.word r e true d := by
  revert r e f d
  decide

theorem clearBits_rxFull_word : clearBits (Status.word r e f d) Status.rxFull = Status.word r e false d := by
  revert r e f d
  decide

/-- Setting the bits of the transmitter says that there is nothing to send, and that the sending has finished. -/
theorem setBits_tx_word :
    setBits (Status.word r e f d) (setBits Status.txEmpty Status.txComplete) = Status.word r true f true := by
  revert r e f d
  decide

/-- Clearing the bits of the transmitter says that there is something to send, and that the sending has not finished. -/
theorem clearBits_tx_word :
    clearBits (Status.word r e f d) (setBits Status.txEmpty Status.txComplete) = Status.word r false f false := by
  revert r e f d
  decide

end Word

/-- After an initialisation the UART is ready, and the status says of the queues what they are. -/
theorem initialStatus_eq (u : Uart) :
    u.initialStatus = Status.word true u.tx.entries.isEmpty (!u.rx.entries.isEmpty) false := by
  have key : ∀ e f : Bool,
      (if f then (if e then setBits Status.ready Status.txEmpty
          else clearBits (setBits Status.ready Status.txEmpty) Status.txEmpty)
        else setBits (if e then setBits Status.ready Status.txEmpty
          else clearBits (setBits Status.ready Status.txEmpty) Status.txEmpty) Status.rxFull) =
        Status.word true e (!f) false := by decide
  exact key _ _

/-! ## The invariant -/

/-- The status register says of the queues what they are, and of the past what the log of it tells. -/
def StatusAgrees (u : Uart) (log : List Change) : Prop :=
  ∃ ready complete : Bool,
    u.status = Status.word ready u.tx.entries.isEmpty (!u.rx.entries.isEmpty) complete ∧
      (ready = true ↔ Readied log) ∧ (complete = true ↔ Completed log)

/-- The status of a new UART agrees with it. -/
theorem statusAgrees_ofConfig (c : Config) : StatusAgrees (ofConfig c) [] :=
  ⟨true, false, show setBits Status.ready Status.txEmpty = Status.word true true false false by decide,
    by simp [Readied, sinceInit], by simp [Completed, sinceInit]⟩

/-- The status of a UART that was just initialised agrees with it. -/
theorem statusAgrees_init (u : Uart) : StatusAgrees u.init [] :=
  ⟨true, false, initialStatus_eq u, by simp [Readied, sinceInit], by simp [Completed, sinceInit]⟩

/-- No change but that of the register itself brings it out of agreement. -/
theorem StatusAgrees.change {u : Uart} {log : List Change} {c : Change} (h : StatusAgrees u log) (hf : u.Fits c)
    (hm : ∀ v, c ≠ .marked v) : StatusAgrees (u.change c) (log ++ [c]) := by
  obtain ⟨r, d, hs, hr, hd⟩ := h
  cases c with
  | initialised =>
    refine ⟨true, false, initialStatus_eq u, ?_, ?_⟩
    · simp [readied_snoc]
    · simp [completed_snoc]
  | controlled v =>
    refine ⟨has v Control.enable, d, ?_, by simp [readied_snoc], by simp [completed_snoc, hd]⟩
    simp only [Uart.change, setControl, hs]
    cases has v Control.enable with
    | true => exact setBits_ready_word ..
    | false => exact clearBits_ready_word ..
  | marked v => exact absurd rfl (hm v)
  | clocked v => exact ⟨r, d, hs, by simp [readied_snoc, hr], by simp [completed_snoc, hd]⟩
  | queued b =>
    refine ⟨r, false, ?_, by simp [readied_snoc, hr], by simp [completed_snoc]⟩
    have he := (Fifo.push_of_lt u.tx b hf).2.1
    simp only [Uart.change, enqueue_of_room b hf, he, hs, clearBits_tx_word]
    rw [show (u.tx.entries ++ [b]).isEmpty = false by simp]
  | refused b =>
    refine ⟨r, d, ?_, by simp [readied_snoc, hr], by simp [completed_snoc, hd]⟩
    have he := (Fifo.push_of_full u.tx b hf).2.1
    simp only [Uart.change, enqueue_of_full b hf, he, hs]
  | sent b last =>
    obtain ⟨rest, ht, rfl⟩ := hf
    obtain ⟨tx, he, -, -, hu⟩ := change_sent ht rest.isEmpty
    rw [hu]
    cases rest with
    | nil =>
      refine ⟨r, true, ?_, by simp [readied_snoc, hr], by simp [completed_snoc]⟩
      simp only [he, hs, List.isEmpty_nil, if_true, setBits_tx_word]
    | cons x rest =>
      refine ⟨r, d, ?_, by simp [readied_snoc, hr], by simp [completed_snoc, hd]⟩
      simp only [he, hs, ht]
      rfl
  | arrived b =>
    refine ⟨r, d, ?_, by simp [readied_snoc, hr], by simp [completed_snoc, hd]⟩
    have he := (Fifo.push_of_lt u.rx b hf).2.1
    simp only [Uart.change, receive_of_room b hf, he, hs, setBits_rxFull_word]
    rw [show (u.rx.entries ++ [b]).isEmpty = false by simp, Bool.not_false]
  | lost b =>
    refine ⟨r, d, ?_, by simp [readied_snoc, hr], by simp [completed_snoc, hd]⟩
    have he := (Fifo.push_of_full u.rx b hf).2.1
    simp only [Uart.change, receive_of_full b hf, he, hs]
  | fetched b =>
    obtain ⟨rest, hx⟩ := hf
    obtain ⟨rx, he, -, -, hfe⟩ := fetch_of_cons hx
    refine ⟨r, d, ?_, by simp [readied_snoc, hr], by simp [completed_snoc, hd]⟩
    simp only [Uart.change, hfe, he, hs, hx]
    cases rest with
    | nil => simp [clearBits_rxFull_word]
    | cons _ _ => rfl

/-- The status agrees after changes that do not overwrite it. -/
theorem StatusAgrees.leads {u w : Uart} {log cs : List Change} (h : StatusAgrees u log) (hl : u.Leads cs w)
    (hm : ∀ c ∈ cs, ∀ v, c ≠ .marked v) : StatusAgrees w (log ++ cs) := by
  induction hl generalizing log with
  | nil => rwa [List.append_nil]
  | @cons u w c rest hc _ ih =>
    have hn := ih (h.change hc (hm c List.mem_cons_self)) (fun d hd => hm d (List.mem_cons_of_mem c hd))
    rwa [List.append_assoc] at hn

/-- Only an action that overwrites the status register leaves a trace of that. -/
theorem marksStatus_of_mem_changes {u : Uart} {a : Action} {v : UInt32} (h : .marked v ∈ u.changes a) :
    a.MarksStatus u.base := by
  have hr (b : UInt8) : .marked v ≠ u.receiving b := by
    rcases receiving_eq u b with h | h <;> simp [h]
  have hs : .marked v ∉ u.sending := by
    rcases sending_eq u with h | ⟨b, last, h⟩ <;> simp [h]
  cases a with
  | write address x =>
    simp only [changes] at h
    split at h <;> simp only [List.mem_cons, List.not_mem_nil, or_false, reduceCtorEq] at h
    · rename_i hr
      exact (register?_eq_some_iff u address .status).mp hr
    · split at h <;> cases h
  | read address =>
    simp only [changes] at h
    split at h <;> simp at h
  | tick g =>
    rcases mem_changes_tick h with ⟨b, h⟩ | h
    · exact absurd h (hr b)
    · exact absurd h hs
  | receive b => exact absurd (List.mem_singleton.mp h) (hr b)
  | transmit => exact absurd h hs
  | init id => simp [changes] at h
  | deinit id => simp [changes] at h

/-- If a run overwrites the status, one of its actions does. -/
theorem marksStatus_of_mem_history {u : Uart} {actions : List Action} {v : UInt32} (h : .marked v ∈ u.history actions) :
    ∃ a ∈ actions, a.MarksStatus u.base := by
  induction actions generalizing u with
  | nil => cases h
  | cons a rest ih =>
    rcases List.mem_append.mp h with h | h
    · exact ⟨a, List.mem_cons_self, marksStatus_of_mem_changes h⟩
    · obtain ⟨b, hb, hm⟩ := ih h
      rw [perform_base] at hm
      exact ⟨b, List.mem_cons_of_mem a hb, hm⟩

/-- A run that never overwrites the status register keeps it in agreement. -/
theorem statusAgrees_run {u : Uart} {actions : List Action} (h : StatusAgrees u [])
    (hm : ∀ a ∈ actions, ¬a.MarksStatus u.base) : StatusAgrees (u.run actions) (u.history actions) := by
  refine h.leads (leads_history u actions) fun c hc v hv => ?_
  subst hv
  obtain ⟨a, ha, hs⟩ := marksStatus_of_mem_history hc
  exact hm a ha hs

/-- The status register tells the truth after every run of a new UART, or of any UART that was just initialised, in which
nobody overwrites it: what it says of the queues is what they are, the transmission is complete exactly when the last removal
that emptied the queue was not followed by an accepted byte, the UART is ready exactly as the last word in the control
register wants it, all of this since the last initialisation; and no other bit is set. -/
theorem status_bits_run {u : Uart} (hu : (∃ c, u = ofConfig c) ∨ ∃ v id, u = perform v (.init id))
    (actions : List Action) (hm : ∀ a ∈ actions, ¬a.MarksStatus u.base) :
    (has (u.run actions).status Status.rxFull = true ↔ (u.run actions).rx.entries ≠ []) ∧
      (has (u.run actions).status Status.txEmpty = true ↔ (u.run actions).tx.entries = []) ∧
      (has (u.run actions).status Status.txComplete = true ↔ Completed (u.history actions)) ∧
      (has (u.run actions).status Status.ready = true ↔ Readied (u.history actions)) ∧
      ∀ i, 3 < i → (u.run actions).status.toNat.testBit i = false := by
  have h₀ : StatusAgrees u [] := by
    rcases hu with ⟨c, rfl⟩ | ⟨v, id, rfl⟩
    · exact statusAgrees_ofConfig c
    · exact statusAgrees_init v
  obtain ⟨r, d, hs, hr, hd⟩ := statusAgrees_run h₀ hm
  rw [hs]
  refine ⟨?_, ?_, ?_, ?_, fun i hi => ?_⟩
  · rw [has_rxFull_word, Bool.not_eq_true', List.isEmpty_eq_false_iff]
  · rw [has_txEmpty_word, List.isEmpty_iff]
  · rw [has_txComplete_word, hd]
  · rw [has_ready_word, hr]
  · have hpow : 2 ^ 4 ≤ 2 ^ i := Nat.pow_le_pow_right (by omega) hi
    exact Nat.testBit_lt_two_pow (Nat.lt_of_lt_of_le (word_lt ..) hpow)

/-- Say, after a UART all of whose status bits were set, with a byte in its queue, was initialised and used. -/
theorem status_bits_run_overwritten :
    let u := perform { ofConfig default with status := 0xFFFFFFFF, tx := (Fifo.push (.empty 2) 0x41).2 } (.init 9)
    let actions : List Action := [.transmit, .write 0x40000000 2, .receive 0x42, .deinit 3]
    (∀ a ∈ actions, ¬a.MarksStatus u.base) ∧ has (u.run actions).status Status.rxFull = true ∧
      has (u.run actions).status Status.txComplete = true ∧ ¬has (u.run actions).status Status.ready = true := by
  intro u actions
  have hm : ∀ a ∈ actions, ¬a.MarksStatus u.base := by decide +zetaReduce
  obtain ⟨hr, -, hc, hy, -⟩ := status_bits_run (.inr ⟨_, 9, rfl⟩) actions hm
  refine ⟨hm, hr.mpr ?_, hc.mpr ⟨[], 0x41, [.controlled 2, .arrived 0x42], ?_, by simp⟩, fun h => ?_⟩
  · decide +zetaReduce
  · decide +zetaReduce
  · have hv := hy.mp h 2 (by decide +zetaReduce)
    cases hv

end Peripheral.Uart
