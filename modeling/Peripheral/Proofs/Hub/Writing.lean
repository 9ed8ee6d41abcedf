import Peripheral.Proofs.Hub.Exchange

/-!
# Writing frames

Who writes which byte of a client's pipe, in every run of a hub. Every byte in a pipe was written by a task (`signed`). What an
event does to the frames that tasks are writing is said once (`Stroke`, `stroke_after?`): it goes on with the frame of one task
at most, and only the first in line for a pipe that is not broken writes anything. Who goes on writing stays first in line
(`first_after?`), and a broken pipe stays broken (`broken_after?`).
-/

namespace Peripheral

/-! ## Signed bytes -/

/-- The bytes that were written to a peer, each with the task that wrote it. -/
def Mark.signed (p : Peer) : Mark → List (Nat × UInt8)
  | wrote t q bytes => if q = p then bytes.map (t, ·) else []
  | _ => []

/-- All bytes that were written to a peer, each with the task that wrote it. -/
def signed (p : Peer) (log : List Mark) : List (Nat × UInt8) := log.flatMap (Mark.signed p)

/-- The bytes of one task. -/
def ofTask (t : Nat) (bytes : List (Nat × UInt8)) : Bytes := bytes.filterMap fun b => if b.1 = t then some b.2 else none

theorem signed_append (p : Peer) (log more : List Mark) : signed p (log ++ more) = signed p log ++ signed p more :=
  List.flatMap_append

/-- What is noted as written to a peer is signed by its task. -/
theorem signed_wrote (t : Nat) (p : Peer) (bytes : Bytes) : signed p [.wrote t p bytes] = bytes.map (t, ·) := by
  simp only [signed, List.flatMap_cons, List.flatMap_nil, List.append_nil, Mark.signed, if_true]

theorem signed_wrote_of_ne {p q : Peer} (t : Nat) (bytes : Bytes) (hq : q ≠ p) : signed p [.wrote t q bytes] = [] := by
  simp only [signed, List.flatMap_cons, List.flatMap_nil, List.append_nil, Mark.signed, if_neg hq]

theorem ofTask_append (t : Nat) (a b : List (Nat × UInt8)) : ofTask t (a ++ b) = ofTask t a ++ ofTask t b :=
  List.filterMap_append

theorem ofTask_map_self (t : Nat) (bytes : Bytes) : ofTask t (bytes.map (t, ·)) = bytes := by
  simp only [ofTask, List.filterMap_map, Function.comp_def, if_true, List.filterMap_some]

theorem ofTask_map_of_ne {s t : Nat} (bytes : Bytes) (hne : s ≠ t) : ofTask t (bytes.map (s, ·)) = [] := by
  refine List.filterMap_eq_nil_iff.2 ?_
  intro b hb
  obtain ⟨_, _, rfl⟩ := List.mem_map.1 hb
  exact if_neg hne

/-- The signed bytes without the signatures are the bytes that were written. -/
theorem map_snd_signed (p : Peer) (log : List Mark) : (signed p log).map Prod.snd = writtenTo p log := by
  rw [signed, writtenTo, List.map_flatMap]
  congr 1
  funext m
  cases m with
  | wrote t q bytes =>
    simp only [Mark.signed, Mark.bytesTo]
    split
    · rw [List.map_map]
      exact List.map_id _
    · rfl
  | _ => rfl

/-- The bytes of a task among the signed ones are those that it is noted to have written. -/
theorem ofTask_signed (t : Nat) (p : Peer) (log : List Mark) : ofTask t (signed p log) = written t p log := by
  induction log with
  | nil => rfl
  | cons m log ih =>
    rw [← List.singleton_append, signed_append, ofTask_append, written_append, ih]
    congr 1
    cases m with
    | wrote s q bytes =>
      by_cases hq : q = p
      · subst hq
        rw [signed_wrote]
        by_cases hs : s = t
        · subst hs
          rw [ofTask_map_self, written_wrote_self]
        · rw [ofTask_map_of_ne _ hs]
          simp only [written, List.flatMap_cons, List.flatMap_nil, Mark.bytes, hs, false_and, if_false, List.append_nil]
      · rw [signed_wrote_of_ne _ _ hq]
        simp only [written, List.flatMap_cons, List.flatMap_nil, Mark.bytes, hq, and_false, if_false, List.append_nil]
        rfl
    | _ => rfl

/-- Frames one after the other, each with the task that wrote it. -/
def sheet (frames : List (Nat × Frame)) : List (Nat × UInt8) := frames.flatMap fun x => x.2.encode.map (x.1, ·)

theorem sheet_concat (frames : List (Nat × Frame)) (t : Nat) (f : Frame) :
    sheet (frames ++ [(t, f)]) = sheet frames ++ f.encode.map (t, ·) := by
  simp only [sheet, List.flatMap_append, List.flatMap_cons, List.flatMap_nil, List.append_nil]

/-- A sheet of frames is as long as so many frames. -/
theorem length_sheet (frames : List (Nat × Frame)) : (sheet frames).length = Frame.size * frames.length := by
  induction frames with
  | nil => rfl
  | cons x frames ih =>
    rw [sheet, List.flatMap_cons, List.length_append, List.length_map, Frame.length_encode, ← sheet, ih, List.length_cons,
      Nat.mul_succ, Nat.add_comm]

/-- The frame with a given number, counted from zero. -/
theorem sheet_split {frames : List (Nat × Frame)} {j t : Nat} {f : Frame} (hj : frames[j]? = some (t, f)) :
    sheet frames = sheet (frames.take j) ++ (f.encode.map (t, ·) ++ sheet (frames.drop (j + 1))) := by
  obtain ⟨hlt, hget⟩ := List.getElem?_eq_some_iff.1 hj
  have hsplit : sheet frames = sheet (frames.take j ++ ((t, f) :: frames.drop (j + 1))) := by
    rw [← hget, List.getElem_cons_drop, List.take_append_drop]
  rw [hsplit, sheet, List.flatMap_append, List.flatMap_cons]
  rfl

/-! ## What is being written -/

/-- The rest of the frame that is being written to a peer. -/
def Work.rest? (p : Peer) : Work → Option Bytes
  | sending q rest _ => if q = p then some rest else none
  | _ => none

/-- The rest of the frame that a task is writing to a peer. -/
def Task.rest? (p : Peer) (a : Task) : Option Bytes := a.courier?.bind (·.work.rest? p)

/-- What is being written to a peer has a rest. -/
theorem Work.rest?_self (p : Peer) (rest : Bytes) (d : Nat) : (sending p rest d).rest? p = some rest :=
  if_pos rfl

/-- What is being written to another peer has no rest for this one. -/
theorem Work.rest?_of_ne {p q : Peer} (rest : Bytes) (d : Nat) (hq : q ≠ p) : (sending q rest d).rest? p = none :=
  if_neg hq

/-- Work has a rest for a peer exactly if it is the sending of a frame to it. -/
theorem Work.rest?_eq_some_iff {p : Peer} {w : Work} {rest : Bytes} :
    w.rest? p = some rest ↔ ∃ d, w = .sending p rest d := by
  constructor
  · intro h
    cases w with
    | sending q more d =>
      obtain ⟨rfl, hrest⟩ := Option.ite_none_right_eq_some.1 h
      exact ⟨d, by rw [Option.some.inj hrest]⟩
    | idle | shutting => nomatch h
  · rintro ⟨d, rfl⟩
    exact rest?_self p rest d

/-- Nobody acts for a handler that receives its request. -/
theorem courier?_received (p : Peer) (run : Nat) (got : Bytes) :
    (Task.handler ⟨p, run, .received got⟩).courier? = none := by
  unfold Handler.Stage.received
  split
  · rfl
  · rfl

namespace Hub

variable {δ : Type}

/-- The rest of the frame that a task is writing to a peer, by the number of the task. -/
def rest? (h : Hub δ) (p : Peer) (t : Nat) : Option Bytes := h.tasks[t]?.bind (Task.rest? p)

/-- What an event does to the frame that task `t` is writing to a peer: the rest of it before and afterwards, and the bytes
written. -/
inductive Stroke (h : Hub δ) (p : Peer) (t : Nat) : Option Bytes → Option Bytes → Bytes → Prop
  | none {r : Option Bytes} : Stroke h p t r r []
  | start {f : Frame} : Stroke h p t none (some f.encode) []
  | some {rest : Bytes} {n : Nat} {l : Link} : h.links[p]? = some l → l.line.head? = some t →
      l.outbound.isBroken = false → 0 < n → n < rest.length → Stroke h p t (some rest) (some (rest.drop n)) (rest.take n)
  | last {rest : Bytes} {l : Link} : h.links[p]? = some l → l.line.head? = some t → l.outbound.isBroken = false →
      Stroke h p t (some rest) none rest
  | stop {rest : Bytes} : Stroke h p t (some rest) none []

/-- Whether, between one hub and the next, a task gave up a frame to a peer of which a part, but not all, is written, although
the peer could still be written to. -/
def breaksOff (h h' : Hub δ) (p : Peer) : Bool :=
  (List.range h.tasks.length).any (fun t => (h.rest? p t).any (·.length < Frame.size) && (h'.rest? p t).isNone) &&
    h.links[p]?.any (fun l => !l.outbound.isBroken) && h'.stream p == h.stream p

/-- To give up a frame in the middle, while the peer could be written to, is to break it off. -/
theorem breaksOff_of {h h' : Hub δ} {p : Peer} {t : Nat} {rest : Bytes} {l : Link} (ht : h.rest? p t = some rest)
    (hlt : rest.length < Frame.size) (ht' : h'.rest? p t = none) (hl : h.links[p]? = some l)
    (hb : l.outbound.isBroken = false) (hs : h'.stream p = h.stream p) : h.breaksOff h' p = true := by
  obtain ⟨a, ha, -⟩ := Option.bind_eq_some_iff.1 ht
  have hrange : t ∈ List.range h.tasks.length := List.mem_range.2 (List.getElem?_eq_some_iff.1 ha).1
  have hany : ((h.rest? p t).any (·.length < Frame.size) && (h'.rest? p t).isNone) = true := by
    rw [ht, ht']
    simpa using hlt
  unfold breaksOff
  rw [List.any_eq_true.2 ⟨t, hrange, hany⟩, hl, hs, Option.any_some, hb, beq_self_eq_true]
  rfl

/-- What a step of a courier does to the frame that it writes. -/
theorem CourierStep.stroke {h h' : Hub δ} {t : Nat} {c c' : Courier} (p : Peer) (hs : CourierStep h t c c' h') :
    ∃ bytes, h.Stroke p t (c.work.rest? p) (c'.work.rest? p) bytes ∧
      signed p (h.delivery t c h') = bytes.map (t, ·) := by
  have aside : ∀ {h' : Hub δ}, c.work.addressee? ≠ some p → c'.work.rest? p = c.work.rest? p →
      ∃ bytes, h.Stroke p t (c.work.rest? p) (c'.work.rest? p) bytes ∧
        signed p (h.delivery t c h') = bytes.map (t, ·) := by
    intro h' hw hsame
    refine ⟨[], hsame ▸ .none, ?_⟩
    unfold delivery
    split
    · rename_i q hq
      exact signed_wrote_of_ne t _ fun heq => hw (heq ▸ hq)
    · rfl
  cases hs with
  | find hw | miss hw | skip hw => exact aside (by rw [hw]; nofun) rfl
  | dismiss hw | approach hw => exact aside (by rw [hw]; nofun) (by rw [hw]; rfl)
  | shut hw | lapse hw => exact aside (by rw [hw]; nofun) (by rw [hw]; rfl)
  | @queue q f jobs hw =>
    by_cases hq : q = p
    · subst hq
      refine ⟨[], ?_, ?_⟩
      · rw [hw, Work.rest?_self]
        exact .start
      · rw [delivery_of_none (by rw [hw]; rfl)]
        rfl
    · exact aside (by rw [hw]; nofun) (by rw [hw, Work.rest?_of_ne _ _ hq]; rfl)
  | @put q rest d n l hw hl hhead hb h0 hn =>
    by_cases hq : q = p
    · subst hq
      have hput := stream_updateLink_put (f := (·.put (rest.take n))) hl rfl q
      rw [if_pos rfl] at hput
      refine ⟨rest.take n, ?_, ?_⟩
      · rw [hw, Work.rest?_self, Work.rest?_self]
        exact .some hl hhead hb h0 hn
      · rw [delivery_of_sending hw hput, signed_wrote]
    · exact aside (by rw [hw]; exact fun h => hq (Option.some.inj h))
        (by rw [hw, Work.rest?_of_ne _ _ hq, Work.rest?_of_ne _ _ hq])
  | @complete q rest d l hw hl hhead hb =>
    by_cases hq : q = p
    · subst hq
      have hput := stream_updateLink_put (f := fun l => (l.put rest).leave t) hl rfl q
      rw [if_pos rfl] at hput
      refine ⟨rest, ?_, ?_⟩
      · rw [hw, Work.rest?_self]
        exact .last hl hhead hb
      · rw [delivery_of_sending hw hput, signed_wrote]
    · exact aside (by rw [hw]; exact fun h => hq (Option.some.inj h)) (by rw [hw, Work.rest?_of_ne _ _ hq]; rfl)
  | @snap q rest d l hw | @late q rest d hw =>
    by_cases hq : q = p
    · subst hq
      have hleave := stream_updateLink (h := h) (p := q) (f := (·.leave t)) (fun _ => rfl) q
      refine ⟨[], ?_, ?_⟩
      · rw [hw, Work.rest?_self]
        exact .stop
      · rw [delivery_of_unchanged hw hleave, signed_wrote]
    · exact aside (by rw [hw]; exact fun h => hq (Option.some.inj h)) (by rw [hw, Work.rest?_of_ne _ _ hq]; rfl)

/-- A new task that writes nothing leaves the rests as they are. -/
theorem rest?_spawn {h : Hub δ} {p : Peer} {a : Task} (ha : a.rest? p = none) (s : Nat) :
    (h.spawn a).rest? p s = h.rest? p s := by
  unfold rest? spawn
  rcases Nat.lt_trichotomy s h.tasks.length with hs | rfl | hs
  · rw [List.getElem?_append_left hs]
  · rw [List.getElem?_concat_length, List.getElem?_eq_none (Nat.le_refl _)]
    exact ha
  · rw [List.getElem?_eq_none (by rw [List.length_append]; exact hs), List.getElem?_eq_none (Nat.le_of_lt hs)]

/-- An errand that is cut short writes nothing any more. -/
theorem rest?_cutShort_self {h : Hub δ} {t : Nat} {c : Courier} (p : Peer) (hc : h.tasks[t]? = some (.errand c)) :
    (h.cutShort t).rest? p t = none := by
  have hset := tasks_setTask_self (h := { h with links := h.links.map fun (l : Link) => l.leave t }) (.errand c.stop) hc
  unfold cutShort rest?
  simp only [hc]
  rw [hset]
  rfl

/-- To break one task off leaves the rests of the others as they are. -/
theorem rest?_cutShort_of_ne {h : Hub δ} {s t : Nat} (p : Peer) (hne : s ≠ t) :
    (h.cutShort t).rest? p s = h.rest? p s := by
  unfold cutShort rest?
  split
  · rw [tasks_setTask_of_ne _ _ hne.symm]
  · rfl

variable [Service δ]

/-- What a step of a task does to the frame that it writes. -/
theorem TaskStep.stroke {h h' : Hub δ} {t : Nat} {a b : Task} (p : Peer) (hs : TaskStep h t a b h') :
    ∃ bytes, h.Stroke p t (a.rest? p) (b.rest? p) bytes ∧ signed p (h.shown t a b h') = bytes.map (t, ·) := by
  cases hs with
  | read =>
    refine ⟨[], ?_, by rw [shown_read]; rfl⟩
    unfold Task.rest?
    rw [courier?_received]
    exact .none
  | convey hc => exact hc.stroke p
  | errand hc => exact hc.stroke p
  | finish hw =>
    refine ⟨[], ?_, by rw [shown_convey, delivery_of_none (by rw [hw]; rfl)]; rfl⟩
    unfold Task.rest?
    rw [Task.courier?, Option.bind_some, hw]
    exact .none
  | curtail | lose | heed | execute | crash => exact ⟨[], .none, rfl⟩

/-- Every event goes on with the frame of one task at most. -/
theorem stroke_after? {h h' : Hub δ} {e : Event} (p : Peer) (he : h.after? e = some h') :
    ∃ t bytes, h.Stroke p t (h.rest? p t) (h'.rest? p t) bytes ∧ signed p (h.marks e h') = bytes.map (t, ·) ∧
      ∀ s, s ≠ t → h'.rest? p s = h.rest? p s := by
  have aside : ∀ {h' : Hub δ}, (∀ s, h'.rest? p s = h.rest? p s) →
      ∃ t bytes, h.Stroke p t (h.rest? p t) (h'.rest? p t) bytes ∧ signed p [] = bytes.map (t, ·) ∧
        ∀ s, s ≠ t → h'.rest? p s = h.rest? p s :=
    fun hsame => ⟨0, [], hsame 0 ▸ .none, rfl, fun s _ => hsame s⟩
  cases eventStep_of_after? he with
  | @move m a b h₁ ha hs =>
    obtain ⟨bytes, hstroke, hsigned⟩ := hs.stroke p
    refine ⟨m.task, bytes, ?_, by rw [marks_move ha hs, hsigned], ?_⟩
    · rw [rest?, rest?, ha, tasks_setTask_self b (hs.tasks_eq ▸ ha)]
      exact hstroke
    · intro s hne
      rw [rest?, rest?, tasks_setTask_of_ne _ _ hne.symm, hs.tasks_eq]
  | serve | broadcast | closeAll | sendTo | close => exact aside (rest?_spawn rfl)
  | @cutShort t =>
    refine ⟨t, [], ?_, rfl, fun s hne => rest?_cutShort_of_ne p hne⟩
    rcases tasks_cutShort h t t with hsame | ⟨c, hc, _⟩
    · rw [rest?, rest?, hsame]
      exact .none
    · rw [rest?_cutShort_self p hc]
      cases h.rest? p t with
      | none => exact .none
      | some rest => exact .stop
  | tick => exact ⟨0, [], .none, rfl, fun _ _ => rfl⟩
  | attach | halt | client | wait => exact aside fun _ => rfl

omit [Service δ] in
/-- A courier that goes on writing a frame stays first in line. -/
theorem CourierStep.first {h h' : Hub δ} {p : Peer} {t : Nat} {c c' : Courier} {l l' : Link}
    (hs : CourierStep h t c c' h') (hl : h.links[p]? = some l) (hl' : h'.links[p]? = some l')
    (hhead : l.line.head? = some t) (hr : c.work.rest? p ≠ none) (hr' : c'.work.rest? p ≠ none) :
    l'.line.head? = some t := by
  obtain ⟨rest, hrest⟩ := Option.ne_none_iff_exists'.1 hr
  obtain ⟨d, hw⟩ := Work.rest?_eq_some_iff.1 hrest
  rcases hs.of_sending hw hl with ⟨n, _, _, _, rfl, rfl⟩ | ⟨_, rfl, rfl⟩ | ⟨e, _, rfl, rfl⟩
  · rw [links_updateLink_self _ hl] at hl'
    cases hl'
    exact hhead
  · exact absurd rfl hr'
  · exact absurd rfl hr'

/-- A task that is writing to a peer and is first in line stays first while it goes on. -/
theorem TaskStep.first {h h' : Hub δ} {p : Peer} {t : Nat} {a b : Task} {l l' : Link} (hs : TaskStep h t a b h')
    (hl : h.links[p]? = some l) (hl' : h'.links[p]? = some l') (hhead : l.line.head? = some t) (hr : a.rest? p ≠ none)
    (hr' : b.rest? p ≠ none) : l'.line.head? = some t := by
  cases hs with
  | convey hc => exact hc.first hl hl' hhead hr hr'
  | errand hc => exact hc.first hl hl' hhead hr hr'
  | finish => exact absurd rfl hr'
  | read | curtail | lose | heed | execute | crash => exact absurd rfl hr

/-- A task that goes on writing a frame stays first in line, whatever happens. -/
theorem first_after? {h h' : Hub δ} {e : Event} {p : Peer} {t : Nat} {l : Link} (he : h.after? e = some h')
    (hl : h.links[p]? = some l) (hhead : l.line.head? = some t) (hr : h.rest? p t ≠ none) (hr' : h'.rest? p t ≠ none) :
    ∃ l', h'.links[p]? = some l' ∧ l'.line.head? = some t := by
  obtain ⟨l', hl', hstep⟩ := link_after? he hl
  refine ⟨l', hl', ?_⟩
  obtain ⟨a, ha⟩ : ∃ a, h.tasks[t]? = some a :=
    Option.ne_none_iff_exists'.1 fun hnone => hr (by rw [rest?, hnone]; rfl)
  cases hstep with
  | same | read => exact hhead
  | @used act => cases act <;> exact hhead
  | @left s hs =>
    by_cases hst : s = t
    · subst hst
      cases a with
      | handler x => exact absurd (conducts_of_handler ha) (hs x.peer)
      | errand c =>
        cases eventStep_of_after? he
        exact absurd (rest?_cutShort_self p ha) hr'
    · exact Link.Touched.head_erase hhead (Ne.symm hst)
  | @touched m l' htouch =>
    by_cases hmt : m.task = t
    · subst hmt
      cases eventStep_of_after? he with
      | move ha' hs =>
        rw [rest?, ha'] at hr
        rw [rest?, tasks_setTask_self _ (hs.tasks_eq ▸ ha')] at hr'
        exact hs.first hl hl' hhead hr hr'
    · exact htouch.head_eq hhead (Ne.symm hmt)

/-- A pipe that is broken stays so. -/
theorem broken_after? {h h' : Hub δ} {e : Event} {p : Peer} {l : Link} (he : h.after? e = some h')
    (hl : h.links[p]? = some l) (hb : l.outbound.isBroken = true) :
    ∃ l', h'.links[p]? = some l' ∧ l'.outbound.isBroken = true := by
  obtain ⟨l', hl', hstep⟩ := link_after? he hl
  refine ⟨l', hl', ?_⟩
  have hfinish : l.outbound.finish.isBroken = true := by
    simp only [Pipe.isBroken, Pipe.finish, Bool.or_eq_true, bne_iff_ne] at hb ⊢
    rcases hb with hb | hb
    · exact Or.inl hb
    · exact Or.inr (by rw [if_neg hb]; exact hb)
  cases hstep with
  | same | read | left => exact hb
  | @used act =>
    cases act with
    | hangUp => rfl
    | _ => exact hb
  | touched htouch =>
    cases htouch with
    | shut => exact hfinish
    | _ => exact hb

end Hub

end Peripheral
