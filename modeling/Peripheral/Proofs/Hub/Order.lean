import Peripheral.Proofs.Hub.Run

/-!
# Order in a hub

In every run the connected peers are different links, every peer has at most one handler, and what was noted of an exchange
or of a writer was noted of a task that exists (`Orderly`, `orderly_run`). From that follows what the handler of a peer can
rely on while anything else happens (`Spares`): nobody else reads from the peer, nobody else writes to it while the handler
is first in line, and a peer that was taken out does not come back.
-/

namespace Peripheral

/-- The peer whose exchange a mark is about. -/
def Mark.exchange? : Mark → Option Peer
  | executed p _ _ => some p
  | refused p _ => some p
  | _ => none

/-- What stays as it was for task `t` when anybody else has used a link. -/
structure Link.Kept (t : Nat) (l l' : Link) : Prop where
  position_eq : l'.inbound.position = l.inbound.position
  received : l.inbound.stream <+: l'.inbound.stream
  sent : l.outbound.stream <+: l'.outbound.stream
  head_eq : l.line.head? = some t → l'.line.head? = some t
  stream_eq : l.line.head? = some t → l'.outbound.stream = l.outbound.stream

namespace Link

theorem Kept.refl (t : Nat) (l : Link) : l.Kept t l where
  position_eq := rfl
  received := List.prefix_refl _
  sent := List.prefix_refl _
  head_eq h := h
  stream_eq _ := rfl

/-- A task that is not first in line changes nothing for the one that is. -/
theorem Touched.kept {s t : Nat} {l l' : Link} (h : l.Touched s l') (hne : s ≠ t) : l.Kept t l' where
  position_eq := by rw [h.inbound_eq]
  received := h.inbound_eq ▸ List.prefix_refl _
  sent := h.stream_isPrefix
  head_eq hs := h.head_eq hs hne.symm
  stream_eq hs := h.stream_eq hs hne.symm

/-- A client can add to what was received, and cannot touch what was sent. -/
theorem kept_act (t : Nat) (l : Link) (a : Act) : l.Kept t (l.act a) where
  position_eq := by cases a <;> rfl
  received := by
    cases a with
    | feed bytes => exact List.prefix_append _ _
    | collect | halfClose | hangUp | breakOff => exact List.prefix_refl _
  sent := by cases a <;> exact List.prefix_refl _
  head_eq h := by cases a <;> exact h
  stream_eq _ := by cases a <;> rfl

end Link

namespace Hub

variable {δ : Type} [Service δ]

/-- A task conducts the exchange with a peer. -/
def Conducts (h : Hub δ) (t : Nat) (p : Peer) : Prop := ∃ a, h.tasks[t]? = some a ∧ a.serves p = true

omit [Service δ] in
/-- A handler conducts the exchange with its peer. -/
theorem conducts_of_handler {h : Hub δ} {t : Nat} {x : Handler} (ht : h.tasks[t]? = some (.handler x)) :
    h.Conducts t x.peer :=
  ⟨_, ht, beq_self_eq_true _⟩

omit [Service δ] in
/-- Who conducts an exchange is one of the tasks. -/
theorem Conducts.lt {h : Hub δ} {t : Nat} {p : Peer} (hc : h.Conducts t p) : t < h.tasks.length := by
  obtain ⟨a, ha, _⟩ := hc
  exact (List.getElem?_eq_some_iff.1 ha).1

omit [Service δ] in
/-- A new task conducts an exchange if it serves a peer, and the others do as before. -/
theorem conducts_spawn {h : Hub δ} {a : Task} {t : Nat} {p : Peer} :
    (h.spawn a).Conducts t p ↔ h.Conducts t p ∨ (t = h.tasks.length ∧ a.serves p = true) := by
  rcases Nat.lt_trichotomy t h.tasks.length with ht | rfl | ht
  · rw [Conducts, Conducts, spawn, List.getElem?_append_left ht]
    constructor
    · exact Or.inl
    · rintro (hc | ⟨rfl, _⟩)
      · exact hc
      · exact absurd ht (Nat.lt_irrefl _)
  · rw [Conducts, spawn, List.getElem?_concat_length]
    constructor
    · rintro ⟨b, hb, hs⟩
      cases hb
      exact Or.inr ⟨rfl, hs⟩
    · rintro (hc | ⟨_, hs⟩)
      · exact absurd hc.lt (Nat.lt_irrefl _)
      · exact ⟨a, rfl, hs⟩
  · constructor
    · intro hc
      have hlt := hc.lt
      rw [spawn, List.length_append, List.length_singleton] at hlt
      omega
    · rintro (hc | ⟨rfl, _⟩)
      · exact absurd (Nat.lt_trans ht hc.lt) (Nat.lt_irrefl _)
      · exact absurd ht (Nat.lt_irrefl _)

theorem TaskStep.serves_eq {h h' : Hub δ} {t : Nat} {a b : Task} (hs : TaskStep h t a b h') (p : Peer) :
    b.serves p = a.serves p := by
  cases hs <;> rfl

/-- A step of a task leaves everybody the exchange that he conducts. -/
theorem conducts_step {h h' : Hub δ} {s t : Nat} {a b : Task} {p : Peer} (ha : h.tasks[s]? = some a)
    (hs : TaskStep h s a b h') : (h'.setTask s b).Conducts t p ↔ h.Conducts t p := by
  by_cases hst : s = t
  · subst hst
    rw [Conducts, Conducts, tasks_setTask_self b (hs.tasks_eq ▸ ha), ha]
    constructor
    · rintro ⟨c, hc, hp⟩
      cases hc
      exact ⟨a, rfl, (hs.serves_eq p).symm.trans hp⟩
    · rintro ⟨c, hc, hp⟩
      cases hc
      exact ⟨b, rfl, (hs.serves_eq p).trans hp⟩
  · rw [Conducts, Conducts, tasks_setTask_of_ne _ _ hst, hs.tasks_eq]

omit [Service δ] in
/-- Only an errand is cut short. -/
theorem tasks_cutShort (h : Hub δ) (s t : Nat) :
    (h.cutShort s).tasks[t]? = h.tasks[t]? ∨
      ∃ c, h.tasks[t]? = some (.errand c) ∧ (h.cutShort s).tasks[t]? = some (.errand c.stop) := by
  unfold cutShort
  split
  · rename_i c hc
    by_cases hst : s = t
    · subst hst
      exact Or.inr ⟨c, hc, tasks_setTask_self (h := { h with links := _ }) _ hc⟩
    · exact Or.inl (tasks_setTask_of_ne _ _ hst)
  · exact Or.inl rfl

omit [Service δ] in
/-- To break a task off leaves everybody the exchange that he conducts. -/
theorem conducts_cutShort {h : Hub δ} {s t : Nat} {p : Peer} : (h.cutShort s).Conducts t p ↔ h.Conducts t p := by
  rcases tasks_cutShort h s t with heq | ⟨c, hc, hc'⟩
  · rw [Conducts, Conducts, heq]
  · rw [Conducts, Conducts, hc, hc']
    constructor
    · rintro ⟨a, ha, hp⟩
      cases ha
      nomatch hp
    · rintro ⟨a, ha, hp⟩
      cases ha
      nomatch hp

/-- Only the beginning of an exchange gives a peer a handler. -/
theorem conducts_after? {h h' : Hub δ} {e : Event} (he : h.after? e = some h') (t : Nat) (p : Peer) :
    h'.Conducts t p ↔ h.Conducts t p ∨ (t = h.tasks.length ∧ ∃ run, e = .serve p run) := by
  have same : (∀ run, e ≠ .serve p run) → (h'.Conducts t p ↔ h.Conducts t p) →
      (h'.Conducts t p ↔ h.Conducts t p ∨ (t = h.tasks.length ∧ ∃ run, e = .serve p run)) := by
    intro hne hiff
    rw [hiff]
    constructor
    · exact Or.inl
    · rintro (hc | ⟨_, run, he⟩)
      · exact hc
      · exact absurd he (hne run)
  have errand : ∀ c, (h.spawn (.errand c)).Conducts t p ↔ h.Conducts t p := by
    intro c
    rw [conducts_spawn]
    constructor
    · rintro (hc | ⟨_, hs⟩)
      · exact hc
      · nomatch hs
    · exact Or.inl
  cases eventStep_of_after? he with
  | move ha hs => exact same (by intro _ h; nomatch h) (conducts_step ha hs)
  | @serve q run =>
    rw [serve, conducts_spawn]
    constructor
    · rintro (hc | ⟨ht, hs⟩)
      · exact Or.inl hc
      · exact Or.inr ⟨ht, run, by rw [show q = p from eq_of_beq hs]⟩
    · rintro (hc | ⟨ht, run', he'⟩)
      · exact Or.inl hc
      · cases he'
        exact Or.inr ⟨ht, beq_self_eq_true _⟩
  | broadcast | closeAll | sendTo | close => exact same (by intro _ h; nomatch h) (errand _)
  | cutShort => exact same (by intro _ h; nomatch h) conducts_cutShort
  | attach | halt | client | wait | tick => exact same (by intro _ h; nomatch h) Iff.rfl

omit [Service δ] in
/-- To break a task off takes no peer out and no link away. -/
theorem members_cutShort (h : Hub δ) (s : Nat) :
    (h.cutShort s).members = h.members ∧ (h.cutShort s).links.length = h.links.length := by
  unfold cutShort
  split
  · exact ⟨rfl, List.length_map _⟩
  · exact ⟨rfl, rfl⟩

/-- Peers come in one by one, each under the number of its link, and go out in any order. -/
theorem members_after? {h h' : Hub δ} {e : Event} (he : h.after? e = some h') :
    (h'.members.Sublist h.members ∧ h'.links.length = h.links.length) ∨
    ∃ link, link.isFresh = true ∧ h' = h.register link := by
  cases eventStep_of_after? he with
  | move ha hs => exact Or.inl ⟨hs.members_sublist, hs.links_length⟩
  | attach hf => exact Or.inr ⟨_, hf, rfl⟩
  | closeAll => exact Or.inl ⟨List.nil_sublist _, rfl⟩
  | @cutShort s =>
    obtain ⟨hm, hl⟩ := members_cutShort h s
    exact Or.inl ⟨hm ▸ List.Sublist.refl _, hl⟩
  | client => exact Or.inl ⟨List.Sublist.refl _, List.length_modify _ _ _⟩
  | serve | broadcast | sendTo | close | halt | wait | tick => exact Or.inl ⟨List.Sublist.refl _, rfl⟩

/-- What an event can do to the link of a peer. -/
inductive LinkStep (h : Hub δ) (p : Peer) (l : Link) : Event → Link → Prop
  | same {e : Event} : LinkStep h p l e l
  | touched {m : Move} {l' : Link} : l.Touched m.task l' → LinkStep h p l (.move m) l'
  /-- The handler of the peer reads. -/
  | read {m : Move} {n : Nat} : h.Conducts m.task p → LinkStep h p l (.move m) (l.advance n)
  /-- A task that was cut short, and is no handler, gives up its place in line. -/
  | left {s : Nat} : (∀ q, ¬h.Conducts s q) → LinkStep h p l (.cutShort s) (l.leave s)
  | used {act : Link.Act} : LinkStep h p l (.client p act) (l.act act)

omit [Service δ] in
/-- What breaking a task off does to the link of a peer. -/
theorem linkStep_cutShort {h : Hub δ} {s : Nat} {p : Peer} {l : Link} (hl : h.links[p]? = some l) :
    ∃ l', (h.cutShort s).links[p]? = some l' ∧ h.LinkStep p l (.cutShort s) l' := by
  unfold cutShort
  split
  · rename_i c hc
    refine ⟨l.leave s, ?_, .left ?_⟩
    · rw [setTask, List.getElem?_map, hl]
      rfl
    · rintro q ⟨a, ha, hserves⟩
      rw [hc] at ha
      cases ha
      nomatch hserves
  · exact ⟨l, hl, .same⟩

/-- What any event does to the link of a peer. -/
theorem link_after? {h h' : Hub δ} {e : Event} {p : Peer} {l : Link} (he : h.after? e = some h')
    (hl : h.links[p]? = some l) : ∃ l', h'.links[p]? = some l' ∧ h.LinkStep p l e l' := by
  cases eventStep_of_after? he with
  | move ha hs =>
    obtain ⟨l', hl', htouch | ⟨run, stage, n, rfl, rfl⟩⟩ := hs.touched hl
    · exact ⟨l', hl', .touched htouch⟩
    · exact ⟨_, hl', .read ⟨_, ha, beq_self_eq_true _⟩⟩
  | attach => exact ⟨l, (List.getElem?_append_left (List.getElem?_eq_some_iff.1 hl).1).trans hl, .same⟩
  | cutShort => exact linkStep_cutShort hl
  | @client q act =>
    by_cases hqp : q = p
    · subst hqp
      exact ⟨_, links_updateLink_self _ hl, .used⟩
    · exact ⟨l, (links_updateLink_of_ne _ hqp).trans hl, .same⟩
  | serve | broadcast | closeAll | sendTo | close | halt | wait | tick => exact ⟨l, hl, .same⟩

/-! ## What marks are about -/

omit [Service δ] in
/-- All that a courier is noted for is what it writes to the peer that it is sending a frame to. -/
theorem delivery_cases {h h' : Hub δ} {t : Nat} {c : Courier} {m : Mark} (hm : m ∈ h.delivery t c h') :
    ∃ p bytes, c.work.addressee? = some p ∧ m = .wrote t p bytes := by
  unfold delivery at hm
  cases hw : c.work.addressee? with
  | none =>
    rw [hw] at hm
    nomatch hm
  | some p =>
    rw [hw] at hm
    exact ⟨p, _, rfl, List.mem_singleton.1 hm⟩

/-- A step shows something of the exchange that its task conducts, or what the task writes. -/
theorem TaskStep.shown_cases {h h' : Hub δ} {t : Nat} {a b : Task} {m : Mark} (hs : TaskStep h t a b h')
    (hm : m ∈ h.shown t a b h') :
    (∃ p, m.exchange? = some p ∧ a.serves p = true) ∨ ∃ p bytes, m = .wrote t p bytes := by
  cases hs with
  | read =>
    rw [shown_read] at hm
    nomatch hm
  | convey | finish =>
    obtain ⟨p, bytes, _, rfl⟩ := delivery_cases hm
    exact Or.inr ⟨p, bytes, rfl⟩
  | errand =>
    obtain ⟨p, bytes, _, rfl⟩ := delivery_cases hm
    exact Or.inr ⟨p, bytes, rfl⟩
  | @curtail p | @lose p | @heed p | @execute p | @crash p =>
    rw [List.mem_singleton.1 hm]
    exact Or.inl ⟨p, rfl, beq_self_eq_true _⟩

/-- What an event shows of an exchange is shown by the move of its handler, and what it shows of a writer by the writer's. -/
theorem marks_cases {h h' : Hub δ} {e : Event} {m : Mark} (he : h.after? e = some h') (hm : m ∈ h.marks e h') :
    (∃ g, m = .ticked g) ∨ ∃ v, e = .move v ∧
      ((∃ p, m.exchange? = some p ∧ h.Conducts v.task p) ∨
        ∃ p bytes, m = .wrote v.task p bytes ∧ v.task < h.tasks.length) := by
  cases eventStep_of_after? he with
  | @move v a b h₁ ha hs =>
    rw [marks_move ha hs] at hm
    refine Or.inr ⟨v, rfl, ?_⟩
    rcases hs.shown_cases hm with ⟨p, hp, hserves⟩ | ⟨p, bytes, rfl⟩
    · exact Or.inl ⟨p, hp, a, ha, hserves⟩
    · exact Or.inr ⟨p, bytes, rfl, (List.getElem?_eq_some_iff.1 ha).1⟩
  | tick => exact Or.inl ⟨_, List.mem_singleton.1 hm⟩
  | attach | serve | broadcast | closeAll | sendTo | close | cutShort | halt | client | wait => nomatch hm

/-! ## Order -/

/-- What is in order in every hub that was reached, beside the log of how it was reached. -/
structure Orderly (h : Hub δ) (log : List Mark) : Prop where
  members_nodup : h.members.Nodup
  member_lt : ∀ p ∈ h.members, p < h.links.length
  peer_lt : ∀ t p, h.Conducts t p → p < h.links.length
  /-- No peer has two handlers. -/
  conducts_inj : ∀ s t p, h.Conducts s p → h.Conducts t p → s = t
  /-- What was noted of an exchange was noted of one that was begun. -/
  exchange_conducted : ∀ m ∈ log, ∀ p, m.exchange? = some p → ∃ t, h.Conducts t p
  /-- What was written was written by a task that exists. -/
  writer_lt : ∀ t p bytes, .wrote t p bytes ∈ log → t < h.tasks.length
  /-- Nothing was read from a peer without a handler. -/
  unread : ∀ p l, h.links[p]? = some l → (∀ t, ¬h.Conducts t p) → l.inbound.position = 0

omit [Service δ] in
/-- At the start a hub is in order, and nothing was noted. -/
theorem orderly_start (d : δ) (patience : Nat) : (start d patience).Orderly [] where
  members_nodup := List.nodup_nil
  member_lt _ h := nomatch h
  peer_lt _ _ hc := nomatch hc.lt
  conducts_inj _ _ _ hc := nomatch hc.lt
  exchange_conducted _ h := nomatch h
  writer_lt _ _ _ h := nomatch h
  unread _ _ h := nomatch h

omit [Service δ] in
theorem tasks_length_spawn (h : Hub δ) (a : Task) : h.tasks.length ≤ (h.spawn a).tasks.length := by
  rw [spawn, List.length_append]
  exact Nat.le_add_right _ _

/-- No event takes a task away. -/
theorem tasks_length_after? {h h' : Hub δ} {e : Event} (he : h.after? e = some h') :
    h.tasks.length ≤ h'.tasks.length := by
  cases eventStep_of_after? he with
  | move ha hs => exact Nat.le_of_eq (by rw [setTask, List.length_set, hs.tasks_eq])
  | serve | broadcast | closeAll | sendTo | close => exact tasks_length_spawn _ _
  | cutShort =>
    unfold cutShort
    split
    · exact Nat.le_of_eq (by rw [setTask, List.length_set])
    · exact Nat.le_refl _
  | attach | halt | client | wait | tick => exact Nat.le_refl _

/-- A handler that was not there before is the one begun now, and its peer had none. -/
theorem conducts_begun {h h' : Hub δ} {e : Event} {t : Nat} {p : Peer} (he : h.after? e = some h')
    (hc : h'.Conducts t p) (hn : ¬h.Conducts t p) :
    t = h.tasks.length ∧ p < h.links.length ∧ ∀ s, ¬h.Conducts s p := by
  rcases (conducts_after? he t p).1 hc with hc | ⟨ht, run, rfl⟩
  · exact absurd hc hn
  · cases eventStep_of_after? he with
    | serve hp hnone => exact ⟨ht, hp, fun s ⟨a, ha, hs⟩ => hnone a (List.mem_of_getElem? ha) hs⟩

/-- No event takes a link away. -/
theorem links_length_after? {h h' : Hub δ} {e : Event} (he : h.after? e = some h') :
    h.links.length ≤ h'.links.length := by
  rcases members_after? he with ⟨_, hl⟩ | ⟨link, _, rfl⟩
  · exact Nat.le_of_eq hl.symm
  · rw [register, List.length_append]
    exact Nat.le_add_right _ _

/-- A link is either there already or that of a client that has just arrived. -/
theorem link_before? {h h' : Hub δ} {e : Event} {p : Peer} {l' : Link} (he : h.after? e = some h')
    (hl' : h'.links[p]? = some l') : (∃ l, h.links[p]? = some l) ∨ l'.isFresh = true := by
  rcases members_after? he with ⟨_, hlen⟩ | ⟨link, hf, rfl⟩
  · have hlt := (List.getElem?_eq_some_iff.1 hl').1
    rw [hlen] at hlt
    exact Or.inl ⟨_, List.getElem?_eq_getElem hlt⟩
  · rw [register, List.getElem?_append] at hl'
    by_cases hp : p < h.links.length
    · rw [if_pos hp] at hl'
      exact Or.inl ⟨l', hl'⟩
    · rw [if_neg hp] at hl'
      rw [List.mem_singleton.1 (List.mem_of_getElem? hl')]
      exact Or.inr hf

/-- The connected peers come once each and have their links, also after an event. -/
theorem Orderly.members_after {h h' : Hub δ} {e : Event} {log : List Mark} (ho : h.Orderly log)
    (he : h.after? e = some h') : h'.members.Nodup ∧ ∀ p ∈ h'.members, p < h'.links.length := by
  rcases members_after? he with ⟨hm, hlen⟩ | ⟨link, _, rfl⟩
  · rw [hlen]
    exact ⟨hm.nodup ho.members_nodup, fun p hp => ho.member_lt p (hm.subset hp)⟩
  · constructor
    · rw [register, List.nodup_append]
      refine ⟨ho.members_nodup, List.nodup_cons.2 ⟨List.not_mem_nil, List.nodup_nil⟩, ?_⟩
      intro p hp q hq
      rw [List.mem_singleton.1 hq]
      exact Nat.ne_of_lt (ho.member_lt p hp)
    · intro p hp
      rw [register, List.length_append]
      rw [register, List.mem_append, List.mem_singleton] at hp
      rcases hp with hp | rfl
      · exact Nat.lt_succ_of_lt (ho.member_lt p hp)
      · exact Nat.lt_succ_self _

/-- No two tasks conduct the exchange with one peer, also after an event. -/
theorem Orderly.conducts_inj_after {h h' : Hub δ} {e : Event} {log : List Mark} {s t : Nat} {p : Peer}
    (ho : h.Orderly log) (he : h.after? e = some h') (hs : h'.Conducts s p) (ht : h'.Conducts t p) : s = t := by
  by_cases hs₀ : h.Conducts s p
  · by_cases ht₀ : h.Conducts t p
    · exact ho.conducts_inj s t p hs₀ ht₀
    · exact absurd hs₀ ((conducts_begun he ht ht₀).2.2 s)
  · by_cases ht₀ : h.Conducts t p
    · exact absurd ht₀ ((conducts_begun he hs hs₀).2.2 t)
    · exact (conducts_begun he hs hs₀).1.trans (conducts_begun he ht ht₀).1.symm

/-- Whatever is noted of an exchange, there is a task that conducts it, also after an event. -/
theorem Orderly.exchange_conducted_after {h h' : Hub δ} {e : Event} {log : List Mark} {m : Mark} {p : Peer}
    (ho : h.Orderly log) (he : h.after? e = some h') (hm : m ∈ log ++ h.marks e h') (hp : m.exchange? = some p) :
    ∃ t, h'.Conducts t p := by
  rcases List.mem_append.1 hm with hm | hm
  · obtain ⟨t, hc⟩ := ho.exchange_conducted m hm p hp
    exact ⟨t, (conducts_after? he t p).2 (Or.inl hc)⟩
  · rcases marks_cases he hm with ⟨g, rfl⟩ | ⟨v, _, ⟨q, hq, hc⟩ | ⟨q, bytes, rfl, _⟩⟩
    · nomatch hp
    · rw [hp] at hq
      cases hq
      exact ⟨v.task, (conducts_after? he v.task p).2 (Or.inl hc)⟩
    · nomatch hp

/-- Whoever is noted to have written is one of the tasks, also after an event. -/
theorem Orderly.writer_lt_after {h h' : Hub δ} {e : Event} {log : List Mark} {t : Nat} {p : Peer} {bytes : Bytes}
    (ho : h.Orderly log) (he : h.after? e = some h') (hm : .wrote t p bytes ∈ log ++ h.marks e h') :
    t < h'.tasks.length := by
  refine Nat.lt_of_lt_of_le ?_ (tasks_length_after? he)
  rcases List.mem_append.1 hm with hm | hm
  · exact ho.writer_lt t p bytes hm
  · rcases marks_cases he hm with ⟨g, hg⟩ | ⟨v, _, ⟨q, hq, _⟩ | ⟨q, more, heq, hlt⟩⟩
    · nomatch hg
    · nomatch hq
    · cases heq
      exact hlt

/-- Of a peer whose exchange nobody conducts nothing has been read, also after an event. -/
theorem Orderly.unread_after {h h' : Hub δ} {e : Event} {log : List Mark} {p : Peer} {l' : Link} (ho : h.Orderly log)
    (he : h.after? e = some h') (hl' : h'.links[p]? = some l') (hn : ∀ t, ¬h'.Conducts t p) :
    l'.inbound.position = 0 := by
  have hn₀ : ∀ t, ¬h.Conducts t p := fun t hc => hn t ((conducts_after? he t p).2 (Or.inl hc))
  rcases link_before? he hl' with ⟨l, hl⟩ | hf
  · obtain ⟨l'', hl'', hstep⟩ := link_after? he hl
    rw [hl'] at hl''
    cases hl''
    rw [← ho.unread p l hl hn₀]
    cases hstep with
    | same | left => rfl
    | touched htouch => rw [htouch.inbound_eq]
    | read hc => exact absurd hc (hn₀ _)
    | @used act => exact (l.kept_act 0 act).position_eq
  · exact (Link.isFresh_iff.1 hf).2.1

/-- A hub that is in order is so after any event. -/
theorem orderly_after? {h h' : Hub δ} {e : Event} {log : List Mark} (ho : h.Orderly log) (he : h.after? e = some h') :
    h'.Orderly (log ++ h.marks e h') where
  members_nodup := (ho.members_after he).1
  member_lt := (ho.members_after he).2
  peer_lt t p hc := by
    refine Nat.lt_of_lt_of_le ?_ (links_length_after? he)
    by_cases hold : h.Conducts t p
    · exact ho.peer_lt t p hold
    · exact (conducts_begun he hc hold).2.1
  conducts_inj _ _ _ hs ht := ho.conducts_inj_after he hs ht
  exchange_conducted _ hm _ hp := ho.exchange_conducted_after he hm hp
  writer_lt _ _ _ hm := ho.writer_lt_after he hm
  unread _ _ hl' hn := ho.unread_after he hl' hn

/-- In every run the hub is in order. -/
theorem orderly_run {d : δ} {patience : Nat} {es : List Event} {h : Hub δ} {log : List Mark}
    (hr : (start d patience).run? es = some (h, log)) : h.Orderly log :=
  run?_induction (orderly_start d patience) (fun _ _ _ _ ho he => orderly_after? ho he) hr

/-! ## What a handler can rely on -/

/-- What was done while task `t` conducted the exchange with a peer left the exchange alone. -/
structure Spares (h : Hub δ) (t : Nat) (p : Peer) (h' : Hub δ) : Prop where
  task_eq : h'.tasks[t]? = h.tasks[t]?
  kept : ∀ l, h.links[p]? = some l → ∃ l', h'.links[p]? = some l' ∧ l.Kept t l'
  gone : p ∉ h.members → p ∉ h'.members

/-- A task that conducts an exchange is as it was unless it moves itself. -/
theorem task_after? {h h' : Hub δ} {e : Event} {t : Nat} {p : Peer} (hc : h.Conducts t p) (he : h.after? e = some h')
    (hne : ∀ m, e = .move m → m.task ≠ t) : h'.tasks[t]? = h.tasks[t]? := by
  cases eventStep_of_after? he with
  | move ha hs => rw [tasks_setTask_of_ne _ _ (hne _ rfl), hs.tasks_eq]
  | serve | broadcast | closeAll | sendTo | close => exact List.getElem?_append_left hc.lt
  | @cutShort s =>
    rcases tasks_cutShort h s t with heq | ⟨c, hcut, _⟩
    · exact heq
    · obtain ⟨a, ha, hserves⟩ := hc
      rw [hcut] at ha
      cases ha
      nomatch hserves
  | attach | halt | client | wait | tick => rfl

/-- Whatever happens but for the handler's own moves leaves its exchange alone. -/
theorem spares_after? {h h' : Hub δ} {e : Event} {log : List Mark} {t : Nat} {p : Peer} (ho : h.Orderly log)
    (hc : h.Conducts t p) (he : h.after? e = some h') (hne : ∀ m, e = .move m → m.task ≠ t) : h.Spares t p h' where
  task_eq := task_after? hc he hne
  kept l hl := by
    obtain ⟨l', hl', hstep⟩ := link_after? he hl
    refine ⟨l', hl', ?_⟩
    cases hstep with
    | same => exact .refl t l
    | touched htouch => exact htouch.kept (hne _ rfl)
    | read hreader => exact absurd (ho.conducts_inj _ _ _ hreader hc) (hne _ rfl)
    | left hs =>
      refine Link.Touched.leave.kept ?_
      rintro rfl
      exact hs p hc
    | used => exact l.kept_act t _
  gone hn hp := by
    rcases members_after? he with ⟨hm, _⟩ | ⟨link, _, rfl⟩
    · exact hn (hm.subset hp)
    · rw [register, List.mem_append, List.mem_singleton] at hp
      rcases hp with hp | rfl
      · exact hn hp
      · exact absurd (ho.peer_lt t _ hc) (Nat.lt_irrefl _)

end Hub

end Peripheral
