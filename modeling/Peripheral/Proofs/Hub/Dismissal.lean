import Peripheral.Proofs.Hub.Exchange
import Peripheral.Proofs.Hub.Round
import Peripheral.Proofs.Hub.Share

/-!
# Handlers and dismissals

Who serves a peer, and in which run, never changes (`Handles`). A peer goes out at the latest when its handler has ended, or,
if the device has broken down, when the errand has ended that dismisses it (`Dismisses`). Neither of the two does anything to
another peer (`elsewhere_move`).
-/

namespace Peripheral.Hub

variable {δ : Type} [Service δ] {h h' : Hub δ} {e : Event} {es : List Event} {log more : List Mark} {t : Nat} {p q : Peer}

/-! ## Handlers -/

omit [Service δ] in
/-- A task is the handler of a peer, for a run of the server. -/
def Handles (h : Hub δ) (t : Nat) (p : Peer) (run : Nat) : Prop := ∃ stage, h.tasks[t]? = some (.handler ⟨p, run, stage⟩)

omit [Service δ] in
/-- The handler of a peer conducts the exchange with it. -/
theorem Handles.conducts {run : Nat} (hh : h.Handles t p run) : h.Conducts t p := by
  obtain ⟨stage, ht⟩ := hh
  exact conducts_of_handler ht

omit [Service δ] in
/-- The peer that a task serves. -/
def client? (h : Hub δ) (t : Nat) : Option Peer :=
  match h.tasks[t]? with
  | some (.handler x) => some x.peer
  | _ => none

omit [Service δ] in
/-- The handler of a peer serves this peer. -/
theorem Handles.client?_eq {run : Nat} (hh : h.Handles t p run) : h.client? t = some p := by
  obtain ⟨stage, ht⟩ := hh
  rw [client?, ht]

omit [Service δ] in
/-- A handler serves one peer, in one run. -/
theorem Handles.eq {run later : Nat} (hp : h.Handles t p run) (hq : h.Handles t q later) : p = q ∧ run = later := by
  obtain ⟨stage, hp⟩ := hp
  obtain ⟨stage', hq⟩ := hq
  cases hp.symm.trans hq
  exact ⟨rfl, rfl⟩

omit [Service δ] in
/-- Who is served in a run is not served in another one. -/
theorem Handles.ne {u : Nat} {run later : Nat} (ho : h.Orderly log) (hp : h.Handles t p run) (hq : h.Handles u q later)
    (hlt : run < later) : q ≠ p := by
  rintro rfl
  obtain rfl := ho.conducts_inj _ _ _ hp.conducts hq.conducts
  exact Nat.ne_of_lt hlt (hp.eq hq).2

/-- A handler remains the handler of its peer. -/
theorem TaskStep.handler {run : Nat} {stage : Handler.Stage} {b : Task} (hs : TaskStep h t (.handler ⟨p, run, stage⟩) b h') :
    ∃ stage', b = .handler ⟨p, run, stage'⟩ := by
  cases hs <;> exact ⟨_, rfl⟩

/-- A handler remains the handler of its peer, whatever happens. -/
theorem Handles.after {run : Nat} (hh : h.Handles t p run) (he : h.after? e = some h') : h'.Handles t p run := by
  obtain ⟨stage, ht⟩ := hh
  by_cases hown : ∃ m, e = .move m ∧ m.task = t
  · obtain ⟨m, rfl, rfl⟩ := hown
    obtain ⟨a, b, h₁, ha, hs, rfl⟩ := taskStep_of_move? he
    cases Option.some.inj (ht.symm.trans ha)
    obtain ⟨stage', rfl⟩ := hs.handler
    exact ⟨stage', tasks_setTask_self _ (hs.tasks_eq ▸ ht)⟩
  · have hother : ∀ m, e = .move m → m.task ≠ t := fun m hm heq => hown ⟨m, hm, heq⟩
    exact ⟨stage, (task_after? (conducts_of_handler ht) he hother).trans ht⟩

/-- A handler remains the handler of its peer throughout a run. -/
theorem Handles.run {run : Nat} (hh : h.Handles t p run) (hrun : h.run? es = some (h', more)) : h'.Handles t p run :=
  @run?_preserves δ _ (fun h _ => h.Handles t p run) h h' es [] more (fun _ _ _ _ hh he => hh.after he) hh hrun

/-! ## Dismissals -/

/-- An errand remains one, whatever it still has to do. -/
theorem errand_run (hc : ∃ c, h.tasks[t]? = some (.errand c)) (hrun : h.run? es = some (h', more)) :
    ∃ c, h'.tasks[t]? = some (.errand c) := by
  refine @run?_preserves δ _ (fun h _ => ∃ c, h.tasks[t]? = some (.errand c)) h h' es [] more ?_ hc hrun
  rintro h e h' log ⟨c, hc⟩ he
  have hstep := errandStep_after? log hc he
  generalize log ++ h.marks e h' = log' at hstep
  cases hstep with
  | step _ hs => exact ⟨_, tasks_setTask_self _ (hs.tasks_eq ▸ hc)⟩
  | stop hc' => exact ⟨_, hc'⟩
  | none _ hc' => exact ⟨c, hc'⟩

omit [Service δ] in
/-- A task is an errand that has nothing to do but to dismiss a peer. -/
def Dismisses (h : Hub δ) (t : Nat) (p : Peer) : Prop := ∃ c, h.tasks[t]? = some (.errand c) ∧ Leaving h.members p c

omit [Service δ] in
/-- An errand that dismisses a peer is one of the tasks. -/
theorem Dismisses.lt (hd : h.Dismisses t p) : t < h.tasks.length := by
  obtain ⟨c, hc, -⟩ := hd
  exact (List.getElem?_eq_some_iff.1 hc).1

omit [Service δ] in
/-- When the dismissal is over, the peer is out. -/
theorem Dismisses.gone (hd : h.Dismisses t p) (hfin : h.isFinished t = true) : p ∉ h.members := by
  obtain ⟨c, hc, hl⟩ := hd
  rw [isFinished, hc] at hfin
  obtain ⟨-, hnil⟩ := Bool.and_eq_true_iff.1 (show c.isFinished = true from hfin)
  exact fun hin => (hl.to_come hin).2 (List.isEmpty_iff.1 hnil)

/-- An errand that dismisses a peer has nothing else to do next either, unless it is broken off. -/
theorem Dismisses.after (hd : h.Dismisses t p) (ho : h.Orderly log) (hp : p < h.links.length) (he : h.after? e = some h')
    (hcut : e ≠ .cutShort t) : h'.Dismisses t p := by
  obtain ⟨c, hc, hl⟩ := hd
  have hstep := errandStep_after? log hc he
  generalize log ++ h.marks e h' = log' at hstep
  cases hstep with
  | step _ hs => exact ⟨_, tasks_setTask_self _ (hs.tasks_eq ▸ hc), (leaving_step ho.members_nodup hl hs).1⟩
  | stop => exact absurd rfl hcut
  | none _ hc' => exact ⟨c, hc', hl.mono fun hout => gone_after? hout hp he⟩

/-- An errand that dismisses a peer has nothing else to do throughout a run, unless it is broken off. -/
theorem Dismisses.run (hd : h.Dismisses t p) (ho : h.Orderly log) (hp : p < h.links.length) (hcut : .cutShort t ∉ es)
    (hrun : h.run? es = some (h', more)) : h'.Dismisses t p := by
  induction es generalizing h log more with
  | nil =>
    cases hrun
    exact hd
  | cons e rest ih =>
    obtain ⟨h₁, he, hrun⟩ := Option.bind_eq_some_iff.1 hrun
    obtain ⟨⟨h₂, log₂⟩, hrun₂, heq⟩ := Option.bind_eq_some_iff.1 hrun
    cases heq
    rw [List.mem_cons, not_or] at hcut
    exact ih (hd.after ho hp he (Ne.symm hcut.1)) (orderly_after? ho he)
      (Nat.lt_of_lt_of_le hp (links_length_after? he)) hcut.2 hrun₂

omit [Service δ] in
/-- The dismissal of a peer has only begun. -/
theorem dismisses_close (h : Hub δ) (p : Peer) : (h.close p).Dismisses h.tasks.length p :=
  ⟨_, List.getElem?_concat_length, fun _ hj => List.mem_singleton.1 hj, Or.inl rfl, fun _ => ⟨rfl, List.cons_ne_nil _ _⟩⟩

omit [Service δ] in
/-- When a handler has ended and the device has not broken down, its peer is out. -/
theorem Exchanging.gone {x : Handler} {ending : Handler.Ending} (hx : h.Exchanging log)
    (ht : h.tasks[t]? = some (.handler x)) (hend : x.ending? = some ending) (hne : ending ≠ .crashed) :
    x.peer ∉ h.members := by
  obtain ⟨l, -, hprog, -⟩ := hx t x ht
  obtain ⟨p, run, stage⟩ := x
  cases hprog with
  | answered _ _ _ _ _ hout => exact hout
  | refused _ _ _ _ hout => exact hout
  | undelivered _ _ _ _ _ _ hout => exact hout
  | crashed => exact absurd (Option.some.inj hend).symm hne
  | receiving | holding | refusing | responding => nomatch hend

/-- Where nobody comes in, peers only go. -/
theorem members_run (hattach : ∀ link, .attach link ∉ es) (hrun : h.run? es = some (h', more)) : h'.members ⊆ h.members := by
  induction es generalizing h more with
  | nil =>
    cases hrun
    exact List.Subset.refl _
  | cons e rest ih =>
    obtain ⟨h₁, he, hrun⟩ := Option.bind_eq_some_iff.1 hrun
    obtain ⟨⟨h₂, log₂⟩, hrun₂, heq⟩ := Option.bind_eq_some_iff.1 hrun
    cases heq
    refine List.Subset.trans (ih (fun link hin => hattach link (List.mem_cons_of_mem _ hin)) hrun₂) ?_
    cases eventStep_of_after? he with
    | move _ hs => exact hs.members_sublist.subset
    | @attach link => exact absurd List.mem_cons_self (hattach link)
    | closeAll => exact List.nil_subset _
    | cutShort => exact (members_cutShort h _).1 ▸ List.Subset.refl _
    | serve | broadcast | sendTo | close | halt | client | wait | tick => exact List.Subset.refl _

/-! ## Other peers -/

omit [Service δ] in
/-- What is done for one peer leaves the link of another alone, and whether it is connected. -/
theorem CourierStep.elsewhere {c c' : Courier} (hs : CourierStep h t c c' h') (hq : c.focus? ≠ some q) :
    h'.links[q]? = h.links[q]? ∧ (q ∈ h'.members ↔ q ∈ h.members) := by
  have hshare := hs.share_aside hq
  have hmember : h'.members.contains q = h.members.contains q := congrArg Share.isMember hshare
  rw [← List.contains_iff_mem, ← List.contains_iff_mem, hmember]
  exact ⟨congrArg Share.link? hshare, Iff.rfl⟩

omit [Service δ] in
/-- A courier that is to dismiss a peer works for this peer only. -/
theorem focus_of_leaving {members : List Peer} {c : Courier} (hl : Leaving members p c) (hq : c.focus? = some q) : q = p := by
  unfold Courier.focus? at hq
  rcases hl.work_eq with hw | ⟨d, hw⟩
  · rw [hw] at hq
    obtain ⟨j, hj, rfl⟩ := Option.map_eq_some_iff.1 hq
    rw [hl.jobs_eq j (List.mem_of_mem_head? hj)]
    rfl
  · rw [hw] at hq
    exact (Option.some.inj hq).symm

omit [Service δ] in
/-- A handler works for its own peer only. -/
theorem focus_of_progress {members : List Peer} {l : Link} {result : Except ExchangeError Frame} {c : Courier}
    {done : List (Frame × Option Frame)} {given : List ExchangeError} {sent : Bytes}
    (hp : Progress members t p l done given sent (.parting result c)) (hq : c.focus? = some q) : q = p := by
  cases hp with
  | refusing hleave => exact focus_of_leaving hleave hq
  | responding _ _ _ hdel =>
    cases hdel with
    | seeking hw hj | ready hw hj =>
      rw [Courier.focus?, hw, hj] at hq
      exact (Option.some.inj hq).symm
    | sending hw =>
      rw [Courier.focus?, hw] at hq
      exact (Option.some.inj hq).symm
    | complete hleave | failed hleave => exact focus_of_leaving hleave hq

/-- What a handler does leaves other peers as they are. -/
theorem TaskStep.elsewhere {run : Nat} {stage : Handler.Stage} {b : Task} {l : Link} {done : List (Frame × Option Frame)}
    {given : List ExchangeError} {sent : Bytes} (hp : Progress h.members t p l done given sent stage)
    (hs : TaskStep h t (.handler ⟨p, run, stage⟩) b h') (hq : q ≠ p) :
    h'.links[q]? = h.links[q]? ∧ (q ∈ h'.members ↔ q ∈ h.members) := by
  cases hs with
  | read => exact ⟨links_updateLink_of_ne _ hq.symm, Iff.rfl⟩
  | convey hc => exact hc.elsewhere fun hfocus => hq (focus_of_progress hp hfocus)
  | curtail | lose | heed | execute | crash | finish => exact ⟨rfl, Iff.rfl⟩

/-- A task that serves or dismisses one peer does nothing to another. -/
theorem elsewhere_move {m : Move} (hx : h.Exchanging log) (ht : (∃ run, h.Handles m.task p run) ∨ h.Dismisses m.task p)
    (hm : h.move? m = some h') (hq : q ≠ p) : h'.links[q]? = h.links[q]? ∧ (q ∈ h'.members ↔ q ∈ h.members) := by
  obtain ⟨a, b, h₁, ha, hs, rfl⟩ := taskStep_of_move? hm
  rcases ht with ⟨run, stage, ht⟩ | ⟨c, hc, hl⟩
  · cases Option.some.inj (ht.symm.trans ha)
    obtain ⟨l, -, hprog, -⟩ := hx _ _ ht
    have hsame : h₁.links[q]? = h.links[q]? ∧ (q ∈ h₁.members ↔ q ∈ h.members) := hs.elsewhere hprog hq
    exact hsame
  · cases Option.some.inj (hc.symm.trans ha)
    cases hs with
    | errand hstep =>
      have hsame : h₁.links[q]? = h.links[q]? ∧ (q ∈ h₁.members ↔ q ∈ h.members) :=
        hstep.elsewhere fun hfocus => hq (focus_of_leaving hl hfocus)
      exact hsame

end Peripheral.Hub
