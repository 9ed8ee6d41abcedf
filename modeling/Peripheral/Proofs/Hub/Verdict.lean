import Peripheral.Proofs.Hub.Patience

/-!
# What a courier says went wrong

A courier that is there for one peer only says what went wrong for this peer: what it says in the end is told by what concerned
the peer (`failure_run`).
-/

namespace Peripheral

namespace Courier

/-- What the courier does, and what it is to do first, is for one peer; the later jobs are for others. -/
structure Serves (c : Courier) (p : Peer) (later : List Job) : Prop where
  work : ∀ q, c.work.peer? = some q → q = p
  jobs : ∃ mine, c.jobs = mine ++ later ∧ ∀ j ∈ mine, j.peer = p
  others : ∀ j ∈ later, j.peer ≠ p

namespace Serves

variable {c c' : Courier} {p q : Peer} {later : List Job}

/-- A courier with no later jobs works for nobody else. -/
theorem focus_eq (hc : c.Serves p []) (hq : c.focus? = some q) : q = p := by
  unfold focus? at hq
  cases hw : c.work with
  | idle =>
    simp only [hw] at hq
    obtain ⟨j, hj, rfl⟩ := Option.map_eq_some_iff.1 hq
    obtain ⟨mine, heq, hmine⟩ := hc.jobs
    rw [List.append_nil] at heq
    exact hmine j (heq ▸ List.mem_of_head? hj)
  | sending r | shutting r =>
    simp only [hw] at hq
    exact hc.work q (hw ▸ hq)

/-- If the next job is for the peer, then it is not one of the later ones. -/
theorem next {j : Job} {jobs : List Job} (hc : c.Serves p later) (hp : c.focus? = some p) (hw : c.work = .idle)
    (hj : c.jobs = j :: jobs) : j.peer = p ∧ ∃ mine, jobs = mine ++ later ∧ ∀ k ∈ mine, k.peer = p := by
  have hpeer : j.peer = p := by simpa [focus?, hw, hj] using hp
  obtain ⟨mine, heq, hmine⟩ := hc.jobs
  cases mine with
  | nil => exact absurd hpeer (hc.others j (by rw [← List.nil_append later, ← heq, hj]; exact List.mem_cons_self))
  | cons k mine =>
    rw [hj] at heq
    obtain ⟨rfl, rfl⟩ := List.cons.inj heq
    exact ⟨hpeer, mine, rfl, (List.forall_mem_cons.1 hmine).2⟩

/-- While it works for the peer, a courier goes on to serve it. -/
theorem step {δ : Type} {h h' : Hub δ} {t : Nat} (hc : c.Serves p later) (hp : c.focus? = some p)
    (hs : Hub.CourierStep h t c c' h') : c'.Serves p later := by
  have more : ∀ {j}, j.peer = p → (∃ mine, c.jobs = mine ++ later ∧ ∀ k ∈ mine, k.peer = p) →
      ∃ mine, j :: c.jobs = mine ++ later ∧ ∀ k ∈ mine, k.peer = p := by
    rintro j hj ⟨mine, heq, hmine⟩
    exact ⟨j :: mine, by rw [heq, List.cons_append], List.forall_mem_cons.2 ⟨hj, hmine⟩⟩
  have same : ∀ {q w}, c.work = w → w.peer? = some q → q = p := fun hw hq => hc.work _ (hw ▸ hq)
  cases hs with
  | find hw hj =>
    obtain ⟨hpeer, mine, rfl, hmine⟩ := hc.next hp hw hj
    exact ⟨hc.work, ⟨_ :: mine, rfl, List.forall_mem_cons.2 ⟨hpeer, hmine⟩⟩, hc.others⟩
  | miss hw hj | skip hw hj => exact ⟨hc.work, (hc.next hp hw hj).2, hc.others⟩
  | queue hw hj | dismiss hw hj | approach hw hj =>
    obtain ⟨hpeer, hjobs⟩ := hc.next hp hw hj
    exact ⟨fun q hq => Option.some.inj hq ▸ hpeer, hjobs, hc.others⟩
  | put hw => exact ⟨fun q hq => same hw hq, hc.jobs, hc.others⟩
  | complete hw | shut hw | lapse hw => exact ⟨nofun, hc.jobs, hc.others⟩
  | snap hw | late hw => exact ⟨nofun, more (same hw rfl) hc.jobs, hc.others⟩

end Serves

end Courier

namespace Hub

variable {δ : Type}

/-! ## What goes wrong in a step -/

/-- When a courier writes, what goes wrong is that it finds the link broken. -/
theorem fault_write {h h' : Hub δ} {t d grant : Nat} {c c' : Courier} {p : Peer} {rest : Bytes} {l : Link}
    (hl : h.links[p]? = some l) (hw : c.work = .sending p rest d) (hs : h.write t c p rest d grant l = some (c', h')) :
    c'.failure? = ((h.shareOf t c p).fault? h.patience (.advance grant)).or c.failure? := by
  have hfault : (h.shareOf t c p).fault? h.patience (.advance grant) =
      if l.outbound.isBroken then some (.io .brokenPipe) else none := by
    simp [Share.fault?, shareOf, hw, Work.share, hl]
  rw [hfault]
  unfold write at hs
  split at hs
  · cases hs
  · split at hs
    · rename_i hb
      cases hs
      rw [if_pos hb]
      rfl
    · rename_i hb
      rw [if_neg hb, Option.none_or]
      dsimp only at hs
      split at hs
      · cases hs
      · split at hs
        · cases hs
          rfl
        · cases hs
          rfl

/-- When a courier goes on with a peer, what goes wrong is what goes wrong for this peer. -/
theorem fault_advance {h h' : Hub δ} {t grant : Nat} {c c' : Courier} {p : Peer} (hp : c.focus? = some p)
    (hs : h.advanceCourier t c grant = some (c', h')) :
    c'.failure? = ((h.shareOf t c p).fault? h.patience (.advance grant)).or c.failure? := by
  unfold Courier.focus? at hp
  unfold advanceCourier at hs
  cases hw : c.work with
  | idle =>
    cases hj : c.jobs with
    | nil =>
      simp only [hw, hj] at hs
      nomatch hs
    | cons j jobs =>
      simp only [hw, hj, List.head?_cons, Option.map_some, Option.some.injEq] at hp
      simp only [hw, hj, Option.some.injEq] at hs
      subst hp
      have hc := congrArg (·.1.failure?) hs
      cases j with
      | reach p f =>
        by_cases hm : p ∈ h.members
        · simpa [begin, hm, Share.fault?, shareOf, hw, hj, Job.peer, Work.share] using hc.symm
        · simpa [begin, hm, Share.fault?, shareOf, hw, hj, Job.peer, Work.share] using hc.symm
      | send p f => simpa [begin, Share.fault?, shareOf, hw, hj, Job.peer, Work.share] using hc.symm
      | dismiss p =>
        by_cases hm : p ∈ h.members
        · simpa [begin, hm, Share.fault?, shareOf, hw, hj, Job.peer, Work.share] using hc.symm
        · simpa [begin, hm, Share.fault?, shareOf, hw, hj, Job.peer, Work.share] using hc.symm
      | shut p => simpa [begin, Share.fault?, shareOf, hw, hj, Job.peer, Work.share] using hc.symm
  | sending q rest d =>
    simp only [hw, Work.peer?, Option.some.injEq] at hp
    subst hp
    simp only [hw] at hs
    obtain ⟨l, hl, hs⟩ := Option.bind_eq_some_iff.1 hs
    exact fault_write hl hw hs
  | shutting q d =>
    simp only [hw, Work.peer?, Option.some.injEq] at hp
    subst hp
    simp only [hw] at hs
    cases hl : h.links[q]? with
    | none =>
      simp only [hl] at hs
      nomatch hs
    | some l =>
      simp only [hl] at hs
      obtain ⟨_, heq⟩ := Option.ite_none_right_eq_some.1 hs
      cases heq
      simp [Share.fault?, shareOf, hw, Work.share]

/-- When a courier gives up what it does for a peer, what goes wrong is what goes wrong for this peer. -/
theorem fault_expire {h h' : Hub δ} {t : Nat} {c c' : Courier} {p : Peer} (hp : c.work.peer? = some p)
    (hs : h.expireCourier t c = some (c', h')) :
    c'.failure? = ((h.shareOf t c p).fault? h.patience .expire).or c.failure? := by
  unfold expireCourier at hs
  cases hw : c.work with
  | idle =>
    simp only [hw] at hs
    nomatch hs
  | sending q rest d =>
    simp only [hw, Work.peer?, Option.some.injEq] at hp
    simp only [hw] at hs
    obtain ⟨_, heq⟩ := Option.ite_none_right_eq_some.1 hs
    cases heq
    simp [Share.fault?, shareOf, hw, hp, Work.share, Courier.giveUp]
  | shutting q d =>
    simp only [hw, Work.peer?, Option.some.injEq] at hp
    simp only [hw] at hs
    obtain ⟨_, heq⟩ := Option.ite_none_right_eq_some.1 hs
    cases heq
    simp [Share.fault?, shareOf, hw, hp, Work.share]

/-- Every step of a courier is for some peer. -/
theorem CourierStep.focus {h h' : Hub δ} {t : Nat} {c c' : Courier} (hs : CourierStep h t c c' h') :
    ∃ p, c.focus? = some p := by
  unfold Courier.focus?
  cases hs with
  | find hw hj | miss hw hj | queue hw hj | dismiss hw hj | skip hw hj | approach hw hj =>
    rw [hw, hj]
    exact ⟨_, rfl⟩
  | put hw | complete hw | snap hw | shut hw | late hw | lapse hw =>
    rw [hw]
    exact ⟨_, rfl⟩

/-- A courier that has not finished is that of the errand that was begun last. -/
theorem task_of_current {h : Hub δ} (hnone : ∀ t p, ¬h.Conducts t p) (hfin : h.current.isFinished = false) :
    ∃ t c, t + 1 = h.tasks.length ∧ h.tasks[t]? = some (.errand c) ∧ h.current = c := by
  cases ha : h.tasks[h.latest]? with
  | none =>
    rw [current, courier?, ha] at hfin
    cases hfin
  | some a =>
    cases a with
    | handler x => exact absurd (conducts_of_handler ha) (hnone _ _)
    | errand c =>
      have hlt := (List.getElem?_eq_some_iff.1 ha).1
      have ht : h.latest + 1 = h.tasks.length := by
        rw [latest] at hlt ⊢
        omega
      exact ⟨_, c, ht, ha, current_of_task ht ha⟩

section

variable [Service δ] {h h' : Hub δ} {p : Peer}

/-- A move that is in turn is a step of the current courier. -/
theorem step_of_move {m : Move} (hnone : ∀ t p, ¬h.Conducts t p) (hturn : h.isInTurn (.move m) = true)
    (he : h.after? (.move m) = some h') : ∃ t h₂, CourierStep h t h.current h'.current h₂ := by
  cases eventStep_of_after? he with
  | @move m a b h₂ ha hs =>
    have ht : m.task + 1 = h.tasks.length := by simpa [isInTurn] using hturn
    cases hs with
    | errand hc =>
      rw [current_of_task ht ha, current_of_task (by rw [setTask, List.length_set, hc.tasks_eq, ht])
        (tasks_setTask_self _ (hc.tasks_eq ▸ ha))]
      exact ⟨_, _, hc⟩
    | read | curtail | lose | heed | execute | crash | convey | finish => exact absurd (conducts_of_handler ha) (hnone _ _)

/-- What happens meanwhile leaves the current courier as it is, or is a step of it. -/
theorem current_after? {e : Event} (hnone : ∀ t p, ¬h.Conducts t p) (hm : e.isMeanwhile = true)
    (hturn : h.isInTurn e = true) (he : h.after? e = some h') :
    h'.current = h.current ∨ ∃ t h₂, CourierStep h t h.current h'.current h₂ := by
  cases e with
  | move m => exact Or.inr (step_of_move hnone hturn he)
  | client | wait =>
    cases he
    exact Or.inl rfl
  | attach | serve | broadcast | sendTo | close | closeAll | cutShort | halt | tick => nomatch hm

/-- When the courier that is there for one peer moves, what goes wrong for this peer is what goes wrong. -/
theorem failure_move {m : Move} (hnone : ∀ t p, ¬h.Conducts t p) (hturn : h.isInTurn (.move m) = true)
    (hfor : h.current.Serves p []) (he : h.after? (.move m) = some h') :
    h'.current.failure? =
      match h.concern? p (.move m) with
      | none => h.current.failure?
      | some a => ((h.share p).fault? h.patience a).or h.current.failure? := by
  have ht : m.task + 1 = h.tasks.length := by simpa [isInTurn] using hturn
  obtain ⟨a, ha⟩ : ∃ a, h.tasks[m.task]? = some a := ⟨_, List.getElem?_eq_getElem (by omega)⟩
  cases a with
  | handler x => exact absurd (conducts_of_handler ha) (hnone m.task x.peer)
  | errand c =>
    have hcurrent := current_of_task ht ha
    have hshare := share_of_task ht ha p
    rw [hcurrent] at hfor
    cases m with
    | heed t =>
      simp only [Move.task] at ha
      simp [after?, move?, ha] at he
    | advance t grant =>
      simp only [Move.task] at ha ht
      simp only [after?, move?, ha] at he
      obtain ⟨⟨c', h₁⟩, hs, rfl⟩ := Option.map_eq_some_iff.1 he
      obtain ⟨q, hq⟩ := (courierStep_of_advanceCourier hs).focus
      obtain rfl := hfor.focus_eq hq
      have htasks := (courierStep_of_advanceCourier hs).tasks_eq
      rw [current_of_task (by rw [setTask, List.length_set, htasks, ht]) (tasks_setTask_self _ (htasks ▸ ha)),
        fault_advance hq hs, hshare, concern?, hcurrent, if_pos hq]
      rfl
    | expire t =>
      simp only [Move.task] at ha ht
      simp only [after?, move?, ha] at he
      obtain ⟨⟨c', h₁⟩, hs, rfl⟩ := Option.map_eq_some_iff.1 he
      obtain ⟨q, hq, hfocus⟩ := focus_of_expire hs
      obtain rfl := hfor.focus_eq hfocus
      have htasks := (courierStep_of_expireCourier hs).tasks_eq
      rw [current_of_task (by rw [setTask, List.length_set, htasks, ht]) (tasks_setTask_self _ (htasks ▸ ha)),
        fault_expire hq hs, hshare, concern?, hcurrent, if_pos hq]
      rfl

/-- What goes wrong for the one peer that a frame is sent to is what goes wrong. -/
theorem failure_after? {e : Event} (hnone : ∀ t p, ¬h.Conducts t p) (hm : e.isMeanwhile = true)
    (hturn : h.isInTurn e = true) (hfor : h.current.Serves p []) (he : h.after? e = some h') :
    h'.current.failure? =
      match h.concern? p e with
      | none => h.current.failure?
      | some a => ((h.share p).fault? h.patience a).or h.current.failure? := by
  cases e with
  | move m => exact failure_move hnone hturn hfor he
  | client q act =>
    cases he
    by_cases hq : q = p
    · rw [concern?, if_pos hq]
      rfl
    · rw [concern?, if_neg hq]
      rfl
  | wait ms =>
    cases he
    by_cases hp : h.current.work.peer? = some p
    · rw [concern?, if_pos hp]
      rfl
    · rw [concern?, if_neg hp]
      rfl
  | attach | serve | broadcast | sendTo | close | closeAll | cutShort | halt | tick => cases hm

/-- What went wrong last for a peer, if anything did. -/
def mishap? (h : Hub δ) (p : Peer) (es : List Event) : Option ExchangeError :=
  ((h.concerns p es).foldl (Share.stepWith h.patience) (h.share p, none)).2

/-- What a courier says in the end that is there for one peer only is what went wrong for this peer. -/
theorem failure_run {es : List Event} {log more : List Mark} {failure? : Option ExchangeError} (ho : h.Orderly log)
    (hnone : ∀ t p, ¬h.Conducts t p) (hes : ∀ e ∈ es, e.isMeanwhile = true) (hturn : h.allInTurn es = true)
    (hfor : h.current.Serves p []) (hfailure : h.current.failure? = failure?) (hr : h.run? es = some (h', more)) :
    h'.current.failure? = ((h.concerns p es).foldl (Share.stepWith h.patience) (h.share p, failure?)).2 := by
  induction es generalizing h log more failure? with
  | nil =>
    cases hr
    exact hfailure
  | cons e rest ih =>
    obtain ⟨h₁, more₁, hfirst, he, hrest, hr₁⟩ := run_cons_in_turn hturn hr
    have hm := hes e List.mem_cons_self
    have hfailure₁ := failure_after? hnone hm hfirst hfor he
    have hfor₁ : h₁.current.Serves p [] := by
      rcases current_after? hnone hm hfirst he with hsame | ⟨t, h₂, hs⟩
      · rw [hsame]
        exact hfor
      · obtain ⟨q, hq⟩ := hs.focus
        exact hfor.step (hfor.focus_eq hq ▸ hq) hs
    rw [ih (orderly_after? ho he) (conducts_of_isInTurn hnone hfirst he) (fun e he => hes e (List.mem_cons_of_mem _ he))
      hrest hfor₁ hfailure₁ hr₁, patience_after? he]
    rcases concern_cases ho hnone hm hfirst he p rest with ⟨ha, hsame, heq⟩ | ⟨a, -, ha, -, hstep, heq⟩
    · rw [heq, ha, hsame, hfailure]
    · rw [heq, ha, hstep, hfailure]
      rfl

end

end Hub

end Peripheral
