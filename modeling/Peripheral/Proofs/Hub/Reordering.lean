import Mathlib.Data.List.Dedup
import Peripheral.Proofs.Hub.Independence

/-!
# Another order

Whatever happened while an operation was carried out, the same can happen at every peer when the peers are addressed in another
order: what concerned a peer is made to happen again while the courier serves this peer, one peer after the other
(`exists_serving`, `exists_round`). So operations that were carried out one after another can be carried out with the peers in
any other order; the same happens at every peer, every peer comes out the same, and the same is returned
(`performAll_reordered`).
-/

namespace Peripheral

/-- Whose client acts. -/
def Hub.Event.client? : Hub.Event → Option Peer
  | .client p _ => some p
  | _ => none

/-- An operation, and the same operation with the peers perhaps in another order. -/
inductive Operation.Reorders : Operation → Operation → Prop
  | register (link : Link) : Reorders (.register link) (.register link)
  | sendTo (p : Peer) (f : Frame) : Reorders (.sendTo p f) (.sendTo p f)
  | broadcast {order order' : List Peer} (f : Frame) : order'.Perm order → Reorders (.broadcast order f) (.broadcast order' f)
  | close (p : Peer) : Reorders (.close p) (.close p)
  | closeAll {order order' : List Peer} : order'.Perm order → Reorders (.closeAll order) (.closeAll order')

/-- Whatever the order, the form is the same. -/
theorem Operation.Reorders.form_eq {op op' : Operation} (hr : op.Reorders op') : op.form = op'.form := by
  cases hr <;> rfl

namespace Hub

variable {δ : Type} [Service δ] {h h' h'' : Hub δ} {p : Peer} {later : List Job} {a : Share.Act} {acts : List Share.Act}
  {es : List Event}

/-! ## What happens to one peer -/

/-- What concerned a peer could happen to its share. -/
theorem admitsAll_run {log more : List Mark} (ho : h.Orderly log) (hnone : ∀ t p, ¬h.Conducts t p)
    (hes : ∀ e ∈ es, e.isMeanwhile = true) (hturn : h.allInTurn es = true) (hr : h.run? es = some (h', more)) :
    (h.share p).admitsAll h.patience (h.concerns p es) = true := by
  induction es generalizing h log more with
  | nil => rfl
  | cons e rest ih =>
    obtain ⟨h₁, more₁, hfirst, he, hrest, hr₁⟩ := run_cons_in_turn hturn hr
    have hall := ih (orderly_after? ho he) (conducts_of_isInTurn hnone hfirst he)
      (fun e he => hes e (List.mem_cons_of_mem _ he)) hrest hr₁
    rw [patience_after? he] at hall
    rcases concern_cases ho hnone (hes e List.mem_cons_self) hfirst he p rest with
      ⟨-, hsame, heq⟩ | ⟨a, -, -, hadmits, hstep, heq⟩
    · rwa [heq, ← hsame]
    · rw [heq, Share.admitsAll, hadmits, ← hstep, hall]
      rfl

omit [Service δ] in
/-- The jobs for the peer that is served come first. -/
theorem jobs_of_serves (hc : h.current.Serves p later) :
    h.current.jobs = (h.share p).jobs ++ later := by
  obtain ⟨mine, heq, hmine⟩ := hc.jobs
  have hfirst : mine.filter (·.peer == p) = mine := List.filter_eq_self.2 fun j hj => beq_iff_eq.2 (hmine j hj)
  have hrest : later.filter (·.peer == p) = [] :=
    List.filter_eq_nil_iff.2 fun j hj heq => hc.others j hj (beq_iff_eq.1 heq)
  rw [share, shareOf, heq, List.filter_append, hfirst, hrest, List.append_nil]

omit [Service δ] in
/-- The jobs in the share of a peer are for this peer. -/
theorem peer_of_share_jobs {j : Job} (hj : j ∈ (h.share p).jobs) : j.peer = p :=
  beq_iff_eq.1 (List.mem_filter.1 hj).2

omit [Service δ] in
/-- If nothing is being done for the peer that is served, nothing is being done at all. -/
theorem work_of_serves (hc : h.current.Serves p later) (hw : (h.share p).work = .idle) :
    h.current.work = .idle := by
  simp only [share, shareOf] at hw
  cases hwork : h.current.work with
  | idle => rfl
  | sending q | shutting q =>
    rw [hwork, Work.share, if_pos (hc.work q (by rw [hwork]; rfl))] at hw
    cases hw

omit [Service δ] in
/-- If something is being done for a peer, then the courier is at work for it. -/
theorem peer_of_share_work (hw : (h.share p).work ≠ .idle) : h.current.work.peer? = some p := by
  simp only [share, shareOf] at hw
  cases hwork : h.current.work with
  | idle =>
    rw [hwork] at hw
    exact absurd rfl hw
  | sending q | shutting q =>
    rw [hwork, Work.share] at hw
    exact congrArg some (Decidable.byContradiction fun hq => hw (if_neg hq))

omit [Service δ] in
/-- If there is something to go on with for the peer that is served, then the courier has it in mind. -/
theorem focus_of_serves {grant : Nat} (hc : h.current.Serves p later)
    (ha : (h.share p).admits (.advance grant) = true) : h.current.focus? = some p := by
  by_cases hw : (h.share p).work = .idle
  · have hidle := work_of_serves hc hw
    have hjobs := jobs_of_serves hc
    cases hj : (h.share p).jobs with
    | nil => simp [Share.admits, hw, hj] at ha
    | cons j jobs =>
      have hpeer : j.peer = p := peer_of_share_jobs (hj ▸ List.mem_cons_self)
      rw [hj, List.cons_append] at hjobs
      rw [Courier.focus?, hidle, hjobs, List.head?_cons, Option.map_some, hpeer]
  · exact Courier.focus_of_peer (peer_of_share_work hw)

/-- An event that is something to the peer that is served, and is no concern of the others. -/
structure Enacts (h : Hub δ) (p : Peer) (later : List Job) (a : Share.Act) (e : Event) (h' : Hub δ) : Prop where
  isMeanwhile : e.isMeanwhile = true
  inTurn : h.isInTurn e = true
  after : h.after? e = some h'
  own : h.concern? p e = some a
  others : ∀ q, q ≠ p → h.concern? q e = none
  serves : h'.current.Serves p later

/-- Events that are something to the peer that is served, one after the other, and are no concern of the others. -/
structure Serving (h : Hub δ) (p : Peer) (later : List Job) (acts : List Share.Act) (es : List Event) (h' : Hub δ) :
    Prop where
  meanwhile : h.Meanwhile es h'
  own : h.concerns p es = acts
  others : ∀ q, q ≠ p → h.concerns q es = []
  serves : h'.current.Serves p later

/-- One more event comes first. -/
theorem Enacts.serving {e : Event} (he : h.Enacts p later a e h') (hs : h'.Serving p later acts es h'') :
    h.Serving p later (a :: acts) (e :: es) h'' where
  meanwhile := (Meanwhile.single he.isMeanwhile he.inTurn he.after).append hs.meanwhile
  own := by
    rw [concerns, he.own, he.after, Option.map_some, Option.getD_some, hs.own]
    rfl
  others q hq := by
    rw [concerns, he.others q hq, he.after, Option.map_some, Option.getD_some, hs.others q hq]
    rfl
  serves := hs.serves

/-- What the courier can do for the peer that it serves, it can do in a move. -/
theorem exists_move {m : Nat → Move} (hnone : ∀ t p, ¬h.Conducts t p)
    (hc : h.current.Serves p later) (hp : h.current.focus? = some p) (htask : ∀ t, (m t).task = t)
    (hconcern : ∀ t, h.Concerns p (.move (m t)) a) (ha : (h.share p).admits a = true) :
    ∃ t h', h.isInTurn (.move (m t)) = true ∧ h.after? (.move (m t)) = some h' ∧ h'.current.Serves p later := by
  have hfin : h.current.isFinished = false := by
    refine Bool.eq_false_iff.2 fun hfin => ?_
    simp only [Courier.isFinished, Bool.and_eq_true, beq_iff_eq, List.isEmpty_iff] at hfin
    rw [Courier.focus?, hfin.1, hfin.2] at hp
    cases hp
  obtain ⟨t, -, ht, -, -⟩ := task_of_current hnone hfin
  have hturn : h.isInTurn (.move (m t)) = true := by rw [isInTurn, htask, beq_iff_eq, ht]
  obtain ⟨h', he⟩ := Option.isSome_iff_exists.1 (((hconcern t).isSome_after? hnone hturn).trans ha)
  obtain ⟨t', h₂, hs⟩ := step_of_move hnone hturn he
  exact ⟨t, h', hturn, he, hc.step hp hs⟩

/-- Whatever can happen to the peer that is served can be made to happen. -/
theorem exists_event (hnone : ∀ t p, ¬h.Conducts t p) (hc : h.current.Serves p later)
    (ha : (h.share p).admits a = true) : ∃ e h', h.Enacts p later a e h' := by
  have apart : ∀ {x : Option Peer} {q : Peer}, x = some p → q ≠ p → x ≠ some q := fun hx hq heq =>
    hq (Option.some.inj (heq.symm.trans hx))
  cases a with
  | enter | begin => cases ha
  | use act => exact ⟨.client p act, _, rfl, rfl, rfl, if_pos rfl, fun q hq => if_neg (Ne.symm hq), hc⟩
  | wait ms =>
    have hp : h.current.work.peer? = some p := peer_of_share_work (by simpa [Share.admits] using ha)
    exact ⟨.wait ms, _, rfl, rfl, rfl, if_pos hp, fun q hq => if_neg (apart hp hq), hc⟩
  | advance grant =>
    have hp := focus_of_serves hc ha
    obtain ⟨t, h', hturn, he, hserves⟩ :=
      exists_move (m := (.advance · grant)) hnone hc hp (fun _ => rfl) (fun _ => .advance hp) ha
    exact ⟨_, h', rfl, hturn, he, if_pos hp, fun q hq => if_neg (apart hp hq), hserves⟩
  | expire =>
    have hp : h.current.work.peer? = some p := peer_of_share_work fun hw => by simp [Share.admits, hw] at ha
    obtain ⟨t, h', hturn, he, hserves⟩ :=
      exists_move (m := .expire) hnone hc (Courier.focus_of_peer hp) (fun _ => rfl) (fun _ => .expire hp) ha
    exact ⟨_, h', rfl, hturn, he, if_pos hp, fun q hq => if_neg (apart hp hq), hserves⟩

/-- Whatever can happen to the peer that is served, one thing after the other, can be made to happen. -/
theorem exists_serving (ho : ∃ log, h.Orderly log) (hnone : ∀ t p, ¬h.Conducts t p) (hc : h.current.Serves p later)
    (ha : (h.share p).admitsAll h.patience acts = true) : ∃ es h', h.Serving p later acts es h' := by
  induction acts generalizing h with
  | nil => exact ⟨[], h, .refl h, rfl, fun _ _ => rfl, hc⟩
  | cons a acts ih =>
    obtain ⟨log, ho⟩ := ho
    rw [Share.admitsAll, Bool.and_eq_true] at ha
    obtain ⟨e, h₁, he⟩ := exists_event hnone hc ha.1
    have hshare := share_after? ho hnone he.inTurn he.after p
    rw [he.own] at hshare
    have hrest : (h₁.share p).admitsAll h₁.patience acts = true := by
      rw [patience_after? he.after, hshare]
      exact ha.2
    obtain ⟨es, h', hs⟩ :=
      ih ⟨_, orderly_after? ho he.after⟩ (conducts_of_isInTurn hnone he.inTurn he.after) he.serves hrest
    exact ⟨e :: es, h', he.serving hs⟩

/-- What serving a peer leaves of the share of each peer. -/
theorem Serving.share_eq (hs : h.Serving p later acts es h') (ho : ∃ log, h.Orderly log)
    (hnone : ∀ t p, ¬h.Conducts t p) :
    h'.share p = acts.foldl (Share.step h.patience) (h.share p) ∧ ∀ q, q ≠ p → h'.share q = h.share q := by
  obtain ⟨log, ho⟩ := ho
  obtain ⟨more, hr⟩ := hs.meanwhile.leads
  have hshare := share_run ho hnone hs.meanwhile.inTurn hr
  refine ⟨by rw [hshare p, hs.own], fun q hq => ?_⟩
  rw [hshare q, hs.others q hq]
  rfl

/-! ## What happens to all peers -/

/-- When peers are served one after the other, whatever can happen to each of them can be made to happen, until nothing is left
to be done. -/
theorem exists_round {acts : Peer → List Share.Act} {order : List Peer} (hn : order.Nodup) (ho : ∃ log, h.Orderly log)
    (hnone : ∀ t p, ¬h.Conducts t p) (hw : h.current.work = .idle)
    (hj : h.current.jobs = order.flatMap fun p => (h.share p).jobs)
    (ha : ∀ p ∈ order, (h.share p).admitsAll h.patience (acts p) = true)
    (hd : ∀ p ∈ order, ((acts p).foldl (Share.step h.patience) (h.share p)).IsDone) :
    ∃ es h', h.Meanwhile es h' ∧ (∀ p, h.concerns p es = if p ∈ order then acts p else []) ∧
      h'.current.isFinished = true := by
  induction order generalizing h with
  | nil =>
    refine ⟨[], h, .refl h, fun _ => rfl, ?_⟩
    rw [Courier.isFinished, hw, hj]
    rfl
  | cons p rest ih =>
    obtain ⟨hp, hn⟩ := List.nodup_cons.1 hn
    -- The jobs for this peer come first. Once they are done, what is left is what there was to do for the others.
    have hserves : h.current.Serves p (rest.flatMap fun q => (h.share q).jobs) := by
      refine ⟨?_, ⟨(h.share p).jobs, by rw [hj, List.flatMap_cons], fun j => peer_of_share_jobs⟩, ?_⟩
      · intro q hq
        rw [hw] at hq
        cases hq
      · intro j hj heq
        obtain ⟨q, hq, hjq⟩ := List.mem_flatMap.1 hj
        exact hp ((peer_of_share_jobs hjq).symm.trans heq ▸ hq)
    obtain ⟨es, h₁, hs⟩ := exists_serving ho hnone hserves (ha p List.mem_cons_self)
    obtain ⟨hshare, hothers⟩ := hs.share_eq ho hnone
    have hdone := hd p List.mem_cons_self
    rw [← hshare] at hdone
    have hkept : ∀ q ∈ rest, h₁.share q = h.share q := fun q hq => hothers q fun heq => hp (heq ▸ hq)
    have hpatience := hs.meanwhile.same.2.2
    have hjobs := jobs_of_serves hs.serves
    rw [hdone.jobs, List.nil_append] at hjobs
    obtain ⟨more, h', hm, hconcerns, hfin⟩ := ih hn (hs.meanwhile.keeps_orderly ho) (hs.meanwhile.keeps_alone hnone)
      (work_of_serves hs.serves hdone.work) (hjobs.trans (List.flatMap_congr fun q hq => by rw [hkept q hq]))
      (fun q hq => by rw [hpatience, hkept q hq]; exact ha q (List.mem_cons_of_mem _ hq))
      (fun q hq => by rw [hpatience, hkept q hq]; exact hd q (List.mem_cons_of_mem _ hq))
    obtain ⟨log, hr⟩ := hs.meanwhile.leads
    refine ⟨es ++ more, h', hs.meanwhile.append hm, fun q => ?_, hfin⟩
    rw [concerns_append hr q, hconcerns q]
    by_cases hq : q = p
    · subst hq
      rw [hs.own, if_neg hp, if_pos List.mem_cons_self, List.append_nil]
    · rw [hs.others q hq, List.nil_append]
      simp [hq]

/-- Jobs for different peers are those for the first of them, those for the second, and so on. -/
theorem flatMap_jobs {jobs : List Job} (hn : (jobs.map Job.peer).Nodup) :
    ((jobs.map Job.peer).flatMap fun p => jobs.filter (·.peer == p)) = jobs := by
  induction jobs with
  | nil => rfl
  | cons j jobs ih =>
    rw [List.map_cons] at hn
    obtain ⟨hj, hn⟩ := List.nodup_cons.1 hn
    have hown : (j :: jobs).filter (·.peer == j.peer) = [j] := by
      rw [List.filter_cons, if_pos (beq_self_eq_true _), List.filter_eq_nil_iff.2]
      exact fun k hk heq => hj (beq_iff_eq.1 heq ▸ List.mem_map_of_mem hk)
    have hothers : ∀ p ∈ jobs.map Job.peer, (j :: jobs).filter (·.peer == p) = jobs.filter (·.peer == p) :=
      fun p hp => List.filter_cons_of_neg fun heq => hj (beq_iff_eq.1 heq ▸ hp)
    rw [List.map_cons, List.flatMap_cons, hown, List.flatMap_congr hothers, ih hn]
    rfl

omit [Service δ] in
/-- Where the client of a peer does not act, there is no act of it. -/
theorem use?_eq_none {e : Event} (he : e.client? ≠ some p) : e.use? p = none := by
  cases e with
  | client q act => exact if_neg fun hq => he (congrArg some hq)
  | _ => rfl

/-- Where there is nothing to be done for a peer and its client does nothing, nothing concerns the peer. -/
theorem Carried.concerns_eq_nil (hc : h.Carried es h') (hd : (h.share p).IsDone)
    (hp : p ∉ es.filterMap Event.client?) : h.concerns p es = [] := by
  obtain ⟨log, ho⟩ := hc.orderly
  obtain ⟨more, hr⟩ := hc.leads
  have huses := Share.uses_of_isDone hd (admitsAll_run ho hc.alone hc.meanwhile hc.inTurn hr)
  have hnone : (h.concerns p es).filterMap Share.Act.use? = [] := by
    rw [hc.uses, List.filterMap_eq_nil_iff]
    exact fun e he => use?_eq_none fun heq => hp (List.mem_filterMap.2 ⟨e, he, heq⟩)
  refine List.eq_nil_iff_forall_not_mem.2 fun a ha => ?_
  obtain ⟨act, rfl⟩ := huses a ha
  exact absurd (List.filterMap_eq_nil_iff.1 hnone _ ha) (Option.some_ne_none act)

/-- The peers for which there is something to be done, and the others whose clients act. -/
def attendance (h : Hub δ) (es : List Event) : List Peer :=
  h.current.jobs.map Job.peer ++ (es.filterMap Event.client?).dedup.filter (· ∉ h.current.jobs.map Job.peer)

omit [Service δ] in
/-- Without a job for it, there is nothing to be begun for a peer. -/
theorem share_jobs_eq_nil (hp : p ∉ h.current.jobs.map Job.peer) : (h.share p).jobs = [] :=
  List.filter_eq_nil_iff.2 fun _ hj heq => hp (beq_iff_eq.1 heq ▸ List.mem_map_of_mem hj)

namespace Poised

omit [Service δ] in
/-- Nobody attends twice. -/
theorem nodup_attendance (hp : h.Poised) : (h.attendance es).Nodup := by
  refine List.nodup_append.2 ⟨hp.nodup, (List.nodup_dedup _).filter _, ?_⟩
  rintro p hin q hq rfl
  exact absurd hin (by simpa using (List.mem_filter.1 hq).2)

omit [Service δ] in
/-- What is to be done is to be done for those who attend, one after the other. -/
theorem jobs_eq (hp : h.Poised) : h.current.jobs = (h.attendance es).flatMap fun p => (h.share p).jobs := by
  have hothers : ((es.filterMap Event.client?).dedup.filter (· ∉ h.current.jobs.map Job.peer)).flatMap
      (fun p => (h.share p).jobs) = [] :=
    List.flatMap_eq_nil_iff.2 fun p hq => share_jobs_eq_nil (by simpa using (List.mem_filter.1 hq).2)
  rw [attendance, List.flatMap_append, hothers, List.append_nil]
  exact (flatMap_jobs hp.nodup).symm

/-- If another hub has the same to do for everybody, then nothing concerns those who do not attend. -/
theorem concerns_eq_nil {g g' : Hub δ} (hp : h.Poised) (hc : g.Carried es g') (hshare : g.share p = h.share p)
    (hout : p ∉ h.attendance es) : g.concerns p es = [] := by
  have hbusy : p ∉ h.current.jobs.map Job.peer := fun hin => hout (List.mem_append_left _ hin)
  refine hc.concerns_eq_nil ⟨?_, ?_⟩ fun hin => hout (List.mem_append_right _ ?_)
  · rw [hshare, share, shareOf, hp.work]
    rfl
  · rw [hshare, share_jobs_eq_nil hbusy]
  · exact List.mem_filter.2 ⟨List.mem_dedup.2 hin, by simpa using hbusy⟩

end Poised

/-- What happened in one hub can be made to happen in another in which there is the same to every peer, whatever the order of
the jobs. -/
theorem Carried.replay {g₁ : Hub δ} (hc : h.Carried es h') (ha : ∀ p, Alike p h g₁) (hp : g₁.Poised)
    (ho : ∃ log, g₁.Orderly log) (hnone : ∀ t p, ¬g₁.Conducts t p) :
    ∃ es' g', g₁.Carried es' g' ∧ ∀ p, g₁.concerns p es' = h.concerns p es := by
  obtain ⟨log, horderly⟩ := hc.orderly
  obtain ⟨more, hr⟩ := hc.leads
  have hadmits : ∀ p ∈ g₁.attendance es, (g₁.share p).admitsAll g₁.patience (h.concerns p es) = true := fun p _ => by
    rw [← (ha p).share_eq, ← (ha p).patience_eq]
    exact admitsAll_run horderly hc.alone hc.meanwhile hc.inTurn hr
  have hdone : ∀ p ∈ g₁.attendance es, ((h.concerns p es).foldl (Share.step g₁.patience) (g₁.share p)).IsDone :=
      fun p _ => by
    rw [← (ha p).share_eq, ← (ha p).patience_eq]
    exact hc.isDone p
  obtain ⟨es', g', hm, hconcerns, hfin⟩ :=
    exists_round hp.nodup_attendance ho hnone hp.work hp.jobs_eq hadmits hdone
  refine ⟨es', g', ⟨hm, ho, hnone, hfin⟩, fun p => ?_⟩
  rw [hconcerns p]
  split
  · rfl
  · rename_i hout
    exact (hp.concerns_eq_nil hc (ha p).share_eq hout).symm

/-! ## Operations in another order -/

variable {g : Hub δ} {op op' : Operation} {deed : Deed}

omit [Service δ] in
/-- A peer arrives with the same link in both hubs. -/
theorem Alike.arrival_eq (ha : Alike p h g) (hr : op.Reorders op') : h.arrival? p op = g.arrival? p op' := by
  cases hr with
  | register link => rw [arrival?, arrival?, ha.links_length]
  | sendTo | broadcast | close | closeAll => rfl

/-- Where an operation can begin, it can begin in another order in a hub in which there is the same to every peer. -/
theorem begins_reordered {h₁ : Hub δ} (hr : op.Reorders op') (ha : ∀ p, Alike p h g) (hh : h.AtRest) (hg : g.AtRest)
    (he : h.after? op.event = some h₁) : ∃ g₁, g.after? op'.event = some g₁ := by
  obtain ⟨log, ho⟩ := hh.orderly
  obtain ⟨log', ho'⟩ := hg.orderly
  have hmembers : h.members.Perm g.members :=
    (List.perm_ext_iff_of_nodup ho.members_nodup ho'.members_nodup).2 fun p => (ha p).member_iff
  cases hr with
  | register link =>
    obtain ⟨hf, -⟩ := Option.ite_none_right_eq_some.1 he
    exact ⟨_, if_pos hf⟩
  | sendTo | close => exact ⟨_, rfl⟩
  | broadcast _ horder | closeAll horder =>
    obtain ⟨hperm, -⟩ := Option.ite_none_right_eq_some.1 he
    exact ⟨_, if_pos (List.isPerm_iff.2 ((horder.trans (List.isPerm_iff.1 hperm)).trans hmembers))⟩

/-- Whatever happened while an operation was carried out, the same can happen at every peer while it is carried out in another
order; then it says the same, and there is the same to every peer. -/
theorem perform_reordered (hr : op.Reorders op') (ha : ∀ p, Alike p h g) (hh : h.AtRest) (hg : g.AtRest)
    (hp : h.perform? op es = some (h', deed)) :
    ∃ es' g' deed', g.perform? op' es' = some (g', deed') ∧ (∀ p, g.course p op' es' = h.course p op es) ∧
      deed'.answer = deed.answer ∧ ∀ p, Alike p h' g' := by
  obtain ⟨h₁, log, he, hes, hturn, hrun, hfin, -⟩ := perform?_eq_some_iff.1 hp
  obtain ⟨g₁, he'⟩ := begins_reordered hr ha hh hg he
  obtain ⟨past, ho⟩ := hg.orderly
  have ha₁ : ∀ p, Alike p h₁ g₁ := fun p => (ha p).begun hh hg hr.form_eq ((ha p).arrival_eq hr) he he'
  have hc := carried hh he hes hturn hrun hfin
  obtain ⟨es', g', hc', hconcerns⟩ := hc.replay ha₁ (poised_of_begun hg he') ⟨_, orderly_after? ho he'⟩
    (conducts_of_isInTurn hg.alone (by cases op' <;> rfl) he')
  obtain ⟨more, hrun'⟩ := hc'.leads
  have hp' : g.perform? op' es' = some (g', g.deed g' op') :=
    perform?_eq_some_iff.2 ⟨g₁, more, he', hc'.meanwhile, hc'.inTurn, hrun', hc'.finished, rfl⟩
  have hend : ∀ p, Alike p h' g' ∧ h.mishapIn? p op es = g.mishapIn? p op' es' := fun p => by
    rw [mishapIn?, mishapIn?, he, he']
    exact (ha₁ p).carried hc hc' (by rw [hconcerns p])
  refine ⟨es', g', _, hp', fun p => ?_, (answer_eq (ha 0).links_length hh hg hr.form_eq hp hp' hend).symm, fun p => (hend p).1⟩
  rw [course, course, he, he', Option.map_some, Option.map_some, hconcerns p, (ha p).arrival_eq hr]

/-- Operations that were carried out one after another can be carried out with the peers in any other order, so that the same
happens at every peer; then they say the same, and there is the same to every peer. -/
theorem performAll_reordered {steps : List (Operation × List Event)} {ops : List Operation} {deeds : List Deed}
    (hops : List.Forall₂ Operation.Reorders (steps.map (·.1)) ops) (ha : ∀ p, Alike p h g) (hh : h.AtRest) (hg : g.AtRest)
    (hr : h.performAll? steps = some (h', deeds)) :
    ∃ steps' g' deeds', steps'.map (·.1) = ops ∧ g.performAll? steps' = some (g', deeds') ∧
      (∀ p, g.courses p steps' = h.courses p steps) ∧ deeds'.map Deed.answer = deeds.map Deed.answer ∧
      ∀ p, Alike p h' g' := by
  induction steps generalizing h g ops deeds with
  | nil =>
    cases hops
    cases hr
    exact ⟨[], g, [], rfl, rfl, fun _ => rfl, rfl, ha⟩
  | cons x rest ih =>
    obtain ⟨⟨h₁, deed⟩, hx, hr⟩ := Option.bind_eq_some_iff.1 hr
    obtain ⟨⟨h₂, deeds₂⟩, hr₂, heq⟩ := Option.bind_eq_some_iff.1 hr
    cases heq
    cases hops with
    | @cons _ op' _ ops hop hops =>
      obtain ⟨es', g₁, deed', hy, hcourse, hanswer, ha₁⟩ := perform_reordered hop ha hh hg hx
      obtain ⟨steps', g', deeds', rfl, hr', hcourses, hanswers, ha'⟩ :=
        ih hops ha₁ (perform_outcome hh hx).1 (perform_outcome hg hy).1 hr₂
      refine ⟨(op', es') :: steps', g', deed' :: deeds', rfl, ?_, fun p => ?_, ?_, ha'⟩
      · rw [performAll?, hy]
        simp only [Option.bind_eq_bind, Option.bind_some, hr', Option.pure_def]
      · rw [courses, courses, hcourse p, hx, hy, Option.map_some, Option.map_some, Option.getD_some, Option.getD_some,
          hcourses p]
      · rw [List.map_cons, List.map_cons, hanswer, hanswers]

end Hub

end Peripheral
