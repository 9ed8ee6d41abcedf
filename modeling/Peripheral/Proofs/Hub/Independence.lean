import Peripheral.Proofs.Hub.Script
import Peripheral.Proofs.Hub.Sequence

/-!
# Peers are independent of each other

When operations are carried out one after another, what becomes of a peer depends on the operations and on what happens at
this peer, and on nothing else: not on the other peers, and not on the order in which the peers are addressed
(`alike_performAll`). If at every peer the same happens, then the operations say the same, too (`answers_performAll`). What
happens at a peer is its course, and its script is the course without the giving up: that follows from the rest, as long as the
stream to the peer is definite.
-/

namespace Peripheral

/-- The operation, whatever the link of a peer that arrives, and whatever the order in which the peers are addressed. -/
def Operation.form : Operation → Operation
  | register _ => .register (.fresh 0)
  | broadcast _ f => .broadcast [] f
  | closeAll _ => .closeAll []
  | op => op

/-- What an operation returns. -/
inductive Answer
  | number (p : Peer)
  | verdict (failure? : Option ExchangeError)
  | count (n : Nat)
  | done
  deriving DecidableEq

/-- What is returned for a deed: for a broadcast, how many peers were reached. -/
def Deed.answer : Deed → Answer
  | registered p => .number p
  | sent _ failure? => .verdict failure?
  | broadcast _ reached => .count reached.length
  | closed _ => .done
  | closedAll => .done

namespace Hub

variable {δ : Type}

/-! ## What happens at a peer -/

/-- What happens at a peer while an operation is carried out: whether it arrives, and what happens then. -/
structure Course where
  arrival? : Option Link
  acts : List Share.Act

/-- What happens at a peer, but for the giving up. -/
def Course.script (c : Course) : Course := { c with acts := Share.script c.acts }

section

variable [Service δ]

/-- The link with which a peer arrives, if it is the one that does. -/
def arrival? (h : Hub δ) (p : Peer) : Operation → Option Link
  | .register link => if h.links.length = p then some link else none
  | _ => none

/-- What happens at a peer while an operation is carried out. -/
def course (h : Hub δ) (p : Peer) (op : Operation) (es : List Event) : Course :=
  ⟨h.arrival? p op, ((h.after? op.event).map (·.concerns p es)).getD []⟩

/-- What happens at a peer while operations are carried out, one after the other. -/
def courses (h : Hub δ) (p : Peer) : List (Operation × List Event) → List Course
  | [] => []
  | x :: rest => h.course p x.1 x.2 :: ((h.perform? x.1 x.2).map (·.1.courses p rest)).getD []

/-- What went wrong last for a peer while an operation was carried out, if anything did. -/
def mishapIn? (h : Hub δ) (p : Peer) (op : Operation) (es : List Event) : Option ExchangeError :=
  (h.after? op.event).bind (·.mishap? p es)

/-- Whether the stream to a peer is definite while an operation is carried out. -/
def isDefiniteIn (h : Hub δ) (p : Peer) (op : Operation) (es : List Event) : Bool :=
  (h.after? op.event).all (·.isDefinite p 0 es)

/-- Whether the stream to a peer is definite while operations are carried out, one after the other. -/
def isDefiniteAll (h : Hub δ) (p : Peer) : List (Operation × List Event) → Bool
  | [] => true
  | x :: rest => h.isDefiniteIn p x.1 x.2 && (h.perform? x.1 x.2).all (·.1.isDefiniteAll p rest)

/-- The same happens at a peer while two operations are carried out, and its stream is definite in both. -/
structure SameIn (p : Peer) (h : Hub δ) (op : Operation) (es : List Event) (g : Hub δ) (op' : Operation)
    (es' : List Event) : Prop where
  definite : h.isDefiniteIn p op es = true
  definite' : g.isDefiniteIn p op' es' = true
  script_eq : (h.course p op es).script = (g.course p op' es').script

/-- The same happens at a peer in two successions of operations, and its stream is definite in both. -/
structure SameAll (p : Peer) (h : Hub δ) (steps : List (Operation × List Event)) (g : Hub δ)
    (steps' : List (Operation × List Event)) : Prop where
  definite : h.isDefiniteAll p steps = true
  definite' : g.isDefiniteAll p steps' = true
  scripts_eq : (h.courses p steps).map Course.script = (g.courses p steps').map Course.script

variable {h h₁ h' g g₁ : Hub δ} {p : Peer} {op : Operation} {es : List Event}

/-- The same happens in the first operations, and in the others. -/
theorem SameAll.cons {x y : Operation × List Event} {rest rest' : List (Operation × List Event)} {deed deed' : Deed}
    (hs : SameAll p h (x :: rest) g (y :: rest')) (hx : h.perform? x.1 x.2 = some (h₁, deed))
    (hy : g.perform? y.1 y.2 = some (g₁, deed')) : SameIn p h x.1 x.2 g y.1 y.2 ∧ SameAll p h₁ rest g₁ rest' := by
  obtain ⟨hd, hd', hscripts⟩ := hs
  rw [isDefiniteAll, Bool.and_eq_true, hx, Option.all_some] at hd
  rw [isDefiniteAll, Bool.and_eq_true, hy, Option.all_some] at hd'
  rw [courses, courses, hx, hy] at hscripts
  obtain ⟨hfirst, hrest⟩ := List.cons.inj hscripts
  exact ⟨⟨hd.1, hd'.1, hfirst⟩, ⟨hd.2, hd'.2, hrest⟩⟩

/-- When the stream to a peer is definite in a run, what concerns the peer is clear. -/
theorem isClear_run {waited : Nat} {log more : List Mark} (ho : h.Orderly log) (hnone : ∀ t p, ¬h.Conducts t p)
    (hes : ∀ e ∈ es, e.isMeanwhile = true) (hturn : h.allInTurn es = true) (hr : h.run? es = some (h', more))
    (hd : h.isDefinite p waited es = true) : (h.share p).isClear h.patience waited (h.concerns p es) = true := by
  induction es generalizing h waited log more with
  | nil => rfl
  | cons e rest ih =>
    obtain ⟨h₁, more₁, hfirst, he, hrest, hr₁⟩ := run_cons_in_turn hturn hr
    rw [isDefinite, he, Option.all_some, Bool.and_eq_true] at hd
    have hclear := ih (orderly_after? ho he) (conducts_of_isInTurn hnone hfirst he)
      (fun e he => hes e (List.mem_cons_of_mem _ he)) hrest hr₁ hd.2
    rw [patience_after? he] at hclear
    rcases concern_cases ho hnone (hes e List.mem_cons_self) hfirst he p rest with
      ⟨ha, hsame, heq⟩ | ⟨a, hc, -, hadmits, hstep, heq⟩
    · rwa [heq, ← hsame, ← Nat.add_zero waited, ← delay_of_aside ha]
    · rw [← hc.delay_eq, hstep] at hclear
      rw [heq, Share.isClear, hadmits, hc.settles_eq, hd.1, hclear]
      rfl

/-- Nothing has been begun, and there is one job at most for each peer. -/
structure Poised (h : Hub δ) : Prop where
  work : h.current.work = .idle
  nodup : (h.current.jobs.map Job.peer).Nodup

omit [Service δ] in
/-- When an errand begins that has one job at most for each peer, nothing has been begun of it. -/
theorem poised_spawn (h : Hub δ) {jobs : List Job} (hn : (jobs.map Job.peer).Nodup) :
    (h.spawn (.errand (.start jobs))).Poised where
  work := by
    rw [current_spawn]
    rfl
  nodup := by
    rw [current_spawn]
    exact hn

/-- When an operation begins, nothing has been begun of what it has to do. -/
theorem poised_of_begun (hrest : h.AtRest) (he : h.after? op.event = some h₁) : h₁.Poised := by
  obtain ⟨log, ho⟩ := hrest.orderly
  have several : ∀ (job : Peer → Job) (order : List Peer), (∀ q, (job q).peer = q) → order.Perm h.members →
      ((order.map job).map Job.peer).Nodup := by
    intro job order hjob hperm
    rw [List.map_map, show Job.peer ∘ job = id from funext hjob, List.map_id]
    exact hperm.nodup_iff.2 ho.members_nodup
  cases op with
  | register link =>
    obtain ⟨-, heq⟩ := Option.ite_none_right_eq_some.1 he
    cases heq
    have hfin := hrest.finished
    simp only [Courier.isFinished, Bool.and_eq_true, beq_iff_eq, List.isEmpty_iff] at hfin
    have hcurrent : (h.register link).current = h.current := rfl
    refine ⟨hcurrent ▸ hfin.1, ?_⟩
    rw [hcurrent, hfin.2]
    exact List.nodup_nil
  | sendTo | close =>
    cases he
    exact poised_spawn _ (List.nodup_singleton _)
  | broadcast | closeAll =>
    obtain ⟨hperm, heq⟩ := Option.ite_none_right_eq_some.1 he
    cases heq
    exact poised_spawn _ (several _ _ (fun _ => rfl) (List.isPerm_iff.1 hperm))

omit [Service δ] in
/-- What is to be done for a peer when an operation begins is at most one thing. -/
theorem Poised.onTheWay (hp : h.Poised) (patience waited : Nat) (p : Peer) :
    Share.OnTheWay patience waited (h.share p) := by
  refine .of_idle (by rw [share, shareOf, hp.work]; rfl) ?_
  have hcount := List.nodup_iff_count_le_one.1 hp.nodup p
  rwa [List.count, List.countP_map, List.countP_eq_length_filter] at hcount

/-- When an operation is done, nothing is left to be done for any peer. -/
theorem Carried.isDone (hc : h₁.Carried es h') (p : Peer) :
    ((h₁.concerns p es).foldl (Share.step h₁.patience) (h₁.share p)).IsDone := by
  obtain ⟨hw, hj⟩ := share_of_isFinished hc.finished p
  rw [hc.share_eq] at hw hj
  exact ⟨hw, hj⟩

/-- Where the stream to a peer was definite, what concerned the peer was clear. -/
theorem Carried.isClear (hc : h₁.Carried es h') (hd : h₁.isDefinite p 0 es = true) :
    (h₁.share p).isClear h₁.patience 0 (h₁.concerns p es) = true := by
  obtain ⟨log, ho⟩ := hc.orderly
  obtain ⟨more, hr⟩ := hc.leads
  exact isClear_run ho hc.alone hc.meanwhile hc.inTurn hr hd

end

/-! ## Two hubs -/

section

variable [Service δ] {h h₁ h' g g₁ g' : Hub δ} {p : Peer} {f : Frame} {op op' : Operation} {es es' : List Event}

/-- Two hubs in which there is the same to a peer. -/
structure Alike (p : Peer) (h g : Hub δ) : Prop where
  share_eq : h.share p = g.share p
  links_length : h.links.length = g.links.length
  tasks_length : h.tasks.length = g.tasks.length
  patience_eq : h.patience = g.patience

omit [Service δ] in
/-- A peer is connected in both hubs or in neither. -/
theorem Alike.member_iff (ha : Alike p h g) : p ∈ h.members ↔ p ∈ g.members := by
  rw [← isMember_share, ← isMember_share, ha.share_eq]

omit [Service δ] in
/-- The jobs of an operation that addresses all peers are the same for a peer that is there in both hubs, or in neither. -/
theorem Alike.filter_jobs_eq {order order' : List Peer} (ha : Alike p h g) (job : Peer → Job)
    (hjob : ∀ q, (job q).peer = q) (hh : h.AtRest) (hg : g.AtRest) (ho : order.Perm h.members)
    (ho' : order'.Perm g.members) :
    (order.map job).filter (·.peer == p) = (order'.map job).filter (·.peer == p) := by
  obtain ⟨log, horderly⟩ := hh.orderly
  obtain ⟨log', horderly'⟩ := hg.orderly
  rw [filter_jobs job hjob (ho.nodup_iff.2 horderly.members_nodup),
    filter_jobs job hjob (ho'.nodup_iff.2 horderly'.members_nodup)]
  simp only [ho.mem_iff, ho'.mem_iff, ha.member_iff]

/-- The beginning of an operation is the same to a peer, whatever the order. -/
theorem Alike.concern_eq (ha : Alike p h g) (hh : h.AtRest) (hg : g.AtRest) (hop : op.form = op'.form)
    (harrival : h.arrival? p op = g.arrival? p op') (he : h.after? op.event = some h₁)
    (he' : g.after? op'.event = some g₁) :
    h.concern? p op.event = g.concern? p op'.event := by
  cases op with
  | register link =>
    cases op' with
    | register link' =>
      have henter := congrArg (Option.map Share.Act.enter) harrival
      simpa only [arrival?, Operation.event, concern?, apply_ite (Option.map Share.Act.enter), Option.map_some,
        Option.map_none] using henter
    | sendTo | broadcast | close | closeAll => cases hop
  | sendTo q f =>
    cases op' with
    | sendTo q' f' =>
      cases hop
      rw [Operation.event, concern?, concern?, ha.tasks_length]
    | register | broadcast | close | closeAll => cases hop
  | broadcast order f =>
    cases op' with
    | broadcast order' f' =>
      cases hop
      obtain ⟨ho, -⟩ := Option.ite_none_right_eq_some.1 he
      obtain ⟨ho', -⟩ := Option.ite_none_right_eq_some.1 he'
      rw [Operation.event, Operation.event, concern?, concern?, ha.tasks_length,
        ha.filter_jobs_eq (Job.send · f) (fun _ => rfl) hh hg (List.isPerm_iff.1 ho) (List.isPerm_iff.1 ho')]
    | register | sendTo | close | closeAll => cases hop
  | close q =>
    cases op' with
    | close q' =>
      cases hop
      rw [Operation.event, concern?, concern?, ha.tasks_length]
    | register | sendTo | broadcast | closeAll => cases hop
  | closeAll order =>
    cases op' with
    | closeAll order' =>
      obtain ⟨ho, -⟩ := Option.ite_none_right_eq_some.1 he
      obtain ⟨ho', -⟩ := Option.ite_none_right_eq_some.1 he'
      rw [Operation.event, Operation.event, concern?, concern?, ha.tasks_length,
        ha.filter_jobs_eq .shut (fun _ => rfl) hh hg (List.isPerm_iff.1 ho) (List.isPerm_iff.1 ho')]
    | register | sendTo | broadcast | close => cases hop

/-- When the same operation begins in both hubs, there is the same to the peer still. -/
theorem Alike.begun (ha : Alike p h g) (hh : h.AtRest) (hg : g.AtRest) (hop : op.form = op'.form)
    (harrival : h.arrival? p op = g.arrival? p op') (he : h.after? op.event = some h₁)
    (he' : g.after? op'.event = some g₁) : Alike p h₁ g₁ := by
  obtain ⟨log, ho⟩ := hh.orderly
  obtain ⟨log', ho'⟩ := hg.orderly
  have hbrings : op.brings = op'.brings := by
    have hsame : ∀ op : Operation, op.form.brings = op.brings := fun op => by cases op <;> rfl
    rw [← hsame op, ← hsame op', hop]
  obtain ⟨hl, ht⟩ := lengths_begun he
  obtain ⟨hl', ht'⟩ := lengths_begun he'
  refine ⟨?_, ?_, ?_, ?_⟩
  · rw [share_after? ho hh.alone (by cases op <;> rfl) he p, share_after? ho' hg.alone (by cases op' <;> rfl) he' p,
      ha.concern_eq hh hg hop harrival he he', ha.share_eq, ha.patience_eq]
  · rw [hl, hl', hbrings, ha.links_length]
  · rw [ht, ht', hbrings, ha.tasks_length]
  · rw [patience_after? he, patience_after? he', ha.patience_eq]

/-- If the same comes of what happens at a peer once the same operation has begun, then there is the same to the peer when it is
done, and the same went wrong for it. -/
theorem Alike.carried (ha : Alike p h₁ g₁) (hc : h₁.Carried es h') (hc' : g₁.Carried es' g')
    (hfold : (h₁.concerns p es).foldl (Share.stepWith h₁.patience) (h₁.share p, none) =
      (g₁.concerns p es').foldl (Share.stepWith h₁.patience) (h₁.share p, none)) :
    Alike p h' g' ∧ h₁.mishap? p es = g₁.mishap? p es' := by
  obtain ⟨hl, ht, hpatience⟩ := hc.same
  obtain ⟨hl', ht', hpatience'⟩ := hc'.same
  have hend' := hc'.foldl_eq p
  rw [← ha.share_eq, ← ha.patience_eq] at hend'
  rw [hc.foldl_eq, hend'] at hfold
  obtain ⟨hshare, hmishap⟩ := Prod.mk.inj hfold
  refine ⟨⟨hshare, ?_, ?_, ?_⟩, hmishap⟩
  · rw [hl, hl', ha.links_length]
  · rw [ht, ht', ha.tasks_length]
  · rw [hpatience, hpatience', ha.patience_eq]

/-- If the same happens at a peer while the same operation is carried out, then there is the same to the peer when it is done,
and the same went wrong for it. -/
theorem Alike.perform {deed deed' : Deed} (ha : Alike p h g) (hh : h.AtRest) (hg : g.AtRest)
    (hop : op.form = op'.form) (hp : h.perform? op es = some (h', deed))
    (hp' : g.perform? op' es' = some (g', deed')) (hsame : SameIn p h op es g op' es') :
    Alike p h' g' ∧ h.mishapIn? p op es = g.mishapIn? p op' es' := by
  obtain ⟨h₁, log, he, hes, hturn, hr, hfin, -⟩ := perform?_eq_some_iff.1 hp
  obtain ⟨g₁, log', he', hes', hturn', hr', hfin', -⟩ := perform?_eq_some_iff.1 hp'
  have hc := Hub.carried hh he hes hturn hr hfin
  have hc' := Hub.carried hg he' hes' hturn' hr' hfin'
  obtain ⟨hd, hd', hscript⟩ := hsame
  obtain ⟨harrival, hscript⟩ := Course.mk.inj hscript
  have ha₁ := ha.begun hh hg hop harrival he he'
  rw [isDefiniteIn, he, Option.all_some] at hd
  rw [isDefiniteIn, he', Option.all_some] at hd'
  simp only [course, he, he', Option.map_some, Option.getD_some] at hscript
  rw [mishapIn?, mishapIn?, he, he', Option.bind_some, Option.bind_some]
  have hclear' := hc'.isClear hd'
  have hdone' := hc'.isDone p
  rw [← ha₁.share_eq, ← ha₁.patience_eq] at hclear' hdone'
  exact ha₁.carried hc hc' <|
    Share.foldl_eq_of_script ((poised_of_begun hh he).onTheWay _ _ p) (hc.isClear hd) hclear' (hc.isDone p) hdone' hscript

/-- What the sending of a frame to one peer says is what went wrong for this peer. -/
theorem deed_sendTo {deed : Deed} (hh : h.AtRest) (hp : h.perform? (.sendTo p f) es = some (h', deed)) :
    deed = .sent p (h.mishapIn? p (.sendTo p f) es) := by
  obtain ⟨h₁, log, he, hes, hturn, hr, hfin, rfl⟩ := perform?_eq_some_iff.1 hp
  have hc := Hub.carried hh he hes hturn hr hfin
  cases he
  exact congrArg (Deed.sent p) (failure_sendTo hc)

/-- If an operation comes to the same for every peer, it says the same. -/
theorem answer_eq {deed deed' : Deed} (hlinks : h.links.length = g.links.length) (hh : h.AtRest) (hg : g.AtRest)
    (hop : op.form = op'.form) (hp : h.perform? op es = some (h', deed)) (hp' : g.perform? op' es' = some (g', deed'))
    (hend : ∀ p, Alike p h' g' ∧ h.mishapIn? p op es = g.mishapIn? p op' es') : deed.answer = deed'.answer := by
  obtain ⟨hrest, ho⟩ := perform_outcome hh hp
  obtain ⟨hrest', ho'⟩ := perform_outcome hg hp'
  cases op with
  | register link =>
    cases op' with
    | register link' =>
      cases ho
      cases ho'
      rw [hlinks]
    | sendTo | broadcast | close | closeAll => cases hop
  | sendTo q f =>
    cases op' with
    | sendTo q' f' =>
      cases hop
      rw [deed_sendTo hh hp, deed_sendTo hg hp', (hend q).2]
    | register | broadcast | close | closeAll => cases hop
  | broadcast order f =>
    cases op' with
    | broadcast order' f' =>
      obtain ⟨log, horderly⟩ := hrest.orderly
      obtain ⟨log', horderly'⟩ := hrest'.orderly
      have hperm : h'.members.Perm g'.members :=
        (List.perm_ext_iff_of_nodup horderly.members_nodup horderly'.members_nodup).2 fun p => (hend p).1.member_iff
      cases ho with
      | broadcast _ _ _ _ hlen =>
        cases ho' with
        | broadcast _ _ _ _ hlen' => rw [Deed.answer, Deed.answer, hlen, hlen', hperm.length_eq]
    | register | sendTo | close | closeAll => cases hop
  | close q =>
    cases op' with
    | close q' =>
      cases ho
      cases ho'
      rfl
    | register | sendTo | broadcast | closeAll => cases hop
  | closeAll order =>
    cases op' with
    | closeAll order' =>
      cases ho
      cases ho'
      rfl
    | register | sendTo | broadcast | close => cases hop

end

/-! ## Two sequences of operations -/

section

variable [Service δ] {h h' g g' : Hub δ} {steps steps' : List (Operation × List Event)} {deeds deeds' : List Deed}

/-- A peer at which the same happens comes out the same, whatever happens at the others, and whatever their order. -/
theorem alike_performAll {p : Peer} (ha : Alike p h g) (hh : h.AtRest) (hg : g.AtRest)
    (hops : steps.map (·.1.form) = steps'.map (·.1.form)) (hr : h.performAll? steps = some (h', deeds))
    (hr' : g.performAll? steps' = some (g', deeds')) (hsame : SameAll p h steps g steps') :
    Alike p h' g' := by
  induction steps generalizing h g steps' deeds deeds' with
  | nil =>
    obtain rfl := List.map_eq_nil_iff.1 hops.symm
    cases hr
    cases hr'
    exact ha
  | cons x rest ih =>
    cases steps' with
    | nil => nomatch hops
    | cons y rest' =>
      obtain ⟨⟨h₁, deed⟩, hx, hr⟩ := Option.bind_eq_some_iff.1 hr
      obtain ⟨⟨h₂, deeds₂⟩, hr₂, heq⟩ := Option.bind_eq_some_iff.1 hr
      cases heq
      obtain ⟨⟨g₁, deed'⟩, hy, hr'⟩ := Option.bind_eq_some_iff.1 hr'
      obtain ⟨⟨g₂, deeds₂'⟩, hr₂', heq⟩ := Option.bind_eq_some_iff.1 hr'
      cases heq
      obtain ⟨hop, hops⟩ := List.cons.inj hops
      obtain ⟨hfirst, hrest⟩ := hsame.cons hx hy
      exact ih (ha.perform hh hg hop hx hy hfirst).1 (perform_outcome hh hx).1 (perform_outcome hg hy).1 hops hr₂ hr₂' hrest

/-- If at every peer the same happens, the operations say the same, whatever the order of the peers. -/
theorem answers_performAll (ha : ∀ p, Alike p h g) (hh : h.AtRest) (hg : g.AtRest)
    (hops : steps.map (·.1.form) = steps'.map (·.1.form)) (hr : h.performAll? steps = some (h', deeds))
    (hr' : g.performAll? steps' = some (g', deeds')) (hsame : ∀ p, SameAll p h steps g steps') :
    deeds.map Deed.answer = deeds'.map Deed.answer := by
  induction steps generalizing h g steps' deeds deeds' with
  | nil =>
    obtain rfl := List.map_eq_nil_iff.1 hops.symm
    cases hr
    cases hr'
    rfl
  | cons x rest ih =>
    cases steps' with
    | nil => nomatch hops
    | cons y rest' =>
      obtain ⟨⟨h₁, deed⟩, hx, hr⟩ := Option.bind_eq_some_iff.1 hr
      obtain ⟨⟨h₂, deeds₂⟩, hr₂, heq⟩ := Option.bind_eq_some_iff.1 hr
      cases heq
      obtain ⟨⟨g₁, deed'⟩, hy, hr'⟩ := Option.bind_eq_some_iff.1 hr'
      obtain ⟨⟨g₂, deeds₂'⟩, hr₂', heq⟩ := Option.bind_eq_some_iff.1 hr'
      cases heq
      obtain ⟨hop, hops⟩ := List.cons.inj hops
      have hboth := fun p => (hsame p).cons hx hy
      have hend := fun p => (ha p).perform hh hg hop hx hy (hboth p).1
      rw [List.map_cons, List.map_cons, answer_eq (ha 0).links_length hh hg hop hx hy hend]
      rw [ih (fun p => (hend p).1) (perform_outcome hh hx).1 (perform_outcome hg hy).1 hops hr₂ hr₂' fun p => (hboth p).2]

end

end Hub

end Peripheral
