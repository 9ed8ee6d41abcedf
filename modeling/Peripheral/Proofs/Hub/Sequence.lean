import Mathlib.Data.List.Nodup
import Peripheral.Proofs.Hub.Errand
import Peripheral.Proofs.Hub.Verdict

/-!
# Operations one after another

What becomes of a set of peers when operations on it are carried out one after another, each to its end, while clients do
what they like and time passes. An operation does to the peers it is about what it says, and leaves the others alone; a frame
that is sent to a connected peer is delivered, unless the link to this peer is broken or the peer was waited for as long as
there is patience (`Outcome`).
-/

namespace Peripheral

/-- Something that is asked of a set of peers as a whole. Where all peers are addressed, the operation carries their order. -/
inductive Operation
  | register (link : Link)
  | sendTo (p : Peer) (f : Frame)
  | broadcast (order : List Peer) (f : Frame)
  | close (p : Peer)
  | closeAll (order : List Peer)

/-- The event that an operation begins with. -/
def Operation.event : Operation → Hub.Event
  | register link => .attach link
  | sendTo p f => .sendTo p f
  | broadcast order f => .broadcast order f
  | close p => .close p
  | closeAll order => .closeAll order

/-- How many links and how many tasks an operation brings. -/
def Operation.brings : Operation → Nat × Nat
  | register _ => (1, 0)
  | _ => (0, 1)

/-- What an operation has come to. -/
inductive Deed
  /-- A number was handed out. -/
  | registered (p : Peer)
  /-- A frame was sent to a peer, unless there was a failure. -/
  | sent (p : Peer) (failure? : Option ExchangeError)
  /-- A frame was sent to peers in turn, and some of them were reached. -/
  | broadcast (order reached : List Peer)
  | closed (p : Peer)
  | closedAll

namespace Deed

/-- The number that was handed out. -/
def number? : Deed → Option Peer
  | registered p => some p
  | _ => none

/-- Whether a peer was closed or drained, or failed in a send. -/
def removes (p : Peer) : Deed → Bool
  | registered _ => false
  | sent q failure? => q == p && failure?.isSome
  | broadcast order reached => order.contains p && !reached.contains p
  | closed q => q == p
  | closedAll => true

end Deed

namespace Hub

variable {δ : Type} [Service δ]

omit [Service δ] in
/-- What an operation has come to, from the hub before and the hub afterwards. -/
def deed (h h' : Hub δ) : Operation → Deed
  | .register _ => .registered h.links.length
  | .sendTo p _ => .sent p h'.current.failure?
  | .broadcast order _ => .broadcast order h'.current.reached
  | .close p => .closed p
  | .closeAll _ => .closedAll

/-- Carries out an operation, while the events happen: its courier moves until it has finished, clients act, and time passes. -/
def perform? (h : Hub δ) (op : Operation) (es : List Event) : Option (Hub δ × Deed) :=
  (h.after? op.event).bind fun h₁ =>
    if es.all (·.isMeanwhile) && h₁.allInTurn es then
      (h₁.run? es).bind fun x => if x.1.current.isFinished then some (x.1, h.deed x.1 op) else none
    else none

/-- Carries out operations one after another. -/
def performAll? (h : Hub δ) : List (Operation × List Event) → Option (Hub δ × List Deed)
  | [] => some (h, [])
  | x :: rest => do
    let (h', deed) ← h.perform? x.1 x.2
    let (h'', deeds) ← h'.performAll? rest
    return (h'', deed :: deeds)

/-- An operation is carried out by its beginning and by events, in turn, until its courier has finished. -/
theorem perform?_eq_some_iff {h h' : Hub δ} {op : Operation} {es : List Event} {deed : Deed} :
    h.perform? op es = some (h', deed) ↔
      ∃ h₁ log, h.after? op.event = some h₁ ∧ (∀ e ∈ es, e.isMeanwhile = true) ∧ h₁.allInTurn es = true ∧
        h₁.run? es = some (h', log) ∧ h'.current.isFinished = true ∧ deed = h.deed h' op := by
  constructor
  · intro hp
    obtain ⟨h₁, he, hp⟩ := Option.bind_eq_some_iff.1 hp
    obtain ⟨hok, hp⟩ := Option.ite_none_right_eq_some.1 hp
    obtain ⟨⟨h₂, log⟩, hr, hp⟩ := Option.bind_eq_some_iff.1 hp
    obtain ⟨hfin, heq⟩ := Option.ite_none_right_eq_some.1 hp
    cases heq
    rw [Bool.and_eq_true, List.all_eq_true] at hok
    exact ⟨h₁, log, he, hok.1, hok.2, hr, hfin, rfl⟩
  · rintro ⟨h₁, log, he, hall, hturn, hr, hfin, rfl⟩
    have hok : (es.all (·.isMeanwhile) && h₁.allInTurn es) = true := by
      rw [Bool.and_eq_true, List.all_eq_true]
      exact ⟨hall, hturn⟩
    simp only [perform?, he, Option.bind_some, hok, if_true, hr, hfin]

/-- A hub between operations: it is in order, there are no exchanges, and nothing is left to be done. -/
structure AtRest (h : Hub δ) : Prop where
  orderly : ∃ log, h.Orderly log
  alone : ∀ t p, ¬h.Conducts t p
  finished : h.current.isFinished = true

omit [Service δ] in
/-- At the start a hub is at rest. -/
theorem atRest_start (d : δ) (patience : Nat) : (start d patience).AtRest where
  orderly := ⟨[], orderly_start d patience⟩
  alone _ _ hc := nomatch hc.lt
  finished := rfl

/-! ## What happens meanwhile -/

/-- What concerns a peer meanwhile is something that happens while an errand is carried out. -/
theorem isMeanwhile_of_concerns {h : Hub δ} {p : Peer} {es : List Event} (hes : ∀ e ∈ es, e.isMeanwhile = true) :
    ∀ a ∈ h.concerns p es, a.isMeanwhile = true := by
  induction es generalizing h with
  | nil => nofun
  | cons e rest ih =>
    intro a ha
    rw [concerns, List.mem_append, Option.mem_toList] at ha
    rcases ha with ha | ha
    · cases concerns_of_concern? (hes e List.mem_cons_self) ha <;> rfl
    · cases he : h.after? e with
      | none =>
        rw [he] at ha
        cases ha
      | some h₁ =>
        rw [he] at ha
        exact ih (fun e he => hes e (List.mem_cons_of_mem _ he)) a ha

/-- Of what concerns a peer meanwhile, its client's acts are those on its own link. -/
theorem use_of_concerns {h h' : Hub δ} {p : Peer} {es : List Event} {log : List Mark}
    (hes : ∀ e ∈ es, e.isMeanwhile = true) (hr : h.run? es = some (h', log)) :
    (h.concerns p es).filterMap Share.Act.use? = es.filterMap (·.use? p) := by
  induction es generalizing h log with
  | nil => rfl
  | cons e rest ih =>
    obtain ⟨h₁, he, hr⟩ := Option.bind_eq_some_iff.1 hr
    obtain ⟨⟨h₂, log₂⟩, hr₂, heq⟩ := Option.bind_eq_some_iff.1 hr
    cases heq
    rw [concerns, he, Option.map_some, Option.getD_some, List.filterMap_append, List.filterMap_cons,
      ih (fun e he => hes e (List.mem_cons_of_mem _ he)) hr₂]
    cases ha : h.concern? p e with
    | none =>
      rw [use?_of_aside ha]
      rfl
    | some a =>
      rw [← (concerns_of_concern? (hes e List.mem_cons_self) ha).use?_eq]
      cases a <;> rfl

/-! ## Carrying out an operation -/

/-- What happens meanwhile brings neither links nor tasks. -/
theorem lengths_after? {h h' : Hub δ} {e : Event} (hm : e.isMeanwhile = true) (he : h.after? e = some h') :
    h'.links.length = h.links.length ∧ h'.tasks.length = h.tasks.length := by
  cases eventStep_of_after? he with
  | move ha hs => exact ⟨hs.links_length, by rw [setTask, List.length_set, hs.tasks_eq]⟩
  | client => exact ⟨List.length_modify _ _ _, rfl⟩
  | wait => exact ⟨rfl, rfl⟩
  | attach | serve | broadcast | sendTo | close | closeAll | cutShort | halt | tick => cases hm

/-- What happens in turn begins no exchange. -/
theorem alone_run {h h' : Hub δ} {es : List Event} {log : List Mark} (hnone : ∀ t p, ¬h.Conducts t p)
    (hturn : h.allInTurn es = true) (hr : h.run? es = some (h', log)) (t : Nat) (p : Peer) : ¬h'.Conducts t p := by
  induction es generalizing h log with
  | nil =>
    cases hr
    exact hnone t p
  | cons e rest ih =>
    obtain ⟨h₁, more, hfirst, he, hrest, hr₁⟩ := run_cons_in_turn hturn hr
    exact ih (conducts_of_isInTurn hnone hfirst he) hrest hr₁

/-- What every event that happens meanwhile carries on holds after all of them. -/
theorem meanwhile_run {P : Hub δ → Prop} {h h' : Hub δ} {es : List Event} {log : List Mark} (hp : P h)
    (hes : ∀ e ∈ es, e.isMeanwhile = true) (hturn : h.allInTurn es = true) (hr : h.run? es = some (h', log))
    (step : ∀ h e h', P h → e.isMeanwhile = true → h.isInTurn e = true → h.after? e = some h' → P h') : P h' := by
  induction es generalizing h log with
  | nil =>
    cases hr
    exact hp
  | cons e rest ih =>
    obtain ⟨h₁, more, hfirst, he, hrest, hr₁⟩ := run_cons_in_turn hturn hr
    exact ih (step h e h₁ hp (hes e List.mem_cons_self) hfirst he) (fun e he => hes e (List.mem_cons_of_mem _ he)) hrest hr₁

/-- What happens meanwhile and in turn, and the hub that it leads to. -/
structure Meanwhile (h : Hub δ) (es : List Event) (h' : Hub δ) : Prop where
  meanwhile : ∀ e ∈ es, e.isMeanwhile = true
  inTurn : h.allInTurn es = true
  leads : h.Leads es h'

namespace Meanwhile

variable {h h' h'' : Hub δ} {es more : List Event}

/-- Nothing happens. -/
theorem refl (h : Hub δ) : h.Meanwhile [] h where
  meanwhile _ he := absurd he List.not_mem_nil
  inTurn := rfl
  leads := .refl h

/-- One event happens. -/
theorem single {e : Event} (hm : e.isMeanwhile = true) (hturn : h.isInTurn e = true) (he : h.after? e = some h') :
    h.Meanwhile [e] h' where
  meanwhile _ hmem := List.mem_singleton.1 hmem ▸ hm
  inTurn := by
    rw [allInTurn, hturn, he]
    rfl
  leads := .single he

/-- One thing happens after another. -/
theorem append (hp : h.Meanwhile es h') (hmore : h'.Meanwhile more h'') : h.Meanwhile (es ++ more) h'' where
  meanwhile e he := (List.mem_append.1 he).elim (hp.meanwhile e) (hmore.meanwhile e)
  inTurn := by
    obtain ⟨log, hr⟩ := hp.leads
    exact allInTurn_append hp.inTurn hr hmore.inTurn
  leads := hp.leads.append hmore.leads

/-- What happens meanwhile leaves a hub in order. -/
theorem keeps_orderly (hp : h.Meanwhile es h') (ho : ∃ log, h.Orderly log) : ∃ log, h'.Orderly log := by
  obtain ⟨log, ho⟩ := ho
  obtain ⟨more, hr⟩ := hp.leads
  exact ⟨_, run?_preserves (fun _ _ _ _ ho he => orderly_after? ho he) ho hr⟩

/-- What happens meanwhile begins no exchange. -/
theorem keeps_alone (hp : h.Meanwhile es h') (hnone : ∀ t p, ¬h.Conducts t p) (t : Nat) (p : Peer) : ¬h'.Conducts t p := by
  obtain ⟨log, hr⟩ := hp.leads
  exact alone_run hnone hp.inTurn hr t p

/-- How many links and tasks there are, and how much patience, does not change meanwhile. -/
theorem same (hp : h.Meanwhile es h') :
    h'.links.length = h.links.length ∧ h'.tasks.length = h.tasks.length ∧ h'.patience = h.patience := by
  obtain ⟨log, hr⟩ := hp.leads
  refine meanwhile_run (P := fun h' => h'.links.length = h.links.length ∧ h'.tasks.length = h.tasks.length ∧
    h'.patience = h.patience) ⟨rfl, rfl, rfl⟩ hp.meanwhile hp.inTurn hr ?_
  rintro h₁ e h₂ ⟨hl, ht, hpatience⟩ hm - he
  obtain ⟨hl', ht'⟩ := lengths_after? hm he
  exact ⟨hl'.trans hl, ht'.trans ht, (patience_after? he).trans hpatience⟩

end Meanwhile

/-- What is known of a hub in which an operation was begun, of what happened then, and of the hub when it was done. -/
structure Carried (h₁ : Hub δ) (es : List Event) (h' : Hub δ) : Prop extends Meanwhile h₁ es h' where
  orderly : ∃ log, h₁.Orderly log
  alone : ∀ t p, ¬h₁.Conducts t p
  finished : h'.current.isFinished = true

/-- When an operation is carried out from a hub at rest, this is what is known of it. -/
theorem carried {h h₁ h' : Hub δ} {op : Operation} {es : List Event} {log : List Mark} (hrest : h.AtRest)
    (he : h.after? op.event = some h₁) (hes : ∀ e ∈ es, e.isMeanwhile = true) (hturn : h₁.allInTurn es = true)
    (hr : h₁.run? es = some (h', log)) (hfin : h'.current.isFinished = true) : h₁.Carried es h' := by
  obtain ⟨past, ho⟩ := hrest.orderly
  exact ⟨⟨hes, hturn, log, hr⟩, ⟨_, orderly_after? ho he⟩, conducts_of_isInTurn hrest.alone (by cases op <;> rfl) he, hfin⟩

namespace Carried

variable {h₁ h' : Hub δ} {es : List Event}

/-- When an operation is done, the hub is at rest. -/
theorem atRest (hc : h₁.Carried es h') : h'.AtRest :=
  ⟨hc.keeps_orderly hc.orderly, hc.keeps_alone hc.alone, hc.finished⟩

/-- What becomes of the share of a peer follows from what concerned the peer. -/
theorem share_eq (hc : h₁.Carried es h') (p : Peer) :
    h'.share p = (h₁.concerns p es).foldl (Share.step h₁.patience) (h₁.share p) := by
  obtain ⟨log, ho⟩ := hc.orderly
  obtain ⟨more, hr⟩ := hc.leads
  exact share_run ho hc.alone hc.inTurn hr p

/-- Of what concerned a peer, its client's acts are those on its own link. -/
theorem uses (hc : h₁.Carried es h') (p : Peer) :
    (h₁.concerns p es).filterMap Share.Act.use? = es.filterMap (·.use? p) := by
  obtain ⟨log, hr⟩ := hc.leads
  exact use_of_concerns hc.meanwhile hr

/-- The share of a peer, and what went wrong for it, follow from what concerned the peer. -/
theorem foldl_eq (hc : h₁.Carried es h') (p : Peer) :
    (h₁.concerns p es).foldl (Share.stepWith h₁.patience) (h₁.share p, none) = (h'.share p, h₁.mishap? p es) :=
  Prod.ext (by rw [Share.foldl_stepWith_fst, hc.share_eq]) rfl

/-- What everything that can happen to a peer carries on, told of its share, of how long it was waited for, of whether its link
was found broken, and of what went wrong for it, holds when the operation is done. -/
theorem account {P : Nat → Bool → Share × Option ExchangeError → Prop} (hc : h₁.Carried es h') (p : Peer)
    (hp : P 0 false (h₁.share p, none))
    (step : ∀ waited snapped x a, P waited snapped x → x.1.admits a = true →
      (h₁.isDefinite p 0 es = true → x.1.settles h₁.patience waited a = true) →
      P (waited + x.1.delay a) (snapped || x.1.snaps a) (Share.stepWith h₁.patience x a)) :
    P (h₁.waitedFor p es) (h₁.meetsBroken p es) (h'.share p, h₁.mishap? p es) := by
  obtain ⟨log, ho⟩ := hc.orderly
  obtain ⟨more, hr⟩ := hc.leads
  have hend := account_run ho hc.alone hc.meanwhile hc.inTurn hr id hp step
  rwa [Nat.zero_add, Bool.false_or, hc.foldl_eq] at hend

end Carried

omit [Service δ] in
/-- When everything is done, nothing is left to be done for any peer. -/
theorem share_of_isFinished {h : Hub δ} (hf : h.current.isFinished = true) (p : Peer) :
    (h.share p).work = .idle ∧ (h.share p).jobs = [] := by
  simp only [Courier.isFinished, Bool.and_eq_true, beq_iff_eq, List.isEmpty_iff] at hf
  simp [share, shareOf, hf.1, hf.2, Work.share]

/-- What there is to a peer is as it was, but for what its client did. -/
structure Keeps (h : Hub δ) (es : List Event) (h' : Hub δ) (p : Peer) : Prop where
  member_iff : p ∈ h'.members ↔ p ∈ h.members
  link_eq : h'.links[p]? = h.links[p]?.map fun l => (es.filterMap (·.use? p)).foldl Link.act l

omit [Service δ] in
/-- A peer that is kept gets nothing. -/
theorem Keeps.stream_eq {h h' : Hub δ} {es : List Event} {p : Peer} (hk : h.Keeps es h' p) : h'.stream p = h.stream p := by
  have hacts : ∀ (acts : List Link.Act) (l : Link), (acts.foldl Link.act l).outbound.stream = l.outbound.stream := by
    intro acts
    induction acts with
    | nil => exact fun _ => rfl
    | cons act acts ih =>
      intro l
      rw [List.foldl_cons, ih]
      cases act <;> rfl
  rw [stream, stream, hk.link_eq]
  cases h.links[p]? with
  | none => rfl
  | some l => exact hacts _ l

omit [Service δ] in
/-- The share of a peer says whether it is connected. -/
theorem isMember_share (h : Hub δ) (p : Peer) : (h.share p).isMember = true ↔ p ∈ h.members := List.contains_iff_mem

omit [Service δ] in
/-- The share of a peer says whether it is out. -/
theorem isMember_share_false (h : Hub δ) (p : Peer) : (h.share p).isMember = false ↔ p ∉ h.members := by
  rw [← Bool.not_eq_true, isMember_share]

section

variable {h h₁ h' : Hub δ} {es : List Event} {p : Peer} {f : Frame}

/-- A peer for which there is nothing to do is left alone. -/
theorem Carried.aside (hc : h₁.Carried es h') (hw : (h₁.share p).work = .idle) (hj : (h₁.share p).jobs = []) :
    h₁.Keeps es h' p ∧ h'.current.reached.count p = h₁.current.reached.count p := by
  have haside : Share.Aside (h₁.share p) [] (h₁.share p) := ⟨hw, hj, rfl, rfl, by simp⟩
  have hend := haside.foldl h₁.patience (isMeanwhile_of_concerns (h := h₁) (p := p) hc.meanwhile)
  rw [← hc.share_eq, hc.uses, List.nil_append] at hend
  refine ⟨⟨?_, hend.link?⟩, hend.times⟩
  rw [← isMember_share, ← isMember_share, hend.isMember]

/-- A peer that is to be taken out is out in the end, and has got nothing. -/
theorem Carried.parting (hc : h₁.Carried es h') (hp : Share.Parting p (h₁.stream p) (h₁.share p)) :
    p ∉ h'.members ∧ h'.stream p = h₁.stream p := by
  have hend := hc.account (P := fun _ _ x => Share.Parting p (h₁.stream p) x.1) p hp
    fun _ _ _ _ hs ha _ => hs.step _ (Share.isMeanwhile_of_admits ha)
  obtain ⟨hw, hj⟩ := share_of_isFinished hc.finished p
  obtain ⟨hm, -, hs⟩ := hend.ended hw hj
  exact ⟨(isMember_share_false h' p).1 hm, hs⟩

/-- A peer that was to be sent a frame and is not connected is not found, and has got nothing. -/
theorem Carried.missing (hc : h₁.Carried es h') (hp : Share.Missing p f (h₁.stream p) (h₁.share p, none)) :
    p ∉ h'.members ∧ h'.stream p = h₁.stream p ∧ h₁.mishap? p es = some (.peerGone p.number) := by
  have hend := hc.account (P := fun _ _ x => Share.Missing p f (h₁.stream p) x) p hp fun _ _ _ _ hs ha _ => hs.step _ ha
  obtain ⟨-, hj⟩ := share_of_isFinished hc.finished p
  obtain ⟨hm, hs, hgone⟩ := hend.ended hj
  exact ⟨(isMember_share_false h' p).1 hm, hs, hgone⟩

/-- A peer whose link is broken from the start gets nothing. -/
theorem Carried.lost (hc : h₁.Carried es h') (hp : Share.Lost (h₁.stream p) (h₁.share p)) :
    h'.current.reached.count p = 0 ∧ h'.stream p = h₁.stream p := by
  have hend := hc.account (P := fun _ _ x => Share.Lost (h₁.stream p) x.1) p hp
    fun _ _ _ _ hs ha _ => hs.step _ (Share.isMeanwhile_of_admits ha)
  obtain ⟨⟨l, hl, -, hs⟩, ht⟩ := hend
  refine ⟨ht, ?_⟩
  rw [stream, show h'.links[p]? = some l from hl]
  exact hs

/-- Why a frame that was to be sent to a connected peer was not delivered, told of the hub in which the sending had begun and of
what happened then: the link to this peer was found broken, or this peer was waited for as long as there is patience. -/
def Excuses (h₁ : Hub δ) (es : List Event) (p : Peer) (e : ExchangeError) : Prop :=
  Share.Excuse h₁.patience (h₁.waitedFor p es) (h₁.meetsBroken p es) e

/-- Why a frame that was to be sent to a connected peer was delivered, told likewise: the link to this peer was not found broken,
and, where its stream is definite, it took the frame while there was patience. -/
def Takes (h₁ : Hub δ) (es : List Event) (p : Peer) : Prop :=
  Share.Takes h₁.patience (h₁.waitedFor p es) (h₁.meetsBroken p es) (h₁.isDefinite p 0 es = true)

/-- A peer that a frame is sent to has got all of it and stays, or has got a part of it and is out; and either for a reason. -/
theorem Carried.leg (hc : h₁.Carried es h')
    (hp : Share.Leg h₁.patience (h₁.isDefinite p 0 es = true) p f (h₁.stream p) 0 false (h₁.share p, none)) :
    (p ∈ h'.members ∧ h'.current.reached.count p = 1 ∧ h'.stream p = h₁.stream p ++ f.encode ∧ h₁.Takes es p ∧
      h₁.mishap? p es = none) ∨
    (p ∉ h'.members ∧ h'.current.reached.count p = 0 ∧
      ∃ sent e, f.Part sent ∧ h'.stream p = h₁.stream p ++ sent ∧ h₁.Excuses es p e ∧ h₁.mishap? p es = some e) := by
  have hend := hc.account (P := Share.Leg h₁.patience (h₁.isDefinite p 0 es = true) p f (h₁.stream p)) p hp
    fun _ _ _ _ hs ha hset => hs.step ha hset
  obtain ⟨hw, hj⟩ := share_of_isFinished hc.finished p
  exact (hend.ended hw hj).imp (And.imp_left (isMember_share h' p).1) (And.imp_left (isMember_share_false h' p).1)

end

/-! ## What operations come to -/

/-- What an operation comes to: what it did to the peers it was about, that it left the others alone, and what it says. -/
inductive Outcome (h : Hub δ) (es : List Event) (h' : Hub δ) : Operation → Deed → Prop
  | registered {link : Link} : h.links.length ∉ h.members → h.links.length ∈ h'.members →
      h'.stream h.links.length = [] → (∀ q, q ≠ h.links.length → h.Keeps es h' q) →
      Outcome h es h' (.register link) (.registered h.links.length)
  | sent {p : Peer} {f : Frame} : p ∈ h.members → h.isBroken p = false → p ∈ h'.members →
      h'.stream p = h.stream p ++ f.encode → (h.sendTo p f).Takes es p → (∀ q, q ≠ p → h.Keeps es h' q) →
      Outcome h es h' (.sendTo p f) (.sent p none)
  /-- The frame was not delivered, or only a part of it, and for a reason. -/
  | unsent {p : Peer} {f : Frame} {e : ExchangeError} {part : Bytes} : p ∈ h.members → p ∉ h'.members → f.Part part →
      h'.stream p = h.stream p ++ part → (h.isBroken p = true → part = []) → (h.sendTo p f).Excuses es p e →
      (∀ q, q ≠ p → h.Keeps es h' q) → Outcome h es h' (.sendTo p f) (.sent p (some e))
  | missing {p : Peer} {f : Frame} : p ∉ h.members → p ∉ h'.members → h'.stream p = h.stream p →
      (∀ q, q ≠ p → h.Keeps es h' q) → Outcome h es h' (.sendTo p f) (.sent p (some (.peerGone p.number)))
  /-- Each of the connected peers was reached and stays, or was not and is out, and either for a reason of its own. -/
  | broadcast {order reached : List Peer} {f : Frame} : order.Perm h.members → reached.Nodup → reached ⊆ order →
      (∀ p, p ∈ h'.members ↔ p ∈ reached) → reached.length = h'.members.length →
      (∀ p ∈ reached, h.isBroken p = false ∧ h'.stream p = h.stream p ++ f.encode ∧ (h.broadcastIn order f).Takes es p) →
      (∀ p ∈ order, p ∉ reached → ∃ part e, f.Part part ∧ h'.stream p = h.stream p ++ part ∧
        (h.isBroken p = true → part = []) ∧ (h.broadcastIn order f).Excuses es p e) →
      (∀ q, q ∉ order → h.Keeps es h' q) → Outcome h es h' (.broadcast order f) (.broadcast order reached)
  | closed {p : Peer} : p ∉ h'.members → h'.stream p = h.stream p → (∀ q, q ≠ p → h.Keeps es h' q) →
      Outcome h es h' (.close p) (.closed p)
  | closedAll {order : List Peer} : order.Perm h.members → h'.members = [] →
      (∀ p ∈ order, h'.stream p = h.stream p) → (∀ q, q ∉ order → h.Keeps es h' q) →
      Outcome h es h' (.closeAll order) .closedAll

section

variable {h h₁ h' : Hub δ} {es : List Event} {p : Peer} {f : Frame}

/-- Of jobs for different peers, those for one of them are its own. -/
theorem filter_jobs {order : List Peer} (job : Peer → Job) (hjob : ∀ q, (job q).peer = q) (hn : order.Nodup) (p : Peer) :
    (order.map job).filter (·.peer == p) = if p ∈ order then [job p] else [] := by
  rw [List.filter_map]
  have hpeer : ((fun j : Job => j.peer == p) ∘ job) = (· == p) := funext fun q => by rw [Function.comp, hjob]
  rw [hpeer, List.filter_beq, hn.count]
  split <;> rfl

omit [Service δ] in
/-- A peer that the beginning of an operation leaves as it is. -/
theorem Keeps.of_begun (hk : h₁.Keeps es h' p) (hm : p ∈ h₁.members ↔ p ∈ h.members)
    (hl : h₁.links[p]? = h.links[p]?) : h.Keeps es h' p :=
  ⟨hk.member_iff.trans hm, by rw [hk.link_eq, hl]⟩

/-- A peer that arrives is connected under the next number, has got nothing yet, and the others are kept. -/
theorem registered_outcome {link : Link} (hrest : h.AtRest) (he : h.after? (.attach link) = some h₁)
    (hc : h₁.Carried es h') : h.Outcome es h' (.register link) (.registered h.links.length) := by
  obtain ⟨past, ho⟩ := hrest.orderly
  obtain ⟨hf, heq⟩ := Option.ite_none_right_eq_some.1 he
  cases heq
  have hkeeps : ∀ q, (h.register link).Keeps es h' q := by
    intro q
    obtain ⟨hw, hj⟩ := share_of_isFinished (h := h.register link) hrest.finished q
    exact (hc.aside hw hj).1
  have hout : h.links.length ∉ h.members := fun hm => Nat.lt_irrefl _ (ho.member_lt _ hm)
  refine .registered hout ?_ ?_ ?_
  · rw [(hkeeps _).member_iff, register]
    exact List.mem_append_right _ (List.mem_singleton.2 rfl)
  · rw [(hkeeps _).stream_eq, stream_register hf, stream, List.getElem?_eq_none (Nat.le_refl _)]
    rfl
  · intro q hq
    have hshare : (h.register link).share q = h.share q := (share_register h q link).trans (if_neg (Ne.symm hq))
    refine (hkeeps q).of_begun ?_ (congrArg Share.link? hshare)
    rw [← isMember_share, ← isMember_share, hshare]

omit [Service δ] in
/-- A link that is broken when the sending of a frame begins is lost. -/
theorem lost_of_isBroken (hb : h.isBroken p = true) (ht : (h.share p).times = 0) :
    Share.Lost (h.stream p) (h.share p) := by
  rw [isBroken] at hb
  cases hl : h.links[p]? with
  | none =>
    rw [hl] at hb
    cases hb
  | some l =>
    rw [hl, Option.any_some] at hb
    exact ⟨⟨l, hl, hb, by rw [stream, hl]; rfl⟩, ht⟩

/-- What the sending of a frame to one peer says is what went wrong for this peer. -/
theorem failure_sendTo (hc : (h.sendTo p f).Carried es h') :
    h'.current.failure? = (h.sendTo p f).mishap? p es := by
  obtain ⟨log, ho⟩ := hc.orderly
  obtain ⟨more, hr⟩ := hc.leads
  have hbegun : (h.sendTo p f).current = .start [.reach p f] := current_spawn h _
  have hfor : (h.sendTo p f).current.Serves p [] := by
    rw [hbegun]
    exact ⟨nofun, ⟨[.reach p f], rfl, by simp [Job.peer]⟩, nofun⟩
  exact failure_run ho hc.alone hc.meanwhile hc.inTurn hfor (by rw [hbegun]; rfl) hr

/-- What the sending of a frame to one peer comes to, for this peer and for the others. -/
theorem sendTo_outcome (hc : (h.sendTo p f).Carried es h') :
    h.Outcome es h' (.sendTo p f) (.sent p h'.current.failure?) := by
  have hshare := share_spawn h [.reach p f]
  have hothers : ∀ q, q ≠ p → h.Keeps es h' q := by
    intro q hq
    have hjobs : ([Job.reach p f].filter (·.peer == q)) = [] := by simp [Job.peer, Ne.symm hq]
    exact (hc.aside (by rw [sendTo, hshare]) (by rw [sendTo, hshare, hjobs])).1.of_begun Iff.rfl rfl
  have hjobs : ([Job.reach p f].filter (·.peer == p)) = [.reach p f] := by simp [Job.peer]
  rw [failure_sendTo hc]
  by_cases hp : p ∈ h.members
  · have hleg : Share.Leg h.patience ((h.sendTo p f).isDefinite p 0 es = true) p f (h.stream p) 0 false
        ((h.sendTo p f).share p, none) := by
      rw [sendTo, hshare, hjobs]
      exact .seeking rfl rfl rfl ((isMember_share h p).2 hp) rfl
    have hlost : h.isBroken p = true → h'.current.reached.count p = 0 ∧ h'.stream p = h.stream p :=
      fun hb => hc.lost (lost_of_isBroken (h := h.sendTo p f) hb (by rw [sendTo, hshare]))
    rcases hc.leg hleg with ⟨hm, ht, hs, htakes, hnone⟩ | ⟨hm, -, part, e, hpart, hs, hexcuse, hsome⟩
    · rw [hnone]
      refine .sent hp (Bool.eq_false_iff.2 fun hb => ?_) hm hs htakes hothers
      have hzero := (hlost hb).1
      omega
    · rw [hsome]
      exact .unsent hp hm hpart hs (fun hb => List.append_right_eq_self.1 (hs.symm.trans (hlost hb).2)) hexcuse hothers
  · have hmissing : Share.Missing p f (h.stream p) ((h.sendTo p f).share p, none) := by
      rw [sendTo, hshare, hjobs]
      exact .seeking rfl rfl ((isMember_share_false h p).2 hp) rfl
    obtain ⟨hm, hs, hgone⟩ := hc.missing hmissing
    rw [hgone]
    exact .missing hp hm hs hothers

/-- What a broadcast comes to, for each peer and for the number of those who were reached. -/
theorem broadcast_outcome {order : List Peer} (hrest : h.AtRest) (hperm : order.Perm h.members)
    (hc : (h.broadcastIn order f).Carried es h') :
    h.Outcome es h' (.broadcast order f) (.broadcast order h'.current.reached) := by
  obtain ⟨past, ho⟩ := hrest.orderly
  obtain ⟨past', ho'⟩ := hc.atRest.orderly
  have hn : order.Nodup := hperm.nodup_iff.2 ho.members_nodup
  have hshare := share_spawn h (order.map (Job.send · f))
  have hjobs := filter_jobs (Job.send · f) (fun _ => rfl) hn
  have hothers : ∀ q, q ∉ order → h.Keeps es h' q ∧ h'.current.reached.count q = 0 := by
    intro q hq
    obtain ⟨hk, ht⟩ := hc.aside (p := q) (by rw [broadcastIn, hshare]) (by rw [broadcastIn, hshare, hjobs, if_neg hq])
    rw [broadcastIn, current_spawn] at ht
    exact ⟨hk.of_begun Iff.rfl rfl, ht⟩
  have hlost : ∀ p, h.isBroken p = true → h'.current.reached.count p = 0 ∧ h'.stream p = h.stream p := fun p hb =>
    hc.lost (lost_of_isBroken (h := h.broadcastIn order f) hb (by rw [broadcastIn, hshare]))
  have hleg : ∀ p ∈ order, (p ∈ h'.members ∧ h'.current.reached.count p = 1 ∧ h'.stream p = h.stream p ++ f.encode ∧
        (h.broadcastIn order f).Takes es p) ∨
      (p ∉ h'.members ∧ h'.current.reached.count p = 0 ∧ ∃ sent e, f.Part sent ∧ h'.stream p = h.stream p ++ sent ∧
        (h.broadcastIn order f).Excuses es p e) := by
    intro p hp
    have hready : Share.Leg h.patience ((h.broadcastIn order f).isDefinite p 0 es = true) p f (h.stream p) 0 false
        ((h.broadcastIn order f).share p, none) := by
      rw [broadcastIn, hshare, hjobs, if_pos hp]
      exact .ready rfl rfl rfl ((isMember_share h p).2 (hperm.subset hp)) rfl
    rcases hc.leg hready with ⟨hm, ht, hs, htakes, -⟩ | ⟨hm, ht, part, e, hpart, hs, hexcuse, -⟩
    · exact Or.inl ⟨hm, ht, hs, htakes⟩
    · exact Or.inr ⟨hm, ht, part, e, hpart, hs, hexcuse⟩
  have hmember : ∀ p, p ∈ h'.members ↔ p ∈ h'.current.reached := by
    intro p
    by_cases hp : p ∈ order
    · rcases hleg p hp with ⟨hm, ht, -⟩ | ⟨hm, ht, -⟩
      · exact iff_of_true hm (List.count_pos_iff.1 (by omega))
      · exact iff_of_false hm (List.count_eq_zero.1 ht)
    · obtain ⟨hk, ht⟩ := hothers p hp
      exact iff_of_false (fun hm => hp (hperm.mem_iff.2 (hk.member_iff.1 hm))) (List.count_eq_zero.1 ht)
  have hnodup : h'.current.reached.Nodup := by
    refine List.nodup_iff_count_le_one.2 fun p => ?_
    by_cases hp : p ∈ order
    · rcases hleg p hp with ⟨-, ht, -⟩ | ⟨-, ht, -⟩ <;> omega
    · exact (hothers p hp).2 ▸ Nat.zero_le 1
  have hsubset : ∀ p ∈ h'.current.reached, p ∈ order := fun p hp =>
    Decidable.byContradiction fun hout => List.count_eq_zero.1 (hothers p hout).2 hp
  refine .broadcast hperm hnodup hsubset hmember ?_ ?_ ?_ fun q hq => (hothers q hq).1
  · exact ((List.perm_ext_iff_of_nodup hnodup ho'.members_nodup).2 fun p => (hmember p).symm).length_eq
  · intro p hp
    refine ⟨Bool.eq_false_iff.2 fun hb => List.count_eq_zero.1 (hlost p hb).1 hp, ?_⟩
    rcases hleg p (hsubset p hp) with ⟨-, -, hs, htakes⟩ | ⟨-, ht, -⟩
    · exact ⟨hs, htakes⟩
    · exact absurd hp (List.count_eq_zero.1 ht)
  · intro p hp hout
    rcases hleg p hp with ⟨-, ht, -⟩ | ⟨-, -, part, e, hpart, hs, hexcuse⟩
    · exact absurd (List.count_pos_iff.1 (by omega)) hout
    · exact ⟨part, e, hpart, hs, fun hb => List.append_right_eq_self.1 (hs.symm.trans (hlost p hb).2), hexcuse⟩

/-- What the closing of one peer comes to, for this peer and for the others. -/
theorem close_outcome (hc : (h.close p).Carried es h') : h.Outcome es h' (.close p) (.closed p) := by
  have hshare := share_spawn h [.dismiss p]
  have hparting : Share.Parting p ((h.close p).stream p) ((h.close p).share p) := by
    have hjobs : ([Job.dismiss p].filter (·.peer == p)) = [.dismiss p] := by simp [Job.peer]
    rw [close, hshare, hjobs]
    exact ⟨.dismissal rfl rfl, rfl, rfl⟩
  obtain ⟨hm, hs⟩ := hc.parting hparting
  refine .closed hm hs ?_
  intro q hq
  have hjobs : ([Job.dismiss p].filter (·.peer == q)) = [] := by simp [Job.peer, Ne.symm hq]
  exact (hc.aside (by rw [close, hshare]) (by rw [close, hshare, hjobs])).1.of_begun Iff.rfl rfl

/-- What the closing of all peers comes to. -/
theorem closeAll_outcome {order : List Peer} (hrest : h.AtRest) (hperm : order.Perm h.members)
    (hc : (h.closeAllIn order).Carried es h') : h.Outcome es h' (.closeAll order) .closedAll := by
  obtain ⟨past, ho⟩ := hrest.orderly
  have hn : order.Nodup := hperm.nodup_iff.2 ho.members_nodup
  have hshare := share_spawn { h with members := [] } (order.map .shut)
  have hjobs := filter_jobs .shut (fun _ => rfl) hn
  have hothers : ∀ q, q ∉ order → (h.closeAllIn order).Keeps es h' q := fun q hq =>
    (hc.aside (by rw [closeAllIn, hshare]) (by rw [closeAllIn, hshare, hjobs, if_neg hq])).1
  have hparting : ∀ p ∈ order, p ∉ h'.members ∧ h'.stream p = h.stream p := by
    intro p hp
    refine hc.parting ?_
    rw [closeAllIn, hshare, hjobs, if_pos hp]
    exact ⟨.shutting rfl rfl rfl, rfl, rfl⟩
  refine .closedAll hperm ?_ (fun p hp => (hparting p hp).2) ?_
  · refine List.eq_nil_iff_forall_not_mem.2 fun p hm => ?_
    by_cases hp : p ∈ order
    · exact (hparting p hp).1 hm
    · exact absurd ((hothers p hp).member_iff.1 hm) List.not_mem_nil
  · intro q hq
    refine (hothers q hq).of_begun ?_ rfl
    exact iff_of_false List.not_mem_nil fun hm => hq (hperm.mem_iff.2 hm)

/-- An operation on a hub at rest comes to its outcome, and leaves the hub at rest. -/
theorem perform_outcome {op : Operation} {deed : Deed} (hrest : h.AtRest) (hp : h.perform? op es = some (h', deed)) :
    h'.AtRest ∧ h.Outcome es h' op deed := by
  obtain ⟨h₁, log, he, hes, hturn, hr, hfin, rfl⟩ := perform?_eq_some_iff.1 hp
  have hc := carried hrest he hes hturn hr hfin
  refine ⟨hc.atRest, ?_⟩
  cases op with
  | register link => exact registered_outcome hrest he hc
  | sendTo p f =>
    cases he
    exact sendTo_outcome hc
  | broadcast order f =>
    obtain ⟨hperm, heq⟩ := Option.ite_none_right_eq_some.1 he
    cases heq
    exact broadcast_outcome hrest (List.isPerm_iff.1 hperm) hc
  | close p =>
    cases he
    exact close_outcome hc
  | closeAll order =>
    obtain ⟨hperm, heq⟩ := Option.ite_none_right_eq_some.1 he
    cases heq
    exact closeAll_outcome hrest (List.isPerm_iff.1 hperm) hc

/-- How many links and tasks there are once an operation has begun. -/
theorem lengths_begun {op : Operation} (he : h.after? op.event = some h₁) :
    h₁.links.length = h.links.length + op.brings.1 ∧ h₁.tasks.length = h.tasks.length + op.brings.2 := by
  cases op with
  | register link =>
    obtain ⟨-, heq⟩ := Option.ite_none_right_eq_some.1 he
    cases heq
    exact ⟨List.length_append, rfl⟩
  | sendTo | close =>
    cases he
    exact ⟨rfl, List.length_append⟩
  | broadcast | closeAll =>
    obtain ⟨-, heq⟩ := Option.ite_none_right_eq_some.1 he
    cases heq
    exact ⟨rfl, List.length_append⟩

/-- Only an arrival brings a link. -/
theorem links_length_perform {op : Operation} {deed : Deed} (hrest : h.AtRest)
    (hp : h.perform? op es = some (h', deed)) :
    (deed = .registered h.links.length ∧ h'.links.length = h.links.length + 1) ∨
    (deed.number? = none ∧ h'.links.length = h.links.length) := by
  obtain ⟨h₁, log, he, hes, hturn, hr, hfin, rfl⟩ := perform?_eq_some_iff.1 hp
  have hlen := (carried hrest he hes hturn hr hfin).same.1.trans (lengths_begun he).1
  cases op with
  | register => exact Or.inl ⟨rfl, hlen⟩
  | sendTo | broadcast | close | closeAll => exact Or.inr ⟨rfl, hlen⟩

/-- Who is connected after an operation: who was and was not removed by it, and who was registered. -/
theorem Outcome.member_iff {op : Operation} {deed : Deed} (ho : h.Outcome es h' op deed) (p : Peer) :
    p ∈ h'.members ↔ (p ∈ h.members ∧ deed.removes p = false) ∨ deed.number? = some p := by
  cases ho with
  | registered hout hin _ hothers =>
    by_cases hp : p = h.links.length
    · exact iff_of_true (hp ▸ hin) (Or.inr (congrArg some hp.symm))
    · simp [(hothers p hp).member_iff, Deed.removes, Deed.number?, Ne.symm hp]
  | @sent q f hin _ hin' _ _ hothers =>
    by_cases hp : p = q
    · exact iff_of_true (hp ▸ hin') (Or.inl ⟨hp ▸ hin, by simp [Deed.removes]⟩)
    · simp [(hothers p hp).member_iff, Deed.removes, Deed.number?]
  | @unsent q f e part _ hout _ _ _ _ hothers | @missing q f _ hout _ hothers =>
    by_cases hp : p = q
    · simp [hp, hout, Deed.removes, Deed.number?]
    · simp [(hothers p hp).member_iff, Deed.removes, Deed.number?, Ne.symm hp]
  | broadcast hperm _ _ hmember _ _ _ hothers =>
    by_cases hp : p ∈ h.members
    · simp [hmember, Deed.removes, Deed.number?, hp, hperm.mem_iff]
    · simp [(hothers p fun hin => hp (hperm.subset hin)).member_iff, hp, Deed.number?]
  | @closed q hout _ hothers =>
    by_cases hp : p = q
    · simp [hp, hout, Deed.removes, Deed.number?]
    · simp [(hothers p hp).member_iff, Deed.removes, Deed.number?, Ne.symm hp]
  | closedAll _ hnone => simp [hnone, Deed.removes, Deed.number?]

/-- A peer that is out stays out, and gets nothing more. -/
theorem Outcome.gone {op : Operation} {deed : Deed} (ho : h.Outcome es h' op deed) (hp : p ∉ h.members)
    (hlt : p < h.links.length) : p ∉ h'.members ∧ h'.stream p = h.stream p := by
  have kept : h.Keeps es h' p → p ∉ h'.members ∧ h'.stream p = h.stream p :=
    fun hk => ⟨fun hin => hp (hk.member_iff.1 hin), hk.stream_eq⟩
  cases ho with
  | registered _ _ _ hothers => exact kept (hothers p (Nat.ne_of_lt hlt))
  | @sent q f hin _ _ _ _ hothers | @unsent q f e part hin _ _ _ _ _ hothers =>
    exact kept (hothers p fun heq => hp (heq ▸ hin))
  | @missing q f _ hout hs hothers =>
    by_cases hpq : p = q
    · subst hpq
      exact ⟨hout, hs⟩
    · exact kept (hothers p hpq)
  | broadcast hperm _ _ _ _ _ _ hothers => exact kept (hothers p fun hin => hp (hperm.subset hin))
  | @closed q hout hs hothers =>
    by_cases hpq : p = q
    · subst hpq
      exact ⟨hout, hs⟩
    · exact kept (hothers p hpq)
  | closedAll hperm _ _ hothers => exact kept (hothers p fun hin => hp (hperm.subset hin))

end

/-! ## Sequences of operations -/

/-- What the deeds say of a hub: which numbers were handed out, and who is connected. -/
structure Recorded (h : Hub δ) (deeds : List Deed) : Prop where
  numbers : deeds.filterMap Deed.number? = List.range h.links.length
  /-- The peers that were registered and not removed since. -/
  member_iff : ∀ p, p ∈ h.members ↔
    ∃ past later, deeds = past ++ .registered p :: later ∧ ∀ deed ∈ later, deed.removes p = false

omit [Service δ] in
/-- At the start nothing was done, and nobody is connected. -/
theorem recorded_start (d : δ) (patience : Nat) : (start d patience).Recorded [] where
  numbers := rfl
  member_iff p := by
    refine iff_of_false List.not_mem_nil ?_
    rintro ⟨past, later, heq, -⟩
    exact List.append_ne_nil_of_right_ne_nil past (List.cons_ne_nil _ _) heq.symm

section

variable {h h' : Hub δ} {op : Operation} {es : List Event} {deeds : List Deed} {deed : Deed}

/-- What was done is the record of a hub also after one more operation. -/
theorem Recorded.perform (hd : h.Recorded deeds) (hrest : h.AtRest) (hp : h.perform? op es = some (h', deed)) :
    h'.Recorded (deeds ++ [deed]) where
  numbers := by
    rw [List.filterMap_append, hd.numbers]
    rcases links_length_perform hrest hp with ⟨rfl, hlen⟩ | ⟨hnone, hlen⟩
    · rw [hlen, List.range_succ]
      rfl
    · simp [hlen, hnone]
  member_iff p := by
    have hstep := (perform_outcome hrest hp).2.member_iff p
    constructor
    · intro hin
      rcases hstep.1 hin with ⟨hin, hstays⟩ | hnumber
      · obtain ⟨past, later, rfl, hlater⟩ := (hd.member_iff p).1 hin
        refine ⟨past, later ++ [deed], by simp, ?_⟩
        intro d hmem
        rcases List.mem_append.1 hmem with hmem | hmem
        · exact hlater d hmem
        · rw [List.mem_singleton.1 hmem]
          exact hstays
      · cases deed with
        | registered q =>
          cases hnumber
          exact ⟨deeds, [], rfl, nofun⟩
        | sent | broadcast | closed | closedAll => nomatch hnumber
    · rintro ⟨past, later, heq, hlater⟩
      refine hstep.2 ?_
      rcases List.eq_nil_or_concat later with rfl | ⟨front, last, rfl⟩
      · obtain ⟨-, hlast⟩ := List.append_inj' heq rfl
        cases hlast
        exact Or.inr rfl
      · rw [List.concat_eq_append, ← List.cons_append, ← List.append_assoc] at heq
        obtain ⟨hfront, hlast⟩ := List.append_inj' heq rfl
        cases hlast
        rw [List.concat_eq_append] at hlater
        refine Or.inl ⟨(hd.member_iff p).2 ⟨past, front, hfront, ?_⟩, hlater _ (by simp)⟩
        exact fun d hmem => hlater d (List.mem_append_left _ hmem)

/-- What every operation carries on, all of them do. -/
theorem performAll_preserves {P : Hub δ → List Deed → Prop} {steps : List (Operation × List Event)} {more : List Deed}
    (hp : P h deeds) (hrest : h.AtRest) (hr : h.performAll? steps = some (h', more))
    (step : ∀ (h h' : Hub δ) op es deeds deed, P h deeds → h.AtRest → h.perform? op es = some (h', deed) →
      P h' (deeds ++ [deed])) : P h' (deeds ++ more) ∧ h'.AtRest := by
  induction steps generalizing h deeds more with
  | nil =>
    cases hr
    rw [List.append_nil]
    exact ⟨hp, hrest⟩
  | cons x rest ih =>
    obtain ⟨⟨h₁, deed⟩, hx, hr⟩ := Option.bind_eq_some_iff.1 hr
    obtain ⟨⟨h₂, deeds₂⟩, hr₂, heq⟩ := Option.bind_eq_some_iff.1 hr
    cases heq
    have hstep := ih (step _ _ _ _ _ _ hp hrest hx) (perform_outcome hrest hx).1 hr₂
    rw [List.append_assoc] at hstep
    exact hstep

/-- What was done from the start on is the record of the hub, and the hub is at rest. -/
theorem recorded_performAll {d : δ} {patience : Nat} {steps : List (Operation × List Event)}
    (hr : (start d patience).performAll? steps = some (h, deeds)) : h.Recorded deeds ∧ h.AtRest :=
  performAll_preserves (recorded_start d patience) (atRest_start d patience) hr
    fun _ _ _ _ _ _ hd hrest hp => hd.perform hrest hp

/-- A peer that is out stays out, and gets nothing more, whatever operations there are. -/
theorem gone_performAll {p : Peer} {steps : List (Operation × List Event)} (hrest : h.AtRest) (hp : p ∉ h.members)
    (hlt : p < h.links.length) (hr : h.performAll? steps = some (h', deeds)) :
    p ∉ h'.members ∧ h'.stream p = h.stream p := by
  have hend := @performAll_preserves δ _ h h' []
    (fun h' _ => p < h'.links.length ∧ p ∉ h'.members ∧ h'.stream p = h.stream p) steps deeds ⟨hlt, hp, rfl⟩ hrest hr ?_
  · exact hend.1.2
  · rintro h₁ h₂ op es deeds deed ⟨hlt, hp, hs⟩ hrest hx
    obtain ⟨hp', hs'⟩ := (perform_outcome hrest hx).2.gone hp hlt
    refine ⟨?_, hp', hs'.trans hs⟩
    rcases links_length_perform hrest hx with ⟨-, hlen⟩ | ⟨-, hlen⟩
    · rw [hlen]
      exact Nat.lt_succ_of_lt hlt
    · rw [hlen]
      exact hlt

end

end Hub

end Peripheral
