import Peripheral.Device.RegisterFile
import Peripheral.Proofs.Hub.Reordering

/-!
# Operations in succession

What holds when operations are carried out one after another (`operations_in_succession`). Besides what each of them comes to,
and that peers are independent of each other, this is that operations come to an end: from every point of an operation its
courier can bring it to an end by itself, whatever the clients have done (`completes`), and it needs no more moves for that
than it had effort before it (`moves_le`).
-/

namespace Peripheral.Hub

variable {δ : Type}

/-- Something that a courier does, or that time does. -/
def Event.isUnattended : Event → Bool
  | .move _ | .wait _ => true
  | _ => false

/-- Whether an event is a move. -/
def Event.isMove : Event → Bool
  | .move _ => true
  | _ => false

section

variable [Service δ] {h h₁ h' : Hub δ} {es more : List Event} {op : Operation}

/-- However far a courier has come, it can come to its end by itself. -/
theorem courier_ends (hnone : ∀ t p, ¬h.Conducts t p) :
    ∃ es h', (∀ e ∈ es, e.isUnattended = true) ∧ h.allInTurn es = true ∧ h.Leads es h' ∧
      h'.current.isFinished = true := by
  induction hn : h.current.effort using Nat.strongRecOn generalizing h with
  | _ n ih =>
    cases hfin : h.current.isFinished with
    | true => exact ⟨[], h, nofun, rfl, .refl h, hfin⟩
    | false =>
      obtain ⟨t, c, ht, hc, rfl⟩ := task_of_current hnone hfin
      obtain ⟨ms, m, hmt, hm⟩ := goes_on hc hfin
      obtain ⟨h₁, hm⟩ := Option.isSome_iff_exists.1 hm
      have hwait : h.after? (.wait ms) = some { h with clock := h.clock + ms } := rfl
      have hturn : ({ h with clock := h.clock + ms } : Hub δ).isInTurn (.move m) = true := by
        rw [isInTurn, hmt, beq_iff_eq]
        exact ht
      have hlt : h₁.current.effort < n := by
        obtain ⟨t', h₂, hs⟩ := step_of_move (h := { h with clock := h.clock + ms }) hnone hturn hm
        exact hn ▸ hs.effort_lt
      have halone := conducts_of_isInTurn (h := { h with clock := h.clock + ms }) hnone hturn hm
      obtain ⟨es, h', hes, hall, hr, hend⟩ := ih _ hlt halone rfl
      have hm' : ({ h with clock := h.clock + ms } : Hub δ).after? (.move m) = some h₁ := hm
      refine ⟨[.wait ms] ++ ([.move m] ++ es), h', ?_, ?_, (Leads.single hwait).append ((Leads.single hm').append hr), hend⟩
      · simpa [Event.isUnattended] using hes
      · simp only [List.singleton_append, allInTurn, hwait, hm', Option.all_some, hturn, hall]
        rfl

/-- Whatever has happened since an operation was begun, it can be carried to its end, and needs nobody for that. -/
theorem completes {log : List Mark} (hrest : h.AtRest) (he : h.after? op.event = some h₁)
    (hes : ∀ e ∈ es, e.isMeanwhile = true) (hturn : h₁.allInTurn es = true) (hr : h₁.run? es = some (h', log)) :
    ∃ more h'' deed, (∀ e ∈ more, e.isUnattended = true) ∧ h.perform? op (es ++ more) = some (h'', deed) := by
  have halone : ∀ t p, ¬h₁.Conducts t p := conducts_of_isInTurn hrest.alone (by cases op <;> rfl) he
  obtain ⟨more, h'', hmore, hturn', hl, hfin⟩ := courier_ends (alone_run halone hturn hr)
  obtain ⟨log', hr'⟩ := Leads.append ⟨log, hr⟩ hl
  refine ⟨more, h'', _, hmore, perform?_eq_some_iff.2 ⟨h₁, log', he, ?_, allInTurn_append hturn hr hturn', hr', hfin, rfl⟩⟩
  intro e he
  rcases List.mem_append.1 he with he | he
  · exact hes e he
  · have hun := hmore e he
    cases e with
    | move | wait => rfl
    | attach | serve | broadcast | sendTo | close | closeAll | cutShort | halt | client | tick => nomatch hun

/-- An operation takes no more moves than its courier has effort before it. -/
theorem moves_le {log : List Mark} (hnone : ∀ t p, ¬h.Conducts t p) (hes : ∀ e ∈ es, e.isMeanwhile = true)
    (hturn : h.allInTurn es = true) (hr : h.run? es = some (h', log)) :
    h'.current.effort + es.countP (·.isMove) ≤ h.current.effort := by
  induction es generalizing h log with
  | nil =>
    cases hr
    exact Nat.le_refl _
  | cons e rest ih =>
    obtain ⟨h₁, log₁, hfirst, he, hturn₁, hr₁⟩ := run_cons_in_turn hturn hr
    have hrest := ih (conducts_of_isInTurn hnone hfirst he) (fun e he => hes e (List.mem_cons_of_mem _ he)) hturn₁ hr₁
    have hm := hes e List.mem_cons_self
    cases e with
    | move m =>
      obtain ⟨t, h₂, hs⟩ := step_of_move hnone hfirst he
      have hlt := hs.effort_lt
      rw [List.countP_cons_of_pos rfl]
      omega
    | client | wait =>
      cases he
      rw [List.countP_cons_of_neg (by simp [Event.isMove])]
      exact hrest
    | attach | serve | broadcast | sendTo | close | closeAll | cutShort | halt | tick => cases hm

end

/-! ## What holds of a succession of operations -/

section

variable [Service δ] {d : δ} {patience : Nat} {steps : List (Operation × List Event)} {h : Hub δ} {deeds : List Deed}

/-- What holds of a hub that operations have led to one after another, and of what they have come to. -/
structure Successive (d : δ) (patience : Nat) (steps : List (Operation × List Event)) (h : Hub δ) (deeds : List Deed) :
    Prop where
  /-- Every number that is handed out is greater than those before, so none is handed out again. -/
  increasing : (deeds.filterMap Deed.number?).Pairwise (· < ·)
  /-- The connected peers are those that were registered and were not closed or drained, and did not fail in a send, since. -/
  member_iff : ∀ p, p ∈ h.members ↔
    ∃ past later, deeds = past ++ .registered p :: later ∧ ∀ deed ∈ later, deed.removes p = false
  /-- The next operation, whichever it is, comes to its outcome. -/
  outcome : ∀ op es h' deed, h.perform? op es = some (h', deed) → h.Outcome es h' op deed
  /-- A peer that was let in and is out is never in again, and never gets a byte again. -/
  gone : ∀ p, p < h.links.length → p ∉ h.members → ∀ more h' deeds', h.performAll? more = some (h', deeds') →
    p ∉ h'.members ∧ h'.stream p = h.stream p
  /-- What becomes of a peer depends on what its client and its stream do, not on the other peers and not on their order. -/
  isolated : ∀ steps' h' deeds' p, steps'.map (·.1.form) = steps.map (·.1.form) →
    (start d patience).performAll? steps' = some (h', deeds') →
    SameAll p (start d patience) steps' (start d patience) steps →
    h'.links[p]? = h.links[p]? ∧ (p ∈ h'.members ↔ p ∈ h.members)
  /-- If the clients and the streams of all peers do the same, then the same is returned, in whatever order the peers come. -/
  unordered : ∀ steps' h' deeds', steps'.map (·.1.form) = steps.map (·.1.form) →
    (start d patience).performAll? steps' = some (h', deeds') →
    (∀ p, SameAll p (start d patience) steps' (start d patience) steps) →
    deeds'.map Deed.answer = deeds.map Deed.answer
  /-- In whatever order the peers come, the operations can be carried out so that the same happens at every peer; then the same
  is returned, the same peers are connected, and each peer has got the same. -/
  reordered : ∀ ops, List.Forall₂ Operation.Reorders (steps.map (·.1)) ops →
    ∃ steps' h' deeds', steps'.map (·.1) = ops ∧ (start d patience).performAll? steps' = some (h', deeds') ∧
      (∀ p, (start d patience).courses p steps' = (start d patience).courses p steps) ∧
      deeds'.map Deed.answer = deeds.map Deed.answer ∧ ∀ p, h'.links[p]? = h.links[p]? ∧ (p ∈ h'.members ↔ p ∈ h.members)
  /-- An operation that was begun takes only so many moves, and from every point of it there is a way to its end. -/
  ends : ∀ op es h₁ h₂ log, h.after? op.event = some h₁ → (∀ e ∈ es, e.isMeanwhile = true) → h₁.allInTurn es = true →
    h₁.run? es = some (h₂, log) → es.countP (·.isMove) ≤ h₁.current.effort ∧
      ∃ more h' deed, (∀ e ∈ more, e.isUnattended = true) ∧ h.perform? op (es ++ more) = some (h', deed)

/-- Whatever operations are carried out one after another, whatever clients do meanwhile, and in whatever order the peers are
addressed: the numbers that are handed out increase; the connected peers are those that were registered and not removed since;
each operation does to the peers it is about what it says, and nothing to the others; a peer that is out is out for good; a
peer is independent of the others; the order of the peers makes no difference; and operations come to an end. -/
theorem operations_in_succession (hr : (start d patience).performAll? steps = some (h, deeds)) :
    Successive d patience steps h deeds := by
  obtain ⟨hrecorded, hrest⟩ := recorded_performAll hr
  have hstart := atRest_start d patience
  refine ⟨?_, hrecorded.member_iff, fun op es h' deed hp => (perform_outcome hrest hp).2, ?_, ?_, ?_, ?_, ?_⟩
  · rw [hrecorded.numbers]
    exact List.pairwise_lt_range
  · intro p hlt hp more h' deeds' hmore
    exact gone_performAll hrest hp hlt hmore
  · intro steps' h' deeds' p hops hr' hsame
    have ha := alike_performAll (p := p) ⟨rfl, rfl, rfl, rfl⟩ hstart hstart hops hr' hr hsame
    exact ⟨congrArg Share.link? ha.share_eq, ha.member_iff⟩
  · intro steps' h' deeds' hops hr' hsame
    exact answers_performAll (fun p => ⟨rfl, rfl, rfl, rfl⟩) hstart hstart hops hr' hr hsame
  · intro ops hops
    obtain ⟨steps', h', deeds', hsame, hr', hcourses, hanswers, ha⟩ :=
      performAll_reordered hops (fun p => ⟨rfl, rfl, rfl, rfl⟩) hstart hstart hr
    exact ⟨steps', h', deeds', hsame, hr', hcourses, hanswers, fun p =>
      ⟨congrArg Share.link? (ha p).share_eq.symm, (ha p).member_iff.symm⟩⟩
  · intro op es h₁ h₂ log he hes hturn hrun
    have halone : ∀ t p, ¬h₁.Conducts t p := conducts_of_isInTurn hrest.alone (by cases op <;> rfl) he
    exact ⟨Nat.le_trans (Nat.le_add_left _ _) (moves_le halone hes hturn hrun), completes hrest he hes hturn hrun⟩

end

deriving instance DecidableEq for Link.Act, Share.Act, Course

/-- Two peers arrive, of which the second takes no more than a hundred bytes, and a frame is sent to both in some order, with
what happens at them in that order. -/
def stalled (order : List Peer) (meanwhile : List Event) : List (Operation × List Event) :=
  [(.register (.fresh 4096), []), (.register (.fresh 100), []), (.broadcast order (.interrupt 1 7), meanwhile)]

/-- The whole frame is written to the first peer. -/
def reaching : List Event := [.move (.advance 0 Frame.size), .move (.advance 0 Frame.size)]

/-- The second peer stalls until the time is over, and is thrown out. -/
def stalling : List Event :=
  [.move (.advance 0 Frame.size), .move (.advance 0 Frame.size), .wait 1000, .move (.expire 0),
    .move (.advance 0 Frame.size), .move (.advance 0 Frame.size)]

/-- In either order one peer is reached, and the other is out with a part of the frame. -/
theorem operations_in_succession_stalled :
    ∃ h deeds h' deeds', (start (RegisterFile.empty 1) 1000).performAll? (stalled [0, 1] (reaching ++ stalling)) =
        some (h, deeds) ∧
      (start (RegisterFile.empty 1) 1000).performAll? (stalled [1, 0] (stalling ++ reaching)) = some (h', deeds') ∧
      deeds.map Deed.answer = [.number 0, .number 1, .count 1] ∧ 1 ∉ h.members ∧ (h.stream 1).length = 100 ∧
      h'.links[1]? = h.links[1]? ∧ 1 ∉ h'.members := by
  have hdone : ((start (RegisterFile.empty 1) 1000).performAll? (stalled [0, 1] (reaching ++ stalling))).map (fun x =>
      (x.2.map Deed.answer, x.1.members, (x.1.stream 1).length)) = some ([.number 0, .number 1, .count 1], [0], 100) := by
    decide +kernel
  have hdone' : ((start (RegisterFile.empty 1) 1000).performAll? (stalled [1, 0] (stalling ++ reaching))).isSome = true := by
    decide +kernel
  have hsame : SameAll 1 (start (RegisterFile.empty 1) 1000) (stalled [1, 0] (stalling ++ reaching))
      (start (RegisterFile.empty 1) 1000) (stalled [0, 1] (reaching ++ stalling)) :=
    ⟨by decide +kernel, by decide +kernel, by decide +kernel⟩
  obtain ⟨⟨h, deeds⟩, hr, heq⟩ := Option.map_eq_some_iff.1 hdone
  obtain ⟨hanswers, heq⟩ := Prod.mk.inj heq
  obtain ⟨hmembers, hlength⟩ := Prod.mk.inj heq
  obtain ⟨⟨h', deeds'⟩, hr'⟩ := Option.isSome_iff_exists.1 hdone'
  have hforms : (stalled [1, 0] (stalling ++ reaching)).map (·.1.form) =
      (stalled [0, 1] (reaching ++ stalling)).map (·.1.form) := by
    simp only [stalled, List.map_cons, List.map_nil, Operation.form]
  obtain ⟨hlink, hmember⟩ := (operations_in_succession hr).isolated _ h' deeds' 1 hforms hr' hsame
  have hout : 1 ∉ h.members := by
    rw [show h.members = [0] from hmembers]
    decide
  exact ⟨h, deeds, h', deeds', hr, hr', hanswers, hout, hlength, hlink, fun hin => hout (hmember.1 hin)⟩

end Peripheral.Hub
