import Peripheral.Proofs.Hub.Errand
import Peripheral.Proofs.Hub.Writing

/-!
# Rounds

A round is a frame that one task sends to several peers in turn, whatever else goes on in the hub. Every peer of the round
either gets the whole frame, or gets a part of it and is taken out, before the round goes on to the next peer (`Going`).
-/

namespace Peripheral

/-- A frame that a task sends to peers in turn. -/
structure Round where
  task : Nat
  frame : Frame
  order : List Peer
  deriving DecidableEq

namespace Hub

variable {δ : Type}

/-- A peer that a round is done with: it has the whole frame, or it is out and has a part of the frame. -/
def Settled (h : Hub δ) (log : List Mark) (r : Round) (q : Peer) : Prop :=
  written r.task q log = r.frame.encode ∨ (q ∉ h.members ∧ r.frame.Part (written r.task q log))

/-- A peer that a round is done with stays so, unless it comes in again or the round writes to it. -/
theorem Settled.mono {h h' : Hub δ} {log log' : List Mark} {r : Round} {q : Peer} (hs : h.Settled log r q)
    (hm : q ∉ h.members → q ∉ h'.members) (hw : written r.task q log' = written r.task q log) : h'.Settled log' r q := by
  rw [Settled, hw]
  exact hs.imp_right fun hpart => ⟨hm hpart.1, hpart.2⟩

/-- How far a courier has come with a round. -/
inductive Going (h : Hub δ) (log : List Mark) (r : Round) (c : Courier) : Prop
  | between {settled todo : List Peer} : r.order = settled ++ todo → (∀ q ∈ settled, h.Settled log r q) →
      (∀ q, q ∉ settled → written r.task q log = []) → (c.work = .idle ∨ ∃ p d, c.work = .shutting p d) →
      c.jobs = todo.map (.send · r.frame) → Going h log r c
  | sending {settled todo : List Peer} {p : Peer} {rest : Bytes} {d : Nat} : r.order = settled ++ p :: todo →
      (∀ q ∈ settled, h.Settled log r q) → (∀ q, q ∉ settled → q ≠ p → written r.task q log = []) →
      c.work = .sending p rest d → rest ≠ [] → written r.task p log ++ rest = r.frame.encode →
      c.jobs = todo.map (.send · r.frame) → Going h log r c
  | failing {settled todo : List Peer} {p : Peer} : r.order = settled ++ p :: todo →
      (∀ q ∈ settled, h.Settled log r q) → (∀ q, q ∉ settled → q ≠ p → written r.task q log = []) →
      c.work = .idle → r.frame.Part (written r.task p log) → c.jobs = .dismiss p :: todo.map (.send · r.frame) →
      Going h log r c

/-- Whatever has been written of a round to a peer is the whole frame, to a peer of the round, or a part of it. -/
theorem Going.part {h : Hub δ} {log : List Mark} {r : Round} {c : Courier} (hg : h.Going log r c) (q : Peer) :
    (q ∈ r.order ∧ written r.task q log = r.frame.encode) ∨ r.frame.Part (written r.task q log) := by
  have settled : ∀ {settled rest : List Peer}, r.order = settled ++ rest → q ∈ settled → h.Settled log r q →
      (q ∈ r.order ∧ written r.task q log = r.frame.encode) ∨ r.frame.Part (written r.task q log) := by
    intro settled rest ho hq hs
    exact hs.imp (fun hw => ⟨ho ▸ List.mem_append_left _ hq, hw⟩) And.right
  have nothing : written r.task q log = [] → r.frame.Part (written r.task q log) := fun hnil => hnil ▸ r.frame.part_nil
  cases hg with
  | @between front todo ho hs hn =>
    by_cases hq : q ∈ front
    · exact settled ho hq (hs q hq)
    · exact Or.inr (nothing (hn q hq))
  | @sending front todo p rest d ho hs hn _ hr hsum =>
    by_cases hq : q ∈ front
    · exact settled ho hq (hs q hq)
    · by_cases hp : q = p
      · exact Or.inr ⟨rest, hr, hp ▸ hsum⟩
      · exact Or.inr (nothing (hn q hq hp))
  | @failing front todo p ho hs hn _ hpart =>
    by_cases hq : q ∈ front
    · exact settled ho hq (hs q hq)
    · by_cases hp : q = p
      · exact Or.inr (hp ▸ hpart)
      · exact Or.inr (nothing (hn q hq hp))

/-- Nothing is written of a round to a peer that is not of the round. -/
theorem Going.silent {h : Hub δ} {log : List Mark} {r : Round} {c : Courier} (hg : h.Going log r c) {q : Peer}
    (hq : q ∉ r.order) : written r.task q log = [] := by
  cases hg with
  | between ho _ hn => exact hn q fun hin => hq (ho ▸ List.mem_append_left _ hin)
  | sending ho _ hn | failing ho _ hn =>
    refine hn q (fun hin => hq (ho ▸ List.mem_append_left _ hin)) ?_
    rintro rfl
    exact hq (ho ▸ List.mem_append_right _ List.mem_cons_self)

/-- When its courier has nothing left to do, a round is done with all its peers. -/
theorem Going.ended {h : Hub δ} {log : List Mark} {r : Round} {c : Courier} (hg : h.Going log r c) (hw : c.work = .idle)
    (hj : c.jobs = []) : ∀ q ∈ r.order, h.Settled log r q := by
  cases hg with
  | between ho hs _ _ hj' =>
    rw [hj] at hj'
    rw [ho, List.map_eq_nil_iff.1 hj'.symm, List.append_nil]
    exact hs
  | sending _ _ _ hw' =>
    rw [hw] at hw'
    nomatch hw'
  | failing _ _ _ _ _ hj' =>
    rw [hj] at hj'
    nomatch hj'

/-- What is not about a round leaves it where it is. -/
theorem Going.spared {h h' : Hub δ} {log log' : List Mark} {r : Round} {c : Courier} (hg : h.Going log r c)
    (hm : ∀ q ∈ r.order, q ∉ h.members → q ∉ h'.members) (hw : ∀ q, written r.task q log' = written r.task q log) :
    h'.Going log' r c := by
  cases hg with
  | between ho hs hn hwork hj =>
    refine .between ho (fun q hq => (hs q hq).mono (hm q ?_) (hw q)) (fun q hq => (hw q).trans (hn q hq)) hwork hj
    exact ho ▸ List.mem_append_left _ hq
  | sending ho hs hn hwork hr hsum hj =>
    refine .sending ho (fun q hq => (hs q hq).mono (hm q ?_) (hw q)) (fun q hq hp => (hw q).trans (hn q hq hp)) hwork hr
      ((hw _).symm ▸ hsum) hj
    exact ho ▸ List.mem_append_left _ hq
  | failing ho hs hn hwork hpart hj =>
    refine .failing ho (fun q hq => (hs q hq).mono (hm q ?_) (hw q)) (fun q hq hp => (hw q).trans (hn q hq hp)) hwork
      ((hw _).symm ▸ hpart) hj
    exact ho ▸ List.mem_append_left _ hq

/-- A courier writes to nobody but the peer that it sends to. -/
theorem written_delivery_of_ne {h h' : Hub δ} {t d : Nat} {c : Courier} {p q : Peer} {rest : Bytes}
    (hw : c.work = .sending p rest d) (hq : q ≠ p) : written t q (h.delivery t c h') = [] := by
  refine written_of_forall fun bytes hm => ?_
  obtain ⟨p', _, hp', heq⟩ := delivery_cases hm
  cases heq
  rw [hw] at hp'
  exact hq (Option.some.inj hp').symm

variable {h h' : Hub δ} {log : List Mark} {r : Round} {c c' : Courier}

/-- While a frame is being sent to a peer, some more of it is written, or all of the rest, or it is given up. -/
theorem Going.step_sending {settled todo : List Peer} {p : Peer} {rest : Bytes} {d : Nat}
    (hlt : p < h.links.length) (ho : r.order = settled ++ p :: todo) (hp : p ∉ settled)
    (hs : ∀ q ∈ settled, h.Settled log r q) (hn : ∀ q, q ∉ settled → q ≠ p → written r.task q log = [])
    (hw : c.work = .sending p rest d) (hr : rest ≠ []) (hsum : written r.task p log ++ rest = r.frame.encode)
    (hj : c.jobs = todo.map (.send · r.frame)) (hstep : CourierStep h r.task c c' h') :
    h'.Going (log ++ h.delivery r.task c h') r c' := by
  obtain ⟨l, hl⟩ : ∃ l, h.links[p]? = some l := ⟨_, List.getElem?_eq_getElem hlt⟩
  -- Whatever the step is, it writes to nobody but the peer that is being sent to.
  have hothers : ∀ q, q ≠ p → written r.task q (log ++ h.delivery r.task c h') = written r.task q log := by
    intro q hq
    rw [written_append, written_delivery_of_ne hw hq, List.append_nil]
  have hs' : ∀ q ∈ settled, h'.Settled (log ++ h.delivery r.task c h') r q := fun q hq =>
    (hs q hq).mono (fun hout hin => hout (hstep.members_sublist.subset hin)) (hothers q fun heq => hp (heq ▸ hq))
  have hn' : ∀ q, q ∉ settled → q ≠ p → written r.task q (log ++ h.delivery r.task c h') = [] := fun q hq hqp =>
    (hothers q hqp).trans (hn q hq hqp)
  rcases hstep.of_sending hw hl with ⟨n, -, h0, hlen, rfl, rfl⟩ | ⟨-, rfl, rfl⟩ | ⟨e, -, rfl, rfl⟩
  · have hput := stream_updateLink_put (f := (·.put (rest.take n))) hl rfl p
    rw [if_pos rfl] at hput
    refine .sending ho hs' hn' rfl ?_ ?_ hj
    · intro hnil
      have := List.drop_eq_nil_iff.1 hnil
      omega
    · rw [written_append, delivery_of_sending hw hput, written_wrote_self, List.append_assoc, List.take_append_drop]
      exact hsum
  · have hput := stream_updateLink_put (f := fun l => (l.put rest).leave r.task) hl rfl p
    rw [if_pos rfl] at hput
    have ho' : r.order = (settled ++ [p]) ++ todo := by rw [ho, List.append_assoc]; rfl
    refine .between ho' ?_ ?_ (Or.inl rfl) hj
    · intro q hq
      rcases List.mem_append.1 hq with hq | hq
      · exact hs' q hq
      · rw [List.mem_singleton.1 hq]
        left
        rw [written_append, delivery_of_sending hw hput, written_wrote_self]
        exact hsum
    · intro q hq
      rw [List.mem_append, List.mem_singleton, not_or] at hq
      exact hn' q hq.1 hq.2
  · have hleave := stream_updateLink (h := h) (p := p) (f := (·.leave r.task)) (fun _ => rfl) p
    refine .failing ho hs' hn' rfl ?_ (by rw [Courier.giveUp, hj])
    rw [written_append, delivery_of_unchanged hw hleave, written_wrote_self, List.append_nil]
    exact ⟨rest, hr, hsum⟩

/-- A step of its courier carries a round on. -/
theorem Going.step (hlt : ∀ q ∈ r.order, q < h.links.length) (hd : r.order.Nodup) (hn : h.members.Nodup)
    (hg : h.Going log r c) (hstep : CourierStep h r.task c c' h') : h'.Going (log ++ h.delivery r.task c h') r c' := by
  have hout : ∀ q, q ∉ h.members → q ∉ h'.members := fun q hq hin => hq (hstep.members_sublist.subset hin)
  have quiet : c.work.addressee? = none →
      ∀ q, written r.task q (log ++ h.delivery r.task c h') = written r.task q log := by
    intro hw q
    rw [delivery_of_none hw, List.append_nil]
  cases hg with
  | @between settled todo ho hs hnil hwork hj =>
    have hquiet := quiet (by rcases hwork with hw | ⟨p, d, hw⟩ <;> rw [hw] <;> rfl)
    have hs' : ∀ q ∈ settled, h'.Settled (log ++ h.delivery r.task c h') r q :=
      fun q hq => (hs q hq).mono (hout q) (hquiet q)
    rcases hwork with hw | ⟨p, d, hw⟩
    · cases todo with
      | nil => exact absurd hstep (CourierStep.not_finished hw hj)
      | cons p todo =>
        obtain ⟨rfl, rfl⟩ := hstep.of_send hw hj
        have hp : p ∉ settled := fun hin => by
          rw [ho, List.nodup_append] at hd
          exact hd.2.2 p hin p List.mem_cons_self rfl
        refine .sending ho hs' (fun q hq _ => (hquiet q).trans (hnil q hq)) rfl r.frame.encode_ne_nil ?_ rfl
        rw [hquiet, hnil p hp]
        rfl
    · obtain ⟨rfl, -⟩ := hstep.of_shutting hw
      exact .between ho hs' (fun q hq => (hquiet q).trans (hnil q hq)) (Or.inl rfl) hj
  | @sending settled todo p rest d ho hs hnil hw hr hsum hj =>
    rw [ho, List.nodup_append] at hd
    exact Going.step_sending (hlt p (ho ▸ List.mem_append_right _ List.mem_cons_self)) ho
      (fun hin => hd.2.2 p hin p List.mem_cons_self rfl) hs hnil hw hr hsum hj hstep
  | @failing settled todo p ho hs hnil hw hpart hj =>
    have hquiet := quiet (by rw [hw]; rfl)
    -- A peer that a send has failed for is settled once it is out, whoever takes it out.
    have hsettled : p ∉ h'.members → ∀ q ∈ settled ++ [p], h'.Settled (log ++ h.delivery r.task c h') r q := by
      intro hp q hq
      rcases List.mem_append.1 hq with hq | hq
      · exact (hs q hq).mono (hout q) (hquiet q)
      · rw [List.mem_singleton.1 hq, Settled, hquiet]
        exact Or.inr ⟨hp, hpart⟩
    have ho' : r.order = (settled ++ [p]) ++ todo := by rw [ho, List.append_assoc]; rfl
    have hnil' : ∀ q, q ∉ settled ++ [p] → written r.task q (log ++ h.delivery r.task c h') = [] := by
      intro q hq
      rw [List.mem_append, List.mem_singleton, not_or] at hq
      rw [hquiet]
      exact hnil q hq.1 hq.2
    rcases hstep.of_dismiss hw hj with ⟨-, rfl, rfl⟩ | ⟨hp, rfl, rfl⟩
    · exact .between ho' (hsettled hn.not_mem_erase) hnil' (Or.inr ⟨p, _, rfl⟩) rfl
    · exact .between ho' (hsettled hp) hnil' (Or.inl hw) rfl

/-! ## Errands among other things -/

section

variable [Service δ] {e : Event} {t : Nat}

/-- What becomes of an errand when anything happens: its courier takes a step, or stops where it is, or nothing. -/
inductive ErrandStep (h : Hub δ) (log : List Mark) (t : Nat) (c : Courier) : Event → Hub δ → List Mark → Prop
  | step {m : Move} {c' : Courier} {h₁ : Hub δ} : m.task = t → CourierStep h t c c' h₁ →
      ErrandStep h log t c (.move m) (h₁.setTask t (.errand c')) (log ++ h.delivery t c h₁)
  | stop {h' : Hub δ} : h'.tasks[t]? = some (.errand c.stop) → h'.members = h.members →
      ErrandStep h log t c (.cutShort t) h' log
  | none {e : Event} {h' : Hub δ} {log' : List Mark} : e ≠ .cutShort t → h'.tasks[t]? = some (.errand c) →
      (∀ q, written t q log' = written t q log) → ErrandStep h log t c e h' log'

/-- Whatever happens, an errand takes a step, or stops where it is, or is left alone. -/
theorem errandStep_after? (log : List Mark) (hc : h.tasks[t]? = some (.errand c)) (he : h.after? e = some h') :
    h.ErrandStep log t c e h' (log ++ h.marks e h') := by
  have hlt := (List.getElem?_eq_some_iff.1 hc).1
  have aside : (∀ m, e = .move m → m.task ≠ t) → ∀ q, written t q (log ++ h.marks e h') = written t q log := by
    intro hne q
    have hnone : written t q (h.marks e h') = [] := by
      refine written_of_forall fun bytes hm => ?_
      rcases marks_cases he hm with ⟨g, hg⟩ | ⟨v, rfl, ⟨q', hq', -⟩ | ⟨q', more, heq, -⟩⟩
      · nomatch hg
      · nomatch hq'
      · cases heq
        exact hne v rfl rfl
    rw [written_append, hnone, List.append_nil]
  cases eventStep_of_after? he with
  | @move m a b h₁ ha hs =>
    by_cases hmt : m.task = t
    · rw [marks_move ha hs]
      subst hmt
      rw [hc] at ha
      cases ha
      cases hs with
      | errand hstep => exact .step rfl hstep
    · refine .none nofun ?_ (aside fun v hv => ?_)
      · rw [tasks_setTask_of_ne _ _ hmt, hs.tasks_eq]
        exact hc
      · cases hv
        exact hmt
  | serve | broadcast | closeAll | sendTo | close =>
    exact .none nofun ((List.getElem?_append_left hlt).trans hc) (aside nofun)
  | @cutShort s =>
    by_cases hst : s = t
    · subst hst
      have hset := tasks_setTask_self (h := { h with links := h.links.map fun (l : Link) => l.leave s }) (.errand c.stop) hc
      rw [show h.marks (.cutShort s) (h.cutShort s) = [] from rfl, List.append_nil]
      refine .stop ?_ (members_cutShort h s).1
      unfold cutShort
      simp only [hc]
      exact hset
    · refine .none (fun heq => hst (Event.cutShort.inj heq)) ?_ (aside nofun)
      unfold cutShort
      split
      · rw [tasks_setTask_of_ne _ _ hst]
        exact hc
      · exact hc
  | attach | halt | client | wait | tick => exact .none nofun hc (aside nofun)

/-- A peer that is out stays out. -/
theorem gone_after? {p : Peer} (hp : p ∉ h.members) (hlt : p < h.links.length) (he : h.after? e = some h') :
    p ∉ h'.members := by
  rcases members_after? he with ⟨hm, -⟩ | ⟨link, -, rfl⟩
  · exact fun hin => hp (hm.subset hin)
  · rw [register, List.mem_append, List.mem_singleton, not_or]
    exact ⟨hp, Nat.ne_of_lt hlt⟩

end

/-- A round that goes on. -/
structure Underway (h : Hub δ) (log : List Mark) (r : Round) : Prop where
  nodup : r.order.Nodup
  peer_lt : ∀ q ∈ r.order, q < h.links.length
  going : ∃ c, h.tasks[r.task]? = some (.errand c) ∧ h.Going log r c

/-- An errand that has nothing left to do. -/
def Rests (h : Hub δ) (t : Nat) : Prop := ∃ c, h.tasks[t]? = some (.errand c) ∧ c.work = .idle ∧ c.jobs = []

section

variable [Service δ] {e : Event} {t : Nat}

/-- Whatever happens, a round goes on, unless it is cut short. -/
theorem Underway.after (hu : h.Underway log r) (hn : h.members.Nodup) (he : h.after? e = some h')
    (hcut : e ≠ .cutShort r.task) : h'.Underway (log ++ h.marks e h') r := by
  obtain ⟨c, hc, hg⟩ := hu.going
  have hlt : ∀ q ∈ r.order, q < h'.links.length := fun q hq =>
    Nat.lt_of_lt_of_le (hu.peer_lt q hq) (links_length_after? he)
  refine ⟨hu.nodup, hlt, ?_⟩
  have hstep := errandStep_after? log hc he
  generalize hlog : log ++ h.marks e h' = log' at hstep ⊢
  cases hstep with
  | step _ hs =>
    refine ⟨_, tasks_setTask_self _ (hs.tasks_eq ▸ hc), ?_⟩
    exact (hg.step hu.peer_lt hu.nodup hn hs).spared (fun _ _ hout => hout) fun _ => rfl
  | stop => exact absurd rfl hcut
  | none _ hc' hw => exact ⟨c, hc', hg.spared (fun q hq hout => gone_after? hout (hu.peer_lt q hq) he) hw⟩

/-- An errand that has nothing left to do has written all it will. -/
theorem Rests.after (log : List Mark) (hr : h.Rests t) (he : h.after? e = some h') :
    h'.Rests t ∧ ∀ q, written t q (log ++ h.marks e h') = written t q log := by
  obtain ⟨c, hc, hw, hj⟩ := hr
  have hstep := errandStep_after? log hc he
  generalize log ++ h.marks e h' = log' at hstep ⊢
  cases hstep with
  | step _ hs => exact absurd hs (CourierStep.not_finished hw hj)
  | stop hc' => exact ⟨⟨_, hc', rfl, rfl⟩, fun _ => rfl⟩
  | none _ hc' hsame => exact ⟨⟨c, hc', hw, hj⟩, hsame⟩

/-- A round that is done with a peer is so for good. -/
theorem Settled.after {q : Peer} (hs : h.Settled log r q) (hr : h.Rests r.task) (hlt : q < h.links.length)
    (he : h.after? e = some h') : h'.Settled (log ++ h.marks e h') r q :=
  hs.mono (fun hout => gone_after? hout hlt he) ((hr.after log he).2 q)

end

/-! ## What rounds have written -/

/-- The bytes that some tasks wrote to a peer, each with the task that wrote it. -/
def writtenBy (tasks : List Nat) (p : Peer) (log : List Mark) : List (Nat × UInt8) :=
  (signed p log).filter fun b => tasks.contains b.1

theorem writtenBy_append (tasks : List Nat) (p : Peer) (log more : List Mark) :
    writtenBy tasks p (log ++ more) = writtenBy tasks p log ++ writtenBy tasks p more := by
  rw [writtenBy, signed_append, List.filter_append]
  rfl

/-- Of the bytes of one task either all are those of some tasks, or none. -/
theorem filter_tagged (tasks : List Nat) (t : Nat) (bytes : Bytes) :
    (bytes.map (t, ·)).filter (fun b => tasks.contains b.1) = if t ∈ tasks then bytes.map (t, ·) else [] := by
  by_cases ht : t ∈ tasks
  · rw [if_pos ht, List.filter_eq_self]
    intro b hb
    obtain ⟨x, -, rfl⟩ := List.mem_map.1 hb
    exact List.contains_iff_mem.2 ht
  · rw [if_neg ht, List.filter_eq_nil_iff]
    intro b hb
    obtain ⟨x, -, rfl⟩ := List.mem_map.1 hb
    exact fun hin => ht (List.contains_iff_mem.1 hin)

section

variable [Service δ] {e : Event} {tasks : List Nat} {t : Nat}

omit [Service δ] in
/-- Who has nothing left to do writes nothing. -/
theorem Stroke.of_rests {p : Peer} {after : Option Bytes} {bytes : Bytes} (hr : h.Rests t)
    (hs : h.Stroke p t (h.rest? p t) after bytes) : bytes = [] := by
  obtain ⟨c, hc, hw, -⟩ := hr
  have hrest : h.rest? p t = Option.none := by
    rw [Hub.rest?, hc, Option.bind_some, Task.rest?, Task.courier?, Option.bind_some, hw]
    rfl
  rw [hrest] at hs
  cases hs with
  | none | start => rfl

/-- Of tasks of which one at most has something left to do, only that one writes. -/
theorem writtenBy_marks (p : Peer) (hrest : ∀ s ∈ tasks, s ≠ t → h.Rests s) (he : h.after? e = some h') :
    writtenBy tasks p (h.marks e h') = if t ∈ tasks then (written t p (h.marks e h')).map (t, ·) else [] := by
  obtain ⟨s, bytes, hstroke, hsigned, -⟩ := stroke_after? p he
  rw [← ofTask_signed, writtenBy, hsigned, filter_tagged]
  by_cases hst : s = t
  · subst hst
    rw [ofTask_map_self]
  · rw [ofTask_map_of_ne _ hst, List.map_nil, ite_self]
    by_cases hs : s ∈ tasks
    · rw [hstroke.of_rests (hrest s hs hst), List.map_nil, ite_self]
    · rw [if_neg hs]

/-- Tasks that have nothing left to do have written all they will. -/
theorem writtenBy_after? (p : Peer) (hrest : ∀ s ∈ tasks, h.Rests s) (he : h.after? e = some h') :
    writtenBy tasks p (log ++ h.marks e h') = writtenBy tasks p log := by
  have hmarks := writtenBy_marks (t := h.tasks.length) p (fun s hs _ => hrest s hs) he
  rw [if_neg] at hmarks
  · rw [writtenBy_append, hmarks, List.append_nil]
  · intro hin
    obtain ⟨c, hc, -⟩ := hrest _ hin
    exact Nat.lt_irrefl _ (List.getElem?_eq_some_iff.1 hc).1

end

end Hub

end Peripheral
