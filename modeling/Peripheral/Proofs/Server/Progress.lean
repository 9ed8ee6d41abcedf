import Peripheral.Proofs.Server.Relay

/-!
# The relay gets on

As long as the relay has not ended, the server can pass on by itself whatever waits in the queue, in the order in which it
waits (`drains`). Nobody has to do anything for that: a round comes to its end at the latest when the time of every peer in it
is over (`round_ends`), and the next number can then be taken.
-/

namespace Peripheral.Server

variable {δ : Type} [Service δ] {s s' s'' : Server δ} {d : Disk} {notes more : List Note}

/-- What a server does by itself to pass numbers on, and what time does. -/
def Event.isOwn : Event → Bool
  | .move (.hub _) | .move (.relay _) | .wait _ => true
  | _ => false

/-- The server can come to another state by itself, and so many things become of numbers on the way. -/
inductive Onward (d : Disk) : Server δ → List Note → Server δ → Prop
  | refl (s : Server δ) : Onward d s [] s
  | step {s s' s'' : Server δ} {e : Event} {more : List Note} : e.isOwn = true → s.after? d e = some (s', d) →
      Onward d s' more s'' → Onward d s (s.notes e ++ more) s''

theorem Onward.trans (hon : Onward d s notes s') (hmore : Onward d s' more s'') : Onward d s (notes ++ more) s'' := by
  induction hon with
  | refl => exact hmore
  | step hown he _ ih =>
    rw [List.append_assoc]
    exact .step hown he (ih hmore)

/-- What the server can come to by itself it comes to in a run. -/
theorem Onward.run (hon : Onward d s notes s') :
    ∃ events es, (∀ e ∈ events, e.isOwn = true) ∧ s.run? d events = some (s', d, es) ∧ s.history d events = notes := by
  induction hon with
  | refl => exact ⟨[], [], List.forall_mem_nil _, rfl, rfl⟩
  | @step s s₁ s₂ e more hown he _ ih =>
    obtain ⟨events, es, howns, hrun, rfl⟩ := ih
    refine ⟨e :: events, s.toHub e ++ es, List.forall_mem_cons.2 ⟨hown, howns⟩, run?_cons he hrun, ?_⟩
    rw [history, he]
    rfl

/-- An errand can come to its end, and the server does nothing else meanwhile. -/
theorem errand_ends {t : Nat} {c : Courier} (hc : s.hub.tasks[t]? = some (.errand c)) (d : Disk) :
    ∃ hub c', Onward d s [] { s with hub } ∧ hub.tasks[t]? = some (.errand c') ∧ c'.isFinished = true ∧
      hub.halted = s.hub.halted := by
  -- Every step of the courier leaves it less to do.
  induction hn : c.effort using Nat.strongRecOn generalizing s c with
  | _ n ih =>
    cases hfin : c.isFinished with
    | true => exact ⟨s.hub, c, .refl s, hc, hfin, rfl⟩
    | false =>
      obtain ⟨ms, m, rfl, hm⟩ := Hub.goes_on hc hfin
      obtain ⟨h, hm⟩ := Option.isSome_iff_exists.1 hm
      obtain ⟨a, b, h', ha, hs, rfl⟩ := Hub.taskStep_of_move? hm
      cases Option.some.inj (hc.symm.trans ha)
      cases hs with
      | @errand _ c' _ hs =>
        have hc' : (h'.setTask m.task (.errand c')).tasks[m.task]? = some (.errand c') :=
          Hub.tasks_setTask_self _ (hs.tasks_eq ▸ hc)
        obtain ⟨hub, c'', hon, hend, hdone, hhalted⟩ := ih c'.effort (hn ▸ hs.effort_lt)
          (s := { s with hub := h'.setTask m.task (.errand c') }) hc' rfl
        have hwait : s.after? d (.wait ms) = some ({ s with hub := { s.hub with clock := s.hub.clock + ms } }, d) := rfl
        have hmove : ({ s with hub := { s.hub with clock := s.hub.clock + ms } } : Server δ).after? d (.move (.hub m)) =
            some ({ s with hub := h'.setTask m.task (.errand c') }, d) := by
          rw [after?, move?, hm]
          rfl
        exact ⟨hub, c'', .step rfl hwait (.step rfl hmove hon), hend, hdone, hhalted.trans hs.halted_eq⟩

/-- A round that goes on can come to its end. -/
theorem round_ends {t : Nat} {c : Courier} (hr : s.relay = .pushing t) (hc : s.hub.tasks[t]? = some (.errand c)) (d : Disk) :
    ∃ s', Onward d s [.completed t] s' ∧ s'.relay = .waiting ∧ s'.queue = s.queue := by
  obtain ⟨hub, c', hon, hend, hfin, -⟩ := errand_ends hc d
  have hdone : hub.isFinished t = true := by
    rw [Hub.isFinished, hend]
    exact hfin
  have he : ({ s with hub } : Server δ).after? d (.move (.relay [])) = some ({ s with hub, relay := .waiting }, d) := by
    rw [after?, move?, advanceRelay, hr]
    simp only [hdone, if_true, Option.map_some]
  have hnotes : ({ s with hub } : Server δ).notes (.move (.relay [])) = [.completed t] := notes_passed hr
  have hover := Onward.step rfl he (.refl _)
  rw [hnotes] at hover
  exact ⟨_, hon.trans hover, rfl, rfl⟩

/-- A relay that waits can take the oldest number. -/
theorem takes {id : UInt32} {rest : List UInt32} (hr : s.relay = .waiting) (hw : s.queue.waiting = id :: rest) (d : Disk) :
    s.after? d (.move (.relay s.hub.members)) = some ({ s with
      queue := { s.queue with waiting := rest }
      relay := .pushing s.hub.tasks.length
      hub := s.hub.broadcastIn s.hub.members (s.hub.notice id) }, d) := by
  have hperm : s.hub.members.isPerm s.hub.members = true := List.isPerm_iff.2 (.refl _)
  rw [after?, move?, advanceRelay, hr]
  simp only [hperm, if_true, IrqQueue.take?, hw, Option.map_some]

omit [Service δ] in
/-- Of a server everything is passed on that its relay was passing on and that waited in its queue, in that order. -/
structure Drained (s : Server δ) (notes : List Note) (s' : Server δ) : Prop where
  relay_eq : s'.relay = .waiting
  waiting_eq : s'.queue.waiting = []
  ids_eq : (broadcasts notes).map (·.id) = s.queue.waiting
  current : ∀ t, s.relay = .pushing t → .completed t ∈ notes
  completed : ∀ b ∈ broadcasts notes, .completed b.round.task ∈ notes

omit [Service δ] in
/-- The first of two rounds or more. -/
theorem Drained.begun {b : Broadcast} (hr : s.relay = .waiting) (hw : s.queue.waiting = b.id :: s'.queue.waiting)
    (hd : s'.Drained notes s'') : s.Drained ([.begun b] ++ ([.completed b.round.task] ++ notes)) s'' where
  relay_eq := hd.relay_eq
  waiting_eq := hd.waiting_eq
  ids_eq := by
    rw [broadcasts_append, broadcasts_append, List.map_append, List.map_append, hd.ids_eq, hw]
    rfl
  current t ht := by
    rw [hr] at ht
    cases ht
  completed b' hb := by
    rw [broadcasts_append, broadcasts_append] at hb
    rcases List.mem_append.1 hb with hb | hb
    · cases List.mem_singleton.1 hb
      exact List.mem_append_right _ (List.mem_append_left _ List.mem_cons_self)
    · exact List.mem_append_right _ (List.mem_append_right _ (hd.completed b' hb))

/-- A relay that waits can pass on whatever waits. -/
theorem drains_waiting (hr : s.relay = .waiting) (d : Disk) : ∃ more s', Onward d s more s' ∧ s.Drained more s' := by
  induction hw : s.queue.waiting generalizing s with
  | nil => exact ⟨[], s, .refl s, hr, hw, hw.symm, fun t ht => by simp [hr] at ht, nofun⟩
  | cons id rest ih =>
    have hc : (s.hub.broadcastIn s.hub.members (s.hub.notice id)).tasks[s.hub.tasks.length]? =
        some (.errand (.start (s.hub.members.map (.send · (s.hub.notice id))))) := List.getElem?_concat_length
    obtain ⟨s₁, hround, hwaiting, hqueue⟩ := round_ends (s := { s with
      queue := { s.queue with waiting := rest }
      relay := .pushing s.hub.tasks.length
      hub := s.hub.broadcastIn s.hub.members (s.hub.notice id) }) rfl hc d
    have hrest : s₁.queue.waiting = rest := congrArg (·.waiting) hqueue
    obtain ⟨more, s', hon, hdrained⟩ := ih hwaiting hrest
    have hall := Onward.step rfl (takes hr hw d) (hround.trans hon)
    rw [notes_take hr hw] at hall
    exact ⟨_, s', hall, .begun hr (hrest ▸ hw) hdrained⟩

/-- As long as the relay has not ended, the server can pass on by itself whatever waits, in the order in which it waits. -/
theorem drains (hne : s.relay ≠ .ended) (hround : ∀ t, s.relay = .pushing t → ∃ c, s.hub.tasks[t]? = some (.errand c))
    (d : Disk) : ∃ more s', Onward d s more s' ∧ s.Drained more s' := by
  cases hr : s.relay with
  | waiting => exact drains_waiting hr d
  | pushing t =>
    obtain ⟨c, hc⟩ := hround t hr
    obtain ⟨s₁, hends, hwaiting, hqueue⟩ := round_ends hr hc d
    obtain ⟨more, s', hon, hdrained⟩ := drains_waiting hwaiting d
    refine ⟨_, s', hends.trans hon, hdrained.relay_eq, hdrained.waiting_eq, ?_, fun t' ht => ?_, fun b hb => ?_⟩
    · rw [broadcasts_append, List.map_append, hdrained.ids_eq, hqueue]
      rfl
    · cases hr.symm.trans ht
      exact List.mem_append_left _ List.mem_cons_self
    · rw [broadcasts_append] at hb
      exact List.mem_append_right _ (hdrained.completed b hb)
  | ended => exact absurd hr hne

end Peripheral.Server
