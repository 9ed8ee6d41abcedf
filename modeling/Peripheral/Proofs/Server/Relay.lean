import Peripheral.Proofs.Hub.Rounds
import Peripheral.Proofs.Server.Step

/-!
# The relay of a server

What the history of a server says of its queue and its relay, whatever happens in between (`Queued`, `Numbered`). The numbers
that the queue took are those that the relay began to pass on, and behind them those that still wait; so none is lost, none is
passed on twice, and their order is kept, also over the end of a run. The relay passes numbers on one at a time. In each run
the round of every number but the last comes to its end before the next begins, and the last is cut short only when the run is
told to end.

Start, stop and letting go need the server to themselves (`usedInTurn`); a server whose last run was cleared up after is shut,
and nobody is connected to it (`Shut`).
-/

namespace Peripheral.Server

variable {δ : Type} {s s' : Server δ} {e : Event} {notes more past later : List Note} {offers : List UInt32}

/-! ## The queue -/

/-- What the queue holds and has refused, as the history tells it. -/
structure Queued (s : Server δ) (notes : List Note) (offers : List UInt32) : Prop where
  capacity_eq : s.queue.capacity = queueDepth
  isOpen : s.queue.isOpen = true
  length_le : s.queue.waiting.length ≤ queueDepth
  accepted_eq : acceptedIds notes = (broadcasts notes).map (·.id) ++ s.queue.waiting
  offered_eq : offeredIds notes = offers
  full : ∀ past later id, notes = past ++ .dropped id :: later →
    (acceptedIds past).length = (broadcasts past).length + queueDepth

/-- In a history in which nothing is offered nothing is dropped. -/
theorem not_dropped {id : UInt32} (hoffered : offeredIds more = []) : more ≠ past ++ .dropped id :: later := by
  rintro rfl
  rw [offeredIds_append, List.append_eq_nil_iff] at hoffered
  nomatch hoffered.2

/-- In a history in which no round begins none is begun. -/
theorem not_begun {b : Broadcast} (hbegun : broadcasts more = []) : more ≠ past ++ .begun b :: later := by
  rintro rfl
  rw [broadcasts_append, List.append_eq_nil_iff] at hbegun
  nomatch hbegun.2

/-- The queue is as the history tells it when it is left alone. -/
theorem Queued.still (hq : s.Queued notes offers) (hqueue : s'.queue = s.queue) (hoffered : offeredIds more = [])
    (haccepted : acceptedIds more = []) (hbegun : broadcasts more = []) :
    s'.Queued (notes ++ more) (offers ++ []) where
  capacity_eq := hqueue ▸ hq.capacity_eq
  isOpen := hqueue ▸ hq.isOpen
  length_le := hqueue ▸ hq.length_le
  accepted_eq := by
    rw [acceptedIds_append, broadcasts_append, haccepted, hbegun, List.append_nil, List.append_nil, hqueue,
      hq.accepted_eq]
  offered_eq := by rw [offeredIds_append, hq.offered_eq, hoffered]
  full past later id hsplit := by
    rcases split_append hsplit with ⟨rest, hnotes⟩ | ⟨front, -, hmore⟩
    · exact hq.full past rest id hnotes
    · exact absurd hmore (not_dropped hoffered)

/-- Numbers that are offered go behind those that wait, as long as there is room. -/
theorem Queued.offer {ids : List UInt32} (hq : s.Queued notes offers) (hqueue : s'.queue = (s.queue.offerAll ids).2) :
    s'.Queued (notes ++ s.queue.verdicts ids) (offers ++ ids) := by
  have ho := IrqQueue.offered_offerAll hq.isOpen (hq.capacity_eq ▸ hq.length_le) ids
  have hnone := s.queue.broadcasts_verdicts ids
  rw [← hqueue] at ho
  refine ⟨ho.capacity_eq.trans hq.capacity_eq, ho.isOpen, hq.capacity_eq ▸ ho.length_le, ?_, ?_, ?_⟩
  · rw [acceptedIds_append, broadcasts_append, hq.accepted_eq, hnone, List.append_nil, ho.waiting_eq, List.append_assoc]
  · rw [offeredIds_append, hq.offered_eq, ho.offered_eq]
  · intro past later id hsplit
    rcases split_append hsplit with ⟨rest, hpast⟩ | ⟨front, rfl, hnew⟩
    · exact hq.full past rest id hpast
    · have hfull := ho.full front later id hnew
      rw [hnew, broadcasts_append, List.append_eq_nil_iff] at hnone
      have haccepted := congrArg List.length hq.accepted_eq
      rw [List.length_append, List.length_map] at haccepted
      rw [acceptedIds_append, broadcasts_append, hnone.1, List.append_nil, List.length_append, haccepted]
      have hcap := hq.capacity_eq
      omega

/-- The relay takes the oldest number. -/
theorem Queued.take {b : Broadcast} {rest : List UInt32} (hq : s.Queued notes offers)
    (hw : s.queue.waiting = b.id :: rest) (hqueue : s'.queue = { s.queue with waiting := rest }) :
    s'.Queued (notes ++ [.begun b]) (offers ++ []) := by
  have hlen := hq.length_le
  rw [hw, List.length_cons] at hlen
  refine ⟨hqueue ▸ hq.capacity_eq, hqueue ▸ hq.isOpen, hqueue ▸ Nat.le_of_succ_le hlen, ?_, ?_, ?_⟩
  · rw [acceptedIds_append, broadcasts_append, hq.accepted_eq, hw, hqueue, List.map_append, List.append_assoc,
      List.append_assoc]
    exact congrArg (_ ++ ·) (List.append_nil _)
  · rw [offeredIds_append, hq.offered_eq]
    rfl
  · intro past later id' hsplit
    rcases split_append hsplit with ⟨rest, hpast⟩ | ⟨front, -, hnew⟩
    · exact hq.full past rest id' hpast
    · exact absurd hnew (not_dropped rfl)

section

variable [Service δ]

/-- What an event that takes the next number notes. -/
theorem notes_take {id : UInt32} {rest : List UInt32} {order : List Peer} (hr : s.relay = .waiting)
    (hw : s.queue.waiting = id :: rest) :
    s.notes (.move (.relay order)) =
      [.begun ⟨s.runs - 1, id, ⟨s.hub.tasks.length, s.hub.notice id, order⟩⟩] := by
  rw [Server.notes, hr, hw]

/-- When the relay has passed a number on, its round is complete. -/
theorem notes_passed {t : Nat} {order : List Peer} (hr : s.relay = .pushing t) :
    s.notes (.move (.relay order)) = [.completed t] := by
  rw [Server.notes, hr]

/-- Nothing becomes of any number when the relay ends that waits for one. -/
theorem notes_heed (hr : s.relay = .waiting) : s.notes (.move .relayHeeds) = [] := by
  rw [Server.notes, hr]

/-- When the relay ends that passes a number on, the round is cut short. -/
theorem notes_cut {t : Nat} (hr : s.relay = .pushing t) : s.notes (.move .relayHeeds) = [.cut t] := by
  rw [Server.notes, hr]

/-- The queue is as the history tells it, whatever happens next. -/
theorem Queued.step (hq : s.Queued notes offers) (hs : s.Step e s') :
    s'.Queued (notes ++ s.notes e) (offers ++ s.offers e) := by
  cases hs with
  | aside _ hqueue _ _ _ _ _ hnotes =>
    rw [hnotes]
    exact hq.offer hqueue
  | take hr _ hw =>
    rw [notes_take hr hw]
    exact hq.take hw rfl
  | passed hr =>
    rw [notes_passed hr]
    exact hq.still rfl rfl rfl rfl
  | heed _ hr =>
    rw [notes_heed hr]
    exact hq.still rfl rfl rfl rfl
  | cut _ hr =>
    rw [notes_cut hr]
    exact hq.still rfl rfl rfl rfl
  | request _ _ hqueue _ hoffers _ hnotes =>
    rw [hnotes, hoffers]
    exact hq.still hqueue rfl rfl rfl
  | proceed _ _ _ _ _ hqueue => exact hq.still hqueue rfl rfl rfl
  | prepare | discard | join | bound => exact hq.still rfl rfl rfl rfl

end

/-! ## The order of rounds -/

/-- What becomes of a number that the relay began to pass on: its round comes to its end, or goes on, or was cut short when
the run was told to end, and then nothing more was begun in that run. -/
def Fate (s : Server δ) (notes : List Note) (b : Broadcast) : Prop :=
  .completed b.round.task ∈ notes ∨ s.relay = .pushing b.round.task ∨
    (.cut b.round.task ∈ notes ∧ b.run < s.hub.halted ∧ (s.relay = .ended ∨ b.run + 1 < s.runs))

/-- The relay passes numbers on one at a time. -/
structure Numbered (s : Server δ) (notes : List Note) : Prop where
  run_lt : ∀ b ∈ broadcasts notes, b.run < s.runs
  task_lt : ∀ b ∈ broadcasts notes, b.round.task < s.hub.tasks.length
  ascending : (broadcasts notes).Pairwise fun b b' => b.round.task < b'.round.task
  started : s.relay ≠ .ended → 0 < s.runs
  fate : ∀ b ∈ broadcasts notes, s.Fate notes b
  turn : ∀ past b later, notes = past ++ .begun b :: later → ∀ b' ∈ broadcasts past,
    .completed b'.round.task ∈ past ∨ .cut b'.round.task ∈ past ∧ b'.run < b.run

/-- While no round begins, the order of rounds is kept. -/
theorem Numbered.still (hn : s.Numbered notes) (hruns : s.runs ≤ s'.runs) (hgrows : s.hub.Grows s'.hub)
    (hbegun : broadcasts more = []) (hstarted : s'.relay ≠ .ended → 0 < s'.runs)
    (hfate : ∀ b ∈ broadcasts notes, s.Fate notes b → s'.Fate (notes ++ more) b) : s'.Numbered (notes ++ more) := by
  have hsame : broadcasts (notes ++ more) = broadcasts notes := by rw [broadcasts_append, hbegun, List.append_nil]
  refine ⟨?_, ?_, ?_, hstarted, ?_, ?_⟩ <;> rw [hsame] at *
  · exact fun b hb => Nat.lt_of_lt_of_le (hn.run_lt b hb) hruns
  · exact fun b hb => Nat.lt_of_lt_of_le (hn.task_lt b hb) hgrows.tasks_le
  · exact hn.ascending
  · exact fun b hb => hfate b hb (hn.fate b hb)
  · intro past b later hsplit
    rcases split_append hsplit with ⟨rest, hpast⟩ | ⟨front, -, hmore⟩
    · exact hn.turn past b rest hpast
    · exact absurd hmore (not_begun hbegun)

/-- What has become of a number remains so while the relay does nothing, also into another run. -/
theorem Fate.still {b : Broadcast} (hf : s.Fate notes b) (hrelay : s'.relay = s.relay) (hruns : s.runs ≤ s'.runs)
    (hgrows : s.hub.Grows s'.hub) : s'.Fate (notes ++ more) b := by
  rcases hf with hdone | hpushing | ⟨hcut, hlt, hover⟩
  · exact Or.inl (List.mem_append_left _ hdone)
  · exact Or.inr (Or.inl (hrelay.trans hpushing))
  · refine Or.inr (Or.inr ⟨List.mem_append_left _ hcut, Nat.lt_of_lt_of_le hlt hgrows.halted_le, ?_⟩)
    exact hover.imp hrelay.trans fun hearlier => Nat.lt_of_lt_of_le hearlier hruns

/-- Nothing that was begun goes on while the relay waits, and what was begun in the same run has come to its end. -/
theorem Fate.of_waiting {b : Broadcast} (hf : s.Fate notes b) (hr : s.relay = .waiting) :
    .completed b.round.task ∈ notes ∨ .cut b.round.task ∈ notes ∧ b.run < s.hub.halted ∧ b.run + 1 < s.runs := by
  rcases hf with hdone | hpushing | ⟨hcut, hlt, hover | hearlier⟩
  · exact Or.inl hdone
  · rw [hr] at hpushing
    nomatch hpushing
  · rw [hr] at hover
    nomatch hover
  · exact Or.inr ⟨hcut, hlt, hearlier⟩

/-- A round begins after all others. -/
theorem Numbered.take {b : Broadcast} (hn : s.Numbered notes) (hr : s.relay = .waiting) (hruns : s'.runs = s.runs)
    (hgrows : s.hub.Grows s'.hub) (hrelay : s'.relay = .pushing b.round.task) (hrun : b.run = s.runs - 1)
    (htask : b.round.task = s.hub.tasks.length) (hlt : b.round.task < s'.hub.tasks.length) :
    s'.Numbered (notes ++ [.begun b]) := by
  have hpos : 0 < s.runs := hn.started (by simp [hr])
  have hall : broadcasts (notes ++ [.begun b]) = broadcasts notes ++ [b] := broadcasts_append _ _
  refine ⟨?_, ?_, ?_, fun _ => hruns ▸ hpos, ?_, ?_⟩
  · rw [hall, hruns]
    intro b' hb
    rcases List.mem_append.1 hb with hb | hb
    · exact hn.run_lt b' hb
    · rw [List.mem_singleton.1 hb, hrun]
      exact Nat.sub_lt hpos Nat.one_pos
  · rw [hall]
    intro b' hb
    rcases List.mem_append.1 hb with hb | hb
    · exact Nat.lt_of_lt_of_le (hn.task_lt b' hb) hgrows.tasks_le
    · rw [List.mem_singleton.1 hb]
      exact hlt
  · rw [hall, List.pairwise_append]
    refine ⟨hn.ascending, List.pairwise_singleton _ _, fun b' hb b'' hb' => ?_⟩
    rw [List.mem_singleton.1 hb', htask]
    exact hn.task_lt b' hb
  -- The relay waits, so of what was begun nothing goes on, and what was cut short is of an earlier run.
  · rw [hall]
    intro b' hb
    rcases List.mem_append.1 hb with hb | hb
    · rcases (hn.fate b' hb).of_waiting hr with hdone | ⟨hcut, hhalted, hearlier⟩
      · exact Or.inl (List.mem_append_left _ hdone)
      · exact Or.inr (Or.inr ⟨List.mem_append_left _ hcut, Nat.lt_of_lt_of_le hhalted hgrows.halted_le,
          Or.inr (hruns ▸ hearlier)⟩)
    · rw [List.mem_singleton.1 hb]
      exact Or.inr (Or.inl hrelay)
  · intro past b' later hsplit
    rcases split_append hsplit with ⟨rest, hpast⟩ | ⟨front, rfl, hnew⟩
    · exact hn.turn past b' rest hpast
    · obtain ⟨rfl, hb⟩ : front = [] ∧ b = b' := by
        cases front with
        | nil => exact ⟨rfl, Note.begun.inj (List.cons.inj hnew).1⟩
        | cons _ front => cases front <;> nomatch (List.cons.inj hnew).2
      subst hb
      rw [List.append_nil]
      intro b' hb
      rcases (hn.fate b' hb).of_waiting hr with hdone | ⟨hcut, -, hearlier⟩
      · exact Or.inl hdone
      · exact Or.inr ⟨hcut, hrun ▸ Nat.lt_sub_of_add_lt hearlier⟩

/-- Of two numbers that are passed on in the same run, the round of one at least comes to its end. -/
theorem Numbered.completed_or {b b' : Broadcast} (hn : s.Numbered notes) (hb : b ∈ broadcasts notes)
    (hb' : b' ∈ broadcasts notes) (hrun : b.run = b'.run) :
    .completed b.round.task ∈ notes ∨ .completed b'.round.task ∈ notes ∨ b = b' := by
  have before : ∀ past later b b', notes = past ++ .begun b' :: later → b ∈ broadcasts past → b.run = b'.run →
      .completed b.round.task ∈ notes := by
    intro past later b b' hsplit hin hrun
    rcases hn.turn past b' later hsplit b hin with hdone | ⟨-, hlt⟩
    · exact hsplit ▸ List.mem_append_left _ hdone
    · exact absurd hrun (Nat.ne_of_lt hlt)
  obtain ⟨past, later, hsplit⟩ := List.append_of_mem (mem_broadcasts.1 hb')
  rw [hsplit, broadcasts_append] at hb
  rcases List.mem_append.1 hb with hb | hb
  · exact Or.inl (before past later b b' hsplit hb hrun)
  · rcases List.mem_cons.1 (mem_broadcasts.1 hb) with heq | hlater
    · exact Or.inr (Or.inr (Note.begun.inj heq))
    · obtain ⟨between, rest, hsplit'⟩ := List.append_of_mem hlater
      refine Or.inr (Or.inl (before (past ++ .begun b' :: between) rest b' b ?_ ?_ hrun.symm))
      · rw [hsplit, hsplit', List.append_assoc, List.cons_append]
      · exact mem_broadcasts.2 (List.mem_append_right _ List.mem_cons_self)

section

variable [Service δ]

/-- Numbers are passed on one at a time, whatever happens next. -/
theorem Numbered.step (hn : s.Numbered notes) (hgrows : s.hub.Grows s'.hub) (hs : s.Step e s')
    (hended : s.call = .binding → s.relay = .ended) : s'.Numbered (notes ++ s.notes e) := by
  have still : ∀ more, broadcasts more = [] → s'.relay = s.relay → s'.runs = s.runs → s'.Numbered (notes ++ more) := by
    intro more hbegun hrelay hruns
    refine hn.still (Nat.le_of_eq hruns.symm) hgrows hbegun ?_ fun b _ hf =>
      hf.still hrelay (Nat.le_of_eq hruns.symm) hgrows
    rw [hrelay, hruns]
    exact hn.started
  cases hs with
  | aside hrelay _ hruns _ _ _ _ hnotes => exact still _ (hnotes ▸ IrqQueue.broadcasts_verdicts _ _) hrelay hruns
  | @take id rest order hr _ hw =>
    rw [notes_take hr hw]
    exact hn.take hr rfl hgrows rfl rfl rfl (by simp [Hub.broadcastIn, Hub.spawn])
  | @passed t order hr =>
    rw [notes_passed hr]
    refine hn.still (Nat.le_refl _) hgrows rfl (fun _ => hn.started (by simp [hr])) fun b _ hf => ?_
    rcases hf with hdone | hpushing | ⟨hcut, hlt, hover | hearlier⟩
    · exact Or.inl (List.mem_append_left _ hdone)
    · rw [hr] at hpushing
      cases hpushing
      exact Or.inl (List.mem_append_right _ List.mem_cons_self)
    · rw [hr] at hover
      cases hover
    · exact Or.inr (Or.inr ⟨List.mem_append_left _ hcut, hlt, Or.inr hearlier⟩)
  | heed _ hr =>
    rw [notes_heed hr]
    refine hn.still (Nat.le_refl _) hgrows rfl (fun hne => absurd rfl hne) fun b _ hf => ?_
    rcases hf.of_waiting hr with hdone | ⟨hcut, hlt, -⟩
    · exact Or.inl (List.mem_append_left _ hdone)
    · exact Or.inr (Or.inr ⟨List.mem_append_left _ hcut, hlt, Or.inl rfl⟩)
  | @cut t htold hr =>
    rw [notes_cut hr]
    refine hn.still (Nat.le_refl _) hgrows rfl (fun hne => absurd rfl hne) fun b hb hf => ?_
    rcases hf with hdone | hpushing | ⟨hcut, hlt, -⟩
    · exact Or.inl (List.mem_append_left _ hdone)
    · rw [hr] at hpushing
      cases hpushing
      have hlt : b.run < s.hub.halted := Nat.lt_of_lt_of_le (hn.run_lt b hb) (of_decide_eq_true htold)
      exact Or.inr (Or.inr ⟨List.mem_append_right _ List.mem_cons_self, Nat.lt_of_lt_of_le hlt hgrows.halted_le,
        Or.inl rfl⟩)
    · exact Or.inr (Or.inr ⟨List.mem_append_left _ hcut, Nat.lt_of_lt_of_le hlt hgrows.halted_le, Or.inl rfl⟩)
  | request _ hrelay _ hruns _ _ hnotes => exact still _ (hnotes ▸ rfl) hrelay hruns
  | proceed _ _ _ _ hrelay _ hruns => exact still _ rfl hrelay hruns
  | prepare | discard | join => exact still _ rfl rfl rfl
  | bound hcall =>
    refine hn.still (Nat.le_succ _) hgrows rfl (fun _ => Nat.succ_pos _) fun b hb hf => ?_
    rcases hf with hdone | hpushing | ⟨hcut, hlt, -⟩
    · exact Or.inl (List.mem_append_left _ hdone)
    · rw [hended hcall] at hpushing
      cases hpushing
    · exact Or.inr (Or.inr ⟨List.mem_append_left _ hcut, hlt, Or.inr (Nat.succ_lt_succ (hn.run_lt b hb))⟩)

end

/-! ## Starting and stopping -/

/-- Nobody comes in, nothing is passed on, and nobody is connected. -/
structure Shut (s : Server δ) : Prop where
  gate_ended : s.gate = .ended
  relay_ended : s.relay = .ended
  members_nil : s.hub.members = []

/-- Whether a server has no run that somebody has yet to clear up after, and may still be started. -/
def awaitsRun (s : Server δ) (gone : Bool) : Bool :=
  match s.call with
  | .idle => !s.engaged && !gone
  | .joining _ => false
  | .emptying .. | .preparing | .binding => true

/-- Whether the owner lets go of the server. -/
def Event.isDiscard : Event → Bool
  | discard => true
  | _ => false

section

variable [Service δ]

/-- Whether an event can come about by the use of a server that may be gone already. To start it, to stop it and to let go of
it one needs to have it to oneself. Once it is gone and its relay has ended, nobody is left to offer numbers to. -/
def permits (s : Server δ) (gone : Bool) : Event → Bool
  | .start | .stop | .discard => s.call == .idle && !gone
  | e => !gone || s.relay != .ended || (s.offers e).isEmpty

/-- Whether a server is used by one at a time, in a run that may begin after it is gone. -/
def usedInTurn (s : Server δ) (d : Disk) (gone : Bool) : List Event → Bool
  | [] => true
  | e :: rest =>
    s.permits gone e && ((s.after? d e).map fun x => x.1.usedInTurn x.2 (gone || e.isDiscard) rest).getD true

omit [Service δ] in
/-- A server that waits for a run waited for one before, if requests and runs are as they were. -/
theorem awaitsRun_of_same {gone x : Bool} (hcall : s'.call = s.call) (hengaged : s'.engaged = s.engaged)
    (ha : s'.awaitsRun (gone || x) = true) : s.awaitsRun gone = true := by
  rw [awaitsRun, hcall, hengaged] at ha
  rw [awaitsRun]
  split at ha <;> simp_all

/-- A server that awaits its next run is shut. -/
theorem Shut.step {gone : Bool} (hs : s.Step e s') (hp : s.permits gone e = true)
    (hshut : s.awaitsRun gone = true → s.Shut)
    (hmembers : (∀ link, .attach link ∉ s.toHub e) → s.hub.members = [] → s'.hub.members = [])
    (ha : s'.awaitsRun (gone || e.isDiscard) = true) : s'.Shut := by
  -- A relay that is at work contradicts that the server is shut.
  have busy : s'.call = s.call → s'.engaged = s.engaged → s.relay ≠ .ended → s'.Shut := fun hcall hengaged hne =>
    absurd (hshut (awaitsRun_of_same hcall hengaged ha)).relay_ended hne
  cases hs with
  | aside hrelay _ _ hcall hengaged hkeeps =>
    have hs := hshut (awaitsRun_of_same hcall hengaged ha)
    obtain ⟨hgate, hnobody⟩ := hkeeps hs.gate_ended
    exact ⟨hgate, hrelay.trans hs.relay_ended, hmembers hnobody hs.members_nil⟩
  | take hr | passed hr | heed _ hr | cut _ hr => exact busy rfl rfl (by simp [hr])
  | request hcall =>
    rw [awaitsRun, hcall] at ha
    nomatch ha
  | prepare hengaged =>
    obtain ⟨hidle, hgone⟩ := Bool.and_eq_true_iff.1 hp
    have hs := hshut (by rw [awaitsRun, eq_of_beq hidle, hengaged, hgone]; rfl)
    exact ⟨hs.gate_ended, hs.relay_ended, hs.members_nil⟩
  | discard =>
    obtain ⟨hidle, -⟩ := Bool.and_eq_true_iff.1 hp
    rw [awaitsRun] at ha
    simp only [eq_of_beq hidle, Event.isDiscard, Bool.or_true, Bool.not_true, Bool.and_false] at ha
    nomatch ha
  | join _ hgate hrelay => exact ⟨hgate, hrelay, rfl⟩
  | proceed hne hjoin hhub hgate hrelay =>
    have hs : s.Shut := hshut (by
      rw [awaitsRun]
      cases hc : s.call with
      | idle => exact absurd hc hne
      | joining goal => exact absurd hc (hjoin goal)
      | emptying | preparing | binding => rfl)
    exact ⟨hgate.trans hs.gate_ended, hrelay.trans hs.relay_ended, hhub ▸ hs.members_nil⟩
  | bound => nomatch ha

end

end Peripheral.Server
