import Mathlib.Data.List.Nodup
import Peripheral.Device.RegisterFile
import Peripheral.Proofs.Frame.RoundTrip
import Peripheral.Proofs.Server.Progress

/-!
# Interrupts on their way to the peers

What the relay of a server begins is a round of its hub, and as the relay begins one after the other, these are rounds in
succession (`Passing`). So what is known of the queue and of the relay on the one side, and of rounds on the other, holds of
every run of a server together: `interrupts_relayed` says what becomes of every number that is offered, and what every peer
gets of it.
-/

namespace Peripheral

/-- The rounds of the numbers that the relay began to pass on. -/
def rounds (notes : List Note) : List Round := (broadcasts notes).map (·.round)

theorem rounds_append (notes more : List Note) : rounds (notes ++ more) = rounds notes ++ rounds more := by
  rw [rounds, broadcasts_append, List.map_append]
  rfl

namespace Server

variable {δ : Type} [Service δ] {s s' : Server δ} {e : Event} {notes more : List Note} {log new : List Mark}

omit [Service δ] in
/-- The rounds of the hub are those of the history, and go on exactly while the relay is passing on. -/
structure Passing (s : Server δ) (notes : List Note) (log : List Mark) : Prop where
  waiting : s.relay = .waiting → s.hub.Ready log (rounds notes)
  pushing : ∀ t, s.relay = .pushing t → ∃ front b, broadcasts notes = front ++ [b] ∧ b.round.task = t ∧
    s.hub.Pushing log (front.map (·.round)) b.round
  ended : s.relay = .ended → s.hub.Resting log (rounds notes)
  done : ∀ t, .completed t ∈ notes → ∃ b ∈ broadcasts notes, b.round.task = t ∧ s.hub.Done log b.round

/-- Whatever the relay is doing, every peer has got some numbers in a row. -/
theorem Passing.stretch (hp : s.Passing notes log) (p : Peer) :
    Hub.Stretch (rounds notes) (Hub.roundBytes (rounds notes) p log) := by
  cases hr : s.relay with
  | waiting => exact ((hp.waiting hr).steady p).stretch
  | pushing t =>
    obtain ⟨front, b, hall, -, hpush⟩ := hp.pushing t hr
    rw [rounds, hall, List.map_append]
    exact hpush.stretch p
  | ended => exact (hp.ended hr).stretch p

/-- Whatever was completed remains done. -/
theorem Passing.done_run {es : List Hub.Event} {t : Nat} (hp : s.Passing notes log) (more : List Note)
    (hrun : s.hub.run? es = some (s'.hub, new)) (ht : .completed t ∈ notes) :
    ∃ b ∈ broadcasts (notes ++ more), b.round.task = t ∧ s'.hub.Done (log ++ new) b.round := by
  obtain ⟨b, hb, htask, hdone⟩ := hp.done t ht
  exact ⟨b, broadcasts_append _ _ ▸ List.mem_append_left _ hb, htask, hdone.run hrun⟩

/-- While the relay does nothing, rounds are where they were, whatever happens in the hub. -/
theorem Passing.still {es : List Hub.Event} (hp : s.Passing notes log) (ho : s.hub.Orderly log)
    (hrun : s.hub.run? es = some (s'.hub, new)) (hgentle : Gentle es) (hrelay : s'.relay = s.relay)
    (hbegun : broadcasts more = []) (hdone : ∀ t, .completed t ∉ more) : s'.Passing (notes ++ more) (log ++ new) := by
  have hsame : broadcasts (notes ++ more) = broadcasts notes := by rw [broadcasts_append, hbegun, List.append_nil]
  have hrounds : rounds (notes ++ more) = rounds notes := by rw [rounds, hsame, rounds]
  refine ⟨?_, ?_, ?_, ?_⟩
  · rw [hrelay, hrounds]
    exact fun hr => (hp.waiting hr).run hrun
  · rw [hrelay, hsame]
    intro t hr
    obtain ⟨front, b, hall, htask, hpush⟩ := hp.pushing t hr
    exact ⟨front, b, hall, htask, hpush.run ho (hgentle _) hrun⟩
  · rw [hrelay, hrounds]
    exact fun hr => (hp.ended hr).run hrun
  · intro t ht
    rcases List.mem_append.1 ht with ht | ht
    · exact hp.done_run more hrun ht
    · exact absurd ht (hdone t)

/-- A round of all connected peers begins. -/
theorem Passing.take {b : Broadcast} {past : List Hub.Event} {device : δ} {patience : Nat} (hp : s.Passing notes log)
    (hpast : (Hub.start device patience).run? past = some (s.hub, log)) (hr : s.relay = .waiting)
    (hrelay : s'.relay = .pushing b.round.task) (htask : b.round.task = s.hub.tasks.length)
    (hperm : b.round.order.Perm s.hub.members) (hhub : s'.hub = s.hub.broadcastIn b.round.order b.round.frame)
    (hrun : s.hub.run? [.broadcast b.round.order b.round.frame] = some (s'.hub, [])) :
    s'.Passing (notes ++ [.begun b]) log := by
  have hall : broadcasts (notes ++ [.begun b]) = broadcasts notes ++ [b] := broadcasts_append _ _
  have hround : b.round = ⟨s.hub.tasks.length, b.round.frame, b.round.order⟩ := by rw [← htask]
  refine ⟨fun hw => ?_, fun t ht => ⟨broadcasts notes, b, hall, ?_, ?_⟩, fun hended => ?_, fun t ht => ?_⟩
  · rw [hrelay] at hw
    nomatch hw
  · rw [hrelay] at ht
    exact Relay.pushing.inj ht
  · rw [hhub, hround]
    exact (hp.waiting hr).begin hpast hperm
  · rw [hrelay] at hended
    nomatch hended
  · rcases List.mem_append.1 ht with ht | ht
    · have hdone := hp.done_run [.begun b] hrun ht
      rw [List.append_nil] at hdone
      exact hdone
    · nomatch List.mem_singleton.1 ht

omit [Service δ] in
/-- A round is over. -/
theorem Passing.passed {t : Nat} (hp : s.Passing notes log) (hr : s.relay = .pushing t)
    (hfin : s.hub.isFinished t = true) (hrelay : s'.relay = .waiting) (hhub : s'.hub = s.hub) :
    s'.Passing (notes ++ [.completed t]) log := by
  obtain ⟨front, b, hall, rfl, hpush⟩ := hp.pushing t hr
  have hsame : broadcasts (notes ++ [.completed b.round.task]) = broadcasts notes := by
    rw [broadcasts_append]
    exact List.append_nil _
  have hrests := hpush.underway.rests hfin
  refine ⟨fun _ => ?_, fun t ht => ?_, fun hended => ?_, fun t ht => ?_⟩
  · rw [hhub, rounds, hsame, hall, List.map_append]
    exact hpush.finish hrests
  · rw [hrelay] at ht
    nomatch ht
  · rw [hrelay] at hended
    nomatch hended
  · rw [hsame, hhub]
    rcases List.mem_append.1 ht with ht | ht
    · exact hp.done t ht
    · cases List.mem_singleton.1 ht
      exact ⟨b, hall ▸ List.mem_append_right _ List.mem_cons_self, rfl, hrests, fun p hin =>
        ⟨hpush.underway.peer_lt p hin, hpush.underway.settled hrests p hin⟩⟩

/-- A round is cut short. -/
theorem Passing.cut {t : Nat} (hp : s.Passing notes log) (hr : s.relay = .pushing t) (hrelay : s'.relay = .ended)
    (hhub : s'.hub = s.hub.cutShort t) : s'.Passing (notes ++ [.cut t]) log := by
  have hrun : s.hub.run? [.cutShort t] = some (s'.hub, []) := hhub ▸ rfl
  obtain ⟨front, b, hall, rfl, hpush⟩ := hp.pushing t hr
  refine ⟨fun hw => ?_, fun t ht => ?_, fun _ => ?_, fun t ht => ?_⟩
  · rw [hrelay] at hw
    nomatch hw
  · rw [hrelay] at ht
    nomatch ht
  · rw [rounds_append, rounds, hall, List.map_append, hhub, show rounds [.cut b.round.task] = [] from rfl, List.append_nil]
    exact hpush.cut
  · rcases List.mem_append.1 ht with ht | ht
    · have hdone := hp.done_run [.cut b.round.task] hrun ht
      rw [List.append_nil] at hdone
      exact hdone
    · nomatch List.mem_singleton.1 ht

omit [Service δ] in
/-- The relay ends between two rounds. -/
theorem Passing.heed (hp : s.Passing notes log) (hr : s.relay = .waiting) (hrelay : s'.relay = .ended)
    (hhub : s'.hub = s.hub) : s'.Passing notes log := by
  refine ⟨fun hw => ?_, fun t ht => ?_, fun _ => hhub ▸ (hp.waiting hr).rest, hhub ▸ hp.done⟩
  · rw [hrelay] at hw
    nomatch hw
  · rw [hrelay] at ht
    nomatch ht

/-- The relay of a new run begins to wait, when nobody is connected. -/
theorem Passing.bound {past : List Hub.Event} {device : δ} {patience : Nat} (hp : s.Passing notes log)
    (hpast : (Hub.start device patience).run? past = some (s.hub, log)) (hshut : s.Shut) (hrelay : s'.relay = .waiting)
    (hhub : s'.hub = s.hub) : s'.Passing notes log := by
  refine ⟨fun _ => ?_, fun t ht => ?_, fun hended => ?_, hhub ▸ hp.done⟩
  · exact hhub ▸ (hp.ended hshut.relay_ended).open hpast hshut.members_nil
  · rw [hrelay] at ht
    nomatch ht
  · rw [hrelay] at hended
    nomatch hended

omit [Service δ] in
/-- A request that goes on cuts nothing short. -/
theorem gentle_caller [Service δ] (order : List Peer) : Gentle (s.toHub (.move (.caller order))) := by
  intro t
  rw [toHub, moveToHub]
  split <;> simp

/-- What the relay passes on is in order, whatever happens next. -/
theorem Passing.step {past : List Hub.Event} {device : δ} {patience : Nat} (hp : s.Passing notes log)
    (hpast : (Hub.start device patience).run? past = some (s.hub, log)) (hs : s.Step e s')
    (hrun : s.hub.run? (s.toHub e) = some (s'.hub, new)) (hshut : s.call = .binding → s.Shut) :
    s'.Passing (notes ++ s.notes e) (log ++ new) := by
  have ho := Hub.orderly_run hpast
  cases hs with
  | aside hrelay _ _ _ _ _ hgentle hnotes =>
    refine hp.still ho hrun hgentle hrelay (hnotes ▸ IrqQueue.broadcasts_verdicts _ _) fun t ht => ?_
    rw [hnotes] at ht
    obtain ⟨id, heq | heq⟩ := IrqQueue.mem_verdicts ht <;> cases heq
  | @take id rest order hr hperm hw =>
    rw [toHub, moveToHub, hr, hw] at hrun
    obtain ⟨h₁, -, hrest⟩ := Option.bind_eq_some_iff.1 hrun
    obtain ⟨-, rfl⟩ := Prod.mk.inj (Option.some.inj hrest)
    rw [notes_take hr hw, show log ++ (s.hub.marks _ h₁ ++ []) = log from List.append_nil _]
    exact hp.take hpast hr rfl rfl hperm rfl hrun
  | passed hr hfin =>
    rw [toHub, moveToHub, hr] at hrun
    cases hrun
    rw [notes_passed hr, List.append_nil]
    exact hp.passed hr hfin rfl rfl
  | heed _ hr =>
    rw [toHub, moveToHub, hr] at hrun
    cases hrun
    rw [notes_heed hr, List.append_nil, List.append_nil]
    exact hp.heed hr rfl rfl
  | @cut t _ hr =>
    have hcut : s.toHub (.move .relayHeeds) = [.cutShort t] := by rw [toHub, moveToHub, hr]
    rw [hcut] at hrun
    obtain ⟨-, rfl⟩ := Prod.mk.inj (Option.some.inj hrun)
    rw [notes_cut hr, show log ++ (s.hub.marks (.cutShort t) _ ++ []) = log from List.append_nil _]
    exact hp.cut hr rfl rfl
  | request _ hrelay _ _ _ hgentle hnotes =>
    exact hp.still ho hrun hgentle hrelay (hnotes ▸ rfl) fun t ht => by
      rw [hnotes] at ht
      cases ht
  | prepare hengaged => exact hp.still ho hrun (fun t => by simp [toHub, hengaged]) rfl rfl fun t => List.not_mem_nil
  | discard hengaged => exact hp.still ho hrun (fun t => by simp [toHub, hengaged]) rfl rfl fun t => List.not_mem_nil
  | join => exact hp.still ho hrun (gentle_caller _) rfl rfl fun t => List.not_mem_nil
  | proceed _ _ _ _ hrelay => exact hp.still ho hrun (gentle_caller _) hrelay rfl fun t => List.not_mem_nil
  -- The run that begins has no peers yet, so the rounds of the last one do not matter to those that come.
  | bound hcall =>
    rw [toHub, moveToHub, hcall] at hrun
    cases hrun
    rw [List.append_nil, show s.notes (.move (.caller _)) = [] from rfl, List.append_nil]
    exact hp.bound hpast (hshut hcall) rfl rfl

/-! ## Runs -/

section

variable {gone : Bool} {offers : List UInt32} {d d' : Disk} {past : List Hub.Event} {device : δ} {patience : Nat}

/-- In a run of the hub the number is announced as an interrupt of the device to all who are connected at that moment, by a
frame from whose bytes the number can be read. -/
def Announced (device : δ) (patience : Nat) (es : List Hub.Event) (b : Broadcast) : Prop :=
  ∃ es₁ h log, (Hub.start device patience).run? es₁ = some (h, log) ∧
    es₁ ++ [.broadcast b.round.order b.round.frame] <+: es ∧ b.round.task = h.tasks.length ∧
    b.round.frame = h.notice b.id ∧ b.round.frame.interruptNumber? = some b.id ∧
    Frame.decode b.round.frame.encode = .ok b.round.frame ∧ b.round.order.Perm h.members

/-- What the relay begins to pass on is announced. -/
theorem announced_step {b : Broadcast} (hpast : (Hub.start device patience).run? past = some (s.hub, log))
    (hs : s.Step e s') (hb : b ∈ broadcasts (s.notes e)) : Announced device patience (past ++ s.toHub e) b := by
  cases hs with
  | @take id rest order hr hperm hw =>
    rw [notes_take hr hw] at hb
    rw [toHub, moveToHub, hr, hw]
    cases List.mem_singleton.1 hb
    exact ⟨past, s.hub, log, hpast, List.prefix_rfl, rfl, rfl, Frame.interruptNumber?_interrupt _ id,
      (Frame.isCanonical_interrupt _ id).decode_encode, hperm⟩
  | aside _ _ _ _ _ _ _ hnotes =>
    rw [hnotes, IrqQueue.broadcasts_verdicts] at hb
    cases hb
  | request _ _ _ _ _ _ hnotes =>
    rw [hnotes] at hb
    cases hb
  | passed hr =>
    rw [notes_passed hr] at hb
    cases hb
  | heed _ hr =>
    rw [notes_heed hr] at hb
    cases hb
  | cut _ hr =>
    rw [notes_cut hr] at hb
    cases hb
  | prepare | discard | join | proceed | bound => cases hb

/-- What holds of a server that may be gone already, at every moment of a run. -/
structure Relaying (device : δ) (patience : Nat) (s : Server δ) (gone : Bool) (past : List Hub.Event)
    (notes : List Note) (offers : List UInt32) (log : List Mark) : Prop where
  moment : (Hub.start device patience).run? past = some (s.hub, log)
  unused : s.Unused
  queued : s.Queued notes offers
  numbered : s.Numbered notes
  passing : s.Passing notes log
  shut : s.awaitsRun gone = true → s.Shut
  announced : ∀ b ∈ broadcasts notes, Announced device patience past b

/-- When a server is created, nothing was offered, and nothing was passed on. -/
theorem relaying_create (number : Nat) (config : ServerConfig) (device : δ) :
    Relaying device config.patience (create number config device) false [] [] [] [] where
  moment := rfl
  unused _ hx := absurd hx List.not_mem_nil
  queued := ⟨rfl, rfl, Nat.zero_le _, rfl, rfl, fun past _ _ h => absurd h (by simp)⟩
  numbered := ⟨nofun, nofun, .nil, fun h => absurd rfl h, nofun, fun past _ _ h => absurd h (by simp)⟩
  passing := ⟨nofun, nofun, fun _ => ⟨nofun, fun _ => .of_whole List.infix_rfl⟩, nofun⟩
  shut _ := ⟨rfl, rfl, rfl⟩
  announced := nofun

/-- What becomes of interrupt numbers is in order, whatever happens next. -/
theorem Relaying.step (hr : Relaying device patience s gone past notes offers log) (hp : s.permits gone e = true)
    (hs : s.after? d e = some (s', d')) :
    ∃ new, Relaying device patience s' (gone || e.isDiscard) (past ++ s.toHub e) (notes ++ s.notes e)
      (offers ++ s.offers e) (log ++ new) := by
  obtain ⟨⟨new, hrun⟩, hunused⟩ := mirrors_after? (Hub.orderly_run hr.moment) hr.unused hs
  have hstep := step_after? hs
  have hbinding : s.call = .binding → s.Shut := fun hc => hr.shut (by rw [awaitsRun, hc])
  refine ⟨new, Hub.run?_trans hr.moment hrun, hunused hr.unused, hr.queued.step hstep,
    hr.numbered.step (Hub.grows_run hrun) hstep fun hc => (hbinding hc).relay_ended,
    hr.passing.step hr.moment hstep hrun hbinding,
    .step hstep hp hr.shut fun hnobody hm => Hub.members_nil_run hm hnobody hrun, fun b hb => ?_⟩
  rw [broadcasts_append] at hb
  rcases List.mem_append.1 hb with hb | hb
  · obtain ⟨es₁, h, log₁, hrun₁, hprefix, hround⟩ := hr.announced b hb
    exact ⟨es₁, h, log₁, hrun₁, hprefix.trans (List.prefix_append _ _), hround⟩
  · exact announced_step hr.moment hstep hb

/-- What becomes of interrupt numbers is in order throughout a run. -/
theorem Relaying.run {events : List Event} {es : List Hub.Event} (hr : Relaying device patience s gone past notes offers log)
    (hrun : s.run? d events = some (s', d', es)) (hu : s.usedInTurn d gone events = true) :
    ∃ gone' log', Relaying device patience s' gone' (past ++ es) (notes ++ s.history d events)
      (offers ++ s.allOffers d events) log' := by
  induction events generalizing s d gone notes offers log past es with
  | nil =>
    cases hrun
    refine ⟨gone, log, ?_⟩
    rw [history, allOffers, List.append_nil, List.append_nil, List.append_nil]
    exact hr
  | cons e rest ih =>
    obtain ⟨s₁, d₁, es', he, hrest, rfl⟩ := run?_cons_eq_some hrun
    rw [usedInTurn, he] at hu
    obtain ⟨hp, hu⟩ := Bool.and_eq_true_iff.1 hu
    obtain ⟨new, hr₁⟩ := hr.step hp he
    rw [history, allOffers, he, ← List.append_assoc, ← List.append_assoc, ← List.append_assoc]
    exact ih hr₁ hrest hu

end

/-! ## What becomes of interrupts -/

omit [Service δ] in
/-- To an open queue numbers are offered to the last. -/
theorem forward_of_isOpen {q : IrqQueue} (ho : q.isOpen = true) (ids : List UInt32) :
    (Activity.forward q ids).1 = true := by
  induction ids generalizing q with
  | nil => rfl
  | cons id rest ih =>
    rw [Activity.forward]
    rcases IrqQueue.offer_cases ho id with ⟨-, heq⟩ | ⟨-, heq⟩
    · rw [heq]
      exact ih ho
    · rw [heq]
      exact ih ho

/-- How a server has dealt with the numbers that were offered to its queue: what its history says of the queue and of the
relay, and its log of the peers. -/
structure Relayed (device : δ) (patience : Nat) (es : List Hub.Event) (s : Server δ) (notes : List Note)
    (offers : List UInt32) (log : List Mark) : Prop where
  /-- Every number that the queue took is passed on in its turn, or still waits for it, also over the end of runs. -/
  accepted_eq : acceptedIds notes = (broadcasts notes).map (·.id) ++ s.queue.waiting
  /-- Every number that is offered is taken or dropped, in order. -/
  offered_eq : offeredIds notes = offers
  /-- A number is dropped only when so many wait that were taken before it. -/
  full : ∀ past later id, notes = past ++ .dropped id :: later →
    (acceptedIds past).length = (broadcasts past).length + queueDepth
  /-- A tick offers all its numbers, whichever of them are dropped. -/
  heard : ∀ ids, (Activity.forward s.queue ids).1 = true
  /-- When a number is passed on, the round of every number before it has come to its end, or was cut short in a run before. -/
  turn : ∀ past b later, notes = past ++ .begun b :: later → ∀ b' ∈ broadcasts past,
    .completed b'.round.task ∈ past ∨ .cut b'.round.task ∈ past ∧ b'.run < b.run
  /-- A round that was not completed goes on, or was cut short when its run was told to end. -/
  fate : ∀ b ∈ broadcasts notes, s.Fate notes b
  /-- As long as the relay has not ended, the server can come to a point where all that waits is passed on, and needs nobody for
  that. -/
  goes_on : s.relay ≠ .ended → ∀ d, ∃ events s' es', (∀ e ∈ events, e.isOwn = true) ∧
    s.run? d events = some (s', d, es') ∧ s.Drained (s.history d events) s'
  /-- In each run the round of at most one number is not completed. -/
  completed_or : ∀ b ∈ broadcasts notes, ∀ b' ∈ broadcasts notes, b.run = b'.run →
    .completed b.round.task ∈ notes ∨ .completed b'.round.task ∈ notes ∨ b = b'
  /-- No two rounds are the same. -/
  ascending : (broadcasts notes).Pairwise fun b b' => b.round.task < b'.round.task
  announced : ∀ b ∈ broadcasts notes, Announced device patience es b
  /-- When a round is completed, each of its peers has the whole frame, or is out and has a part of it. -/
  settled : ∀ b ∈ broadcasts notes, .completed b.round.task ∈ notes → ∀ p ∈ b.round.order, s.hub.Settled log b.round p
  /-- What the relay has written to a peer are the whole frames of numbers that were passed on in a row, and then perhaps a
  part of one frame. -/
  stretch : ∀ p, ∃ stretch t part, stretch <:+: broadcasts notes ∧
    Hub.roundBytes (rounds notes) p log =
      sheet (stretch.map fun b => (b.round.task, b.round.frame)) ++ part.map (t, ·) ∧
    (part = [] ∨ ∃ b ∈ broadcasts notes, b.round.task = t ∧ b.round.frame.Part part)

/-- A relay that has not ended can pass on all that waits. -/
theorem Passing.goes_on (hp : s.Passing notes log) (hne : s.relay ≠ .ended) (d : Disk) :
    ∃ events s' es', (∀ e ∈ events, e.isOwn = true) ∧ s.run? d events = some (s', d, es') ∧
      s.Drained (s.history d events) s' := by
  have hround : ∀ t, s.relay = .pushing t → ∃ c, s.hub.tasks[t]? = some (.errand c) := by
    intro t hr
    obtain ⟨front, b, -, rfl, hpush⟩ := hp.pushing t hr
    obtain ⟨c, hc, -⟩ := hpush.underway.going
    exact ⟨c, hc⟩
  obtain ⟨more, s', hon, hdrained⟩ := drains hne hround d
  obtain ⟨events, es, howns, hrun, rfl⟩ := hon.run
  exact ⟨events, s', es, howns, hrun, hdrained⟩

omit [Service δ] in
/-- Of rounds with the same task there is only one. -/
theorem Numbered.eq_of_task (hn : s.Numbered notes) {b b' : Broadcast} (hb : b ∈ broadcasts notes)
    (hb' : b' ∈ broadcasts notes) (htask : b.round.task = b'.round.task) : b = b' := by
  have hnodup : ((broadcasts notes).map (·.round.task)).Nodup := List.pairwise_map.2 (hn.ascending.imp Nat.ne_of_lt)
  exact List.inj_on_of_nodup_map hnodup hb hb' htask

/-- In every run of a server that is used by one at a time, whatever the peers and the system do, and however often it is
stopped and started again, interrupts are passed on as said. -/
theorem interrupts_relayed {number : Nat} {config : ServerConfig} {device : δ} {s : Server δ} {d d' : Disk}
    {events : List Event} {es : List Hub.Event} (hr : (create number config device).run? d events = some (s, d', es))
    (hu : (create number config device).usedInTurn d false events = true) :
    ∃ log, (Hub.start device config.patience).run? es = some (s.hub, log) ∧
      Relayed device config.patience es s ((create number config device).history d events)
        ((create number config device).allOffers d events) log := by
  obtain ⟨gone, log, hrelaying⟩ := (relaying_create number config device).run hr hu
  rw [List.nil_append, List.nil_append, List.nil_append] at hrelaying
  obtain ⟨hmoment, -, hq, hn, hp, -, hannounced⟩ := hrelaying
  refine ⟨log, hmoment, hq.accepted_eq, hq.offered_eq, hq.full, forward_of_isOpen hq.isOpen, hn.turn, hn.fate,
    hp.goes_on, fun b hb b' hb' => hn.completed_or hb hb', hn.ascending, hannounced, fun b hb hdone p hin => ?_, fun p => ?_⟩
  · obtain ⟨b', hb', htask, hrests, hpeers⟩ := hp.done _ hdone
    cases hn.eq_of_task hb' hb htask
    exact (hpeers p hin).2
  · obtain ⟨stretch, t, part, hin, hbytes, hpart⟩ := hp.stretch p
    obtain ⟨numbers, hnumbers, rfl⟩ := List.infix_map_iff.1 hin
    refine ⟨numbers, t, part, hnumbers, ?_, hpart.imp_right ?_⟩
    · rw [hbytes, List.map_map]
      rfl
    · rintro ⟨r, hround, htask, hpart⟩
      obtain ⟨b, hb, rfl⟩ := List.mem_map.1 hround
      exact ⟨b, hb, htask, hpart⟩

/-- One client at a time, on a socket at the root. -/
def oneAtOnce : ServerConfig := { socketPath := "/s", maxConnections := 1, sendTimeout := 1000 }

/-- A client comes in that does not take more than three hundred bytes. Of two interrupts it gets the first; while the second is
being written to it, a third is offered and the server is stopped. Then the server is started again. -/
def stoppedInBetween : List Event :=
  let step (t : Nat) : Event := .move (.hub (.advance t Frame.size))
  [.start, .move (.caller []), .move (.caller []), .move .gate, .arrive 0 (.fresh 300), .move .gate, .offer [5, 6],
    .move (.relay [0]), step 1, step 1, .move (.relay []), .move (.relay [0]), step 2, step 2, .offer [7], .stop,
    .move .relayHeeds, .move .gateHeeds, .move (.caller [0]), step 3, step 3, .move (.caller []), .start,
    .move (.caller []), .move (.caller []), .move (.relay []), .move (.relay [])]

/-- The second interrupt is cut short, and the third is passed on in the next run, when nobody is connected. -/
theorem interrupts_relayed_stoppedInBetween :
    ∃ s disk es log, (create 0 oneAtOnce (RegisterFile.empty 1)).run? .empty stoppedInBetween = some (s, disk, es) ∧
      (create 0 oneAtOnce (RegisterFile.empty 1)).usedInTurn .empty false stoppedInBetween = true ∧
      (Hub.start (RegisterFile.empty 1) 1000).run? es = some (s.hub, log) ∧
      Relayed (RegisterFile.empty 1) 1000 es s
        ((create 0 oneAtOnce (RegisterFile.empty 1)).history .empty stoppedInBetween) [5, 6, 7] log ∧
      (create 0 oneAtOnce (RegisterFile.empty 1)).history .empty stoppedInBetween =
        [.accepted 5, .accepted 6, .begun ⟨0, 5, ⟨1, .interrupt 1 5, [0]⟩⟩, .completed 1,
          .begun ⟨0, 6, ⟨2, .interrupt 1 6, [0]⟩⟩, .accepted 7, .cut 2, .begun ⟨1, 7, ⟨4, .interrupt 1 7, []⟩⟩,
          .completed 4] ∧
      s.queue.waiting = [] ∧ written 1 0 log = (Frame.interrupt 1 5).encode := by
  have hend : ((create 0 oneAtOnce (RegisterFile.empty 1)).run? .empty stoppedInBetween).map (·.1.queue.waiting) =
      some [] := by
    decide +kernel
  have hused : (create 0 oneAtOnce (RegisterFile.empty 1)).usedInTurn .empty false stoppedInBetween = true := by
    decide +kernel
  have hnotes : (create 0 oneAtOnce (RegisterFile.empty 1)).history .empty stoppedInBetween =
      [.accepted 5, .accepted 6, .begun ⟨0, 5, ⟨1, .interrupt 1 5, [0]⟩⟩, .completed 1,
        .begun ⟨0, 6, ⟨2, .interrupt 1 6, [0]⟩⟩, .accepted 7, .cut 2, .begun ⟨1, 7, ⟨4, .interrupt 1 7, []⟩⟩,
        .completed 4] := by
    decide +kernel
  have hoffers : (create 0 oneAtOnce (RegisterFile.empty 1)).allOffers .empty stoppedInBetween = [5, 6, 7] := by
    decide +kernel
  have hlength : ((create 0 oneAtOnce (RegisterFile.empty 1)).run? .empty stoppedInBetween).bind (fun x =>
      ((Hub.start (RegisterFile.empty 1) 1000).run? x.2.2).map fun y => (written 1 0 y.2).length) =
        some Frame.size := by
    decide +kernel
  obtain ⟨⟨s, disk, es⟩, hr, hwaiting⟩ := Option.map_eq_some_iff.1 hend
  obtain ⟨log, hlog, hrelayed⟩ := interrupts_relayed hr hused
  rw [hoffers] at hrelayed
  have hpatience : oneAtOnce.patience = 1000 := rfl
  rw [hpatience] at hlog hrelayed
  rw [hr] at hlength
  simp only [Option.bind_some, hlog, Option.map_some, Option.some.injEq] at hlength
  have hfirst : s.hub.Settled log ⟨1, .interrupt 1 5, [0]⟩ 0 := by
    rw [hnotes] at hrelayed
    exact hrelayed.settled ⟨0, 5, ⟨1, .interrupt 1 5, [0]⟩⟩ (mem_broadcasts.2 (by simp)) (by simp) 0 List.mem_cons_self
  have hwhole : written 1 0 log = (Frame.interrupt 1 5).encode := by
    rcases hfirst with hwhole | ⟨-, rest, hrest, hsum⟩
    · exact hwhole
    · have hlen := congrArg List.length hsum
      rw [List.length_append, hlength, Frame.length_encode] at hlen
      exact absurd (List.eq_nil_of_length_eq_zero (Nat.add_eq_left.1 hlen)) hrest
  exact ⟨s, disk, es, log, hr, hused, hlog, hrelayed, hnotes, hwaiting, hwhole⟩

end Server

end Peripheral
