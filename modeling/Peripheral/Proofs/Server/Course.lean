import Peripheral.Proofs.Server.Run

/-!
# The course of a server

What an event does to the gate, to the attendants and their permits, to the phase, to a request to start or to stop, and to
the disk (`Course`): said once, guards included, and proved of every event (`course_after?`). What the tasks of the hub, the
clients and the queue do among themselves is left open.
-/

namespace Peripheral

namespace Attendant

/-- The attendant of a handler waits for a task that dismisses the peer; every other goes on as before. -/
def entrust (handler task : Nat) (a : Attendant) : Attendant :=
  if a.handler == handler then { a with closing? := some task } else a

/-- An attendant that is entrusted with a dismissal stays in its run. -/
@[simp] theorem entrust_run (handler task : Nat) (a : Attendant) : (a.entrust handler task).run = a.run := by
  unfold entrust
  split <;> rfl

/-- An attendant that is entrusted with a dismissal stays with its handler. -/
@[simp] theorem entrust_handler (handler task : Nat) (a : Attendant) : (a.entrust handler task).handler = a.handler := by
  unfold entrust
  split <;> rfl

/-- An attendant waits for what it waited for, or for the dismissal that it is entrusted with. -/
theorem entrust_closing? (handler task : Nat) (a : Attendant) :
    (a.entrust handler task).closing? = a.closing? ∨
      a.handler = handler ∧ (a.entrust handler task).closing? = some task := by
  unfold entrust
  by_cases h : a.handler = handler
  · rw [if_pos (beq_iff_eq.2 h)]
    exact Or.inr ⟨h, rfl⟩
  · rw [if_neg fun heq => h (eq_of_beq heq)]
    exact Or.inl rfl

end Attendant

namespace Server

variable {δ : Type} [Service δ] {s s' : Server δ} {d d' : Disk}

omit [Service δ] in
/-- An attendant may give its permit back: the dismissal of its peer is over, or the handler has ended without breaking
down. -/
def MayLeave (s : Server δ) (a : Attendant) (x : Handler) : Prop :=
  (∃ t, a.closing? = some t ∧ s.hub.isFinished t = true) ∨ (a.closing? = none ∧ ∃ e, x.ending? = some e ∧ e ≠ .crashed)

/-- What an event does to the course of a server. -/
inductive Course (s : Server δ) (d : Disk) : Event → Server δ → Disk → Prop
  /-- The tasks of the hub, the clients and the queue go on, and nobody comes in. -/
  | aside {e : Event} {hub : Hub δ} {queue : IrqQueue} {backlog : List (Nat × Link)} :
      (∀ link, .attach link ∉ s.toHub e) → Course s d e { s with hub, queue, backlog } d
  | disk {d' : Disk} : Course s d (.disk d') s d'
  /-- The relay begins a round. -/
  | take {order : List Peer} {f : Frame} {queue : IrqQueue} : s.relay = .waiting →
      Course s d (.move (.relay order))
        { s with queue, relay := .pushing s.hub.tasks.length, hub := s.hub.broadcastIn order f } d
  | passed {order : List Peer} : Course s d (.move (.relay order)) { s with relay := .waiting } d
  | heed : s.relay = .waiting → Course s d (.move .relayHeeds) { s with relay := .ended } d
  | cut {t : Nat} : s.relay = .pushing t →
      Course s d (.move .relayHeeds) { s with relay := .ended, hub := s.hub.cutShort t } d
  /-- The gate gets a permit. -/
  | listen : s.gate = .seeking → s.permitsUsed < s.config.capacity → Course s d (.move .gate) { s with gate := .listening } d
  /-- A client comes in, and an attendant takes over the permit. -/
  | letIn {ticket : Nat} {link : Link} {rest : List (Nat × Link)} : s.gate = .listening →
      s.backlog = (ticket, link) :: rest →
      Course s d (.move .gate) { s with
        hub := (s.hub.register link).serve s.hub.links.length (s.runs - 1)
        gate := .seeking
        attendants := s.attendants ++ [⟨s.runs - 1, s.hub.tasks.length, none⟩]
        backlog := rest
        admitted := s.admitted ++ [(ticket, s.hub.links.length)] } d
  /-- All peers are closed since accepting a client has failed. -/
  | fallen {t : Nat} : s.gate = .failing t → s.hub.isFinished t = true →
      Course s d (.move .gate) { s with gate := .ended, phase := .stopped } (d.remove s.config.socketPath)
  | close : s.isTold = true → s.gate = .seeking ∨ s.gate = .listening →
      Course s d (.move .gateHeeds) { s with gate := .ended, backlog := [] } (d.release s.presentListener)
  | fail {order : List Peer} : s.gate = .listening →
      Course s d (.move (.gateFails order)) { s with
        hub := (s.hub.halt s.runs).closeAllIn order
        gate := .failing s.hub.tasks.length
        backlog := [] } (d.release s.presentListener)
  /-- A permit is given back. -/
  | leave {a : Attendant} {x : Handler} : a ∈ s.attendants → s.hub.tasks[a.handler]? = some (.handler x) → s.MayLeave a x →
      Course s d (.move (.attend a.handler)) { s with attendants := s.attendants.filter (·.handler != a.handler) } d
  /-- The peer of a handler that has broken down is dismissed. -/
  | dismiss {handler : Nat} {x : Handler} : s.hub.tasks[handler]? = some (.handler x) → x.ending? = some .crashed →
      Course s d (.move (.attend handler)) { s with
        hub := s.hub.close x.peer
        attendants := s.attendants.map (·.entrust handler s.hub.tasks.length) } d
  /-- The gate and the relay of the last run have ended, and all peers are taken out. -/
  | join {goal : Goal} {order : List Peer} : s.call = .joining goal → s.gate = .ended → s.relay = .ended →
      Course s d (.move (.caller order)) { s with
        hub := s.hub.closeAllIn order
        call := .emptying goal s.hub.tasks.length } d
  | stopped {order : List Peer} {t : Nat} : s.call = .emptying .stop t → s.hub.isFinished t = true →
      Course s d (.move (.caller order)) { s with phase := .stopped, call := .idle } (d.remove s.config.socketPath)
  | cleared {order : List Peer} {t : Nat} : s.call = .emptying .start t → s.hub.isFinished t = true →
      Course s d (.move (.caller order)) { s with call := .preparing } (d.remove s.config.socketPath)
  | prepare {order : List Peer} : s.call = .preparing →
      Course s d (.move (.caller order)) { s with phase := .starting, failure? := none, call := .binding } d
  | unbound {order : List Peer} {f : IoFault} : s.call = .binding →
      (d.remove s.config.socketPath).bind s.config.socketPath s.listener = .error f →
      Course s d (.move (.caller order))
        { s with phase := .stopped, call := .idle, failure? := some (.unbindable s.config.socketPath f) }
        (d.remove s.config.socketPath)
  /-- The socket is bound, and a run begins. -/
  | bound {order : List Peer} {d' : Disk} : s.call = .binding → s.config.capacity ≤ maxPermits →
      (d.remove s.config.socketPath).bind s.config.socketPath s.listener = .ok d' →
      Course s d (.move (.caller order)) { s with
        phase := .running, call := .idle, runs := s.runs + 1, engaged := true, gate := .seeking, relay := .waiting } d'
  /-- More permits are asked for than can be counted. -/
  | overload {order : List Peer} {d' : Disk} : s.call = .binding → maxPermits < s.config.capacity →
      Course s d (.move (.caller order))
        { s with phase := .running, call := .idle, failure? := some .overload } (d'.release s.listener)
  /-- The last run is cleared up after before the next one begins. -/
  | restart : s.engaged = true → s.phase = .stopped →
      Course s d .start { s with engaged := false, hub := s.hub.halt s.runs, call := .joining .start } d
  | ready : s.engaged = false → Course s d .start { s with call := .preparing } d
  | stop : s.engaged = true →
      Course s d .stop { s with
        engaged := false
        phase := if s.phase = .stopped then .stopped else .stopping
        hub := s.hub.halt s.runs
        call := .joining .stop } d
  /-- The owner lets go of a server that was started. -/
  | discard : s.engaged = true →
      Course s d .discard { s with engaged := false, hub := s.hub.halt s.runs } (d.remove s.config.socketPath)

/-- What the gate does is part of the course of a server. -/
theorem course_gate (hs : s.advanceGate d = some (s', d')) : s.Course d (.move .gate) s' d' := by
  rw [advanceGate] at hs
  cases hg : s.gate with
  | seeking =>
    rw [hg] at hs
    obtain ⟨hroom, heq⟩ := Option.ite_none_right_eq_some.1 hs
    cases heq
    exact .listen hg hroom
  | listening =>
    rw [hg] at hs
    obtain ⟨s₁, hin, heq⟩ := Option.map_eq_some_iff.1 hs
    cases heq
    rw [Server.letIn] at hin
    cases hb : s.backlog with
    | nil =>
      rw [hb] at hin
      cases hin
    | cons x rest =>
      rw [hb] at hin
      cases hin
      exact .letIn hg hb
  | failing t =>
    rw [hg] at hs
    obtain ⟨hfin, heq⟩ := Option.ite_none_right_eq_some.1 hs
    cases heq
    exact .fallen hg hfin
  | ended =>
    rw [hg] at hs
    cases hs

/-- The closing of the gate is part of the course of a server. -/
theorem course_gateHeeds (hs : s.closeGate = some s') : s.Course d (.move .gateHeeds) s' (d.release s.presentListener) := by
  obtain ⟨hopen, heq⟩ := Option.ite_none_right_eq_some.1 hs
  cases heq
  obtain ⟨htold, hgate⟩ := Bool.and_eq_true_iff.1 hopen
  exact .close htold ((Bool.or_eq_true_iff.1 hgate).imp eq_of_beq eq_of_beq)

/-- The failing of the gate is part of the course of a server. -/
theorem course_gateFails {order : List Peer} (hs : s.failGate order = some s') :
    s.Course d (.move (.gateFails order)) s' (d.release s.presentListener) := by
  obtain ⟨⟨hg, -⟩, heq⟩ := Option.ite_none_right_eq_some.1 hs
  cases heq
  exact .fail hg

/-- What the relay does is part of the course of a server. -/
theorem course_relay {order : List Peer} (hs : s.advanceRelay order = some s') : s.Course d (.move (.relay order)) s' d := by
  rw [advanceRelay] at hs
  cases hr : s.relay with
  | waiting =>
    rw [hr] at hs
    obtain ⟨-, hs⟩ := Option.ite_none_right_eq_some.1 hs
    obtain ⟨⟨id, queue⟩, -, heq⟩ := Option.map_eq_some_iff.1 hs
    cases heq
    exact .take hr
  | pushing t =>
    rw [hr] at hs
    obtain ⟨-, heq⟩ := Option.ite_none_right_eq_some.1 hs
    cases heq
    exact .passed
  | ended =>
    rw [hr] at hs
    cases hs

/-- The closing of the relay is part of the course of a server. -/
theorem course_relayHeeds (hs : s.closeRelay = some s') : s.Course d (.move .relayHeeds) s' d := by
  obtain ⟨-, hs⟩ := Option.ite_none_right_eq_some.1 hs
  cases hr : s.relay with
  | waiting =>
    rw [hr] at hs
    cases hs
    exact .heed hr
  | pushing t =>
    rw [hr] at hs
    cases hs
    exact .cut hr
  | ended =>
    rw [hr] at hs
    cases hs

/-- To attend to a handler that has ended is part of the course of a server. -/
theorem course_attend {handler : Nat} (hs : s.attend handler = some s') : s.Course d (.move (.attend handler)) s' d := by
  rw [attend] at hs
  cases ha : s.attendants.find? (·.handler == handler) with
  | none =>
    rw [ha] at hs
    cases hs
  | some a =>
    rw [ha] at hs
    have hin := List.mem_of_find?_eq_some ha
    have hfound := List.find?_some ha
    obtain rfl : a.handler = handler := eq_of_beq hfound
    cases ht : s.hub.tasks[a.handler]? with
    | none =>
      rw [ht] at hs
      cases hs
    | some task =>
      rw [ht] at hs
      cases task with
      | errand c => cases hs
      | handler x =>
        dsimp only at hs
        cases hc : a.closing? with
        | some t =>
          rw [hc] at hs
          obtain ⟨hfin, heq⟩ := Option.ite_none_right_eq_some.1 hs
          cases heq
          exact .leave hin ht (Or.inl ⟨t, hc, hfin⟩)
        | none =>
          rw [hc] at hs
          cases hx : x.ending? with
          | none =>
            rw [hx] at hs
            cases hs
          | some ending =>
            rw [hx] at hs
            cases ending with
            | crashed =>
              cases hs
              exact .dismiss ht hx
            | answered | failed =>
              cases hs
              exact .leave hin ht (Or.inr ⟨hc, _, hx, by simp⟩)

/-- The making of the socket is part of the course of a server. -/
theorem course_bind (order : List Peer) (hc : s.call = .binding) :
    s.Course d (.move (.caller order)) (s.bind d).1 (s.bind d).2 := by
  rw [bind]
  cases hbind : (d.remove s.config.socketPath).bind s.config.socketPath s.listener with
  | error f => exact .unbound hc hbind
  | ok d₁ =>
    by_cases hcap : s.config.capacity ≤ maxPermits
    · simp only [if_pos hcap]
      exact .bound hc hcap hbind
    · simp only [if_neg hcap]
      exact .overload hc (Nat.lt_of_not_le hcap)

/-- What a request does next is part of the course of a server. -/
theorem course_caller {order : List Peer} (hs : s.advanceCall d order = some (s', d')) :
    s.Course d (.move (.caller order)) s' d' := by
  rw [advanceCall] at hs
  cases hc : s.call with
  | idle =>
    rw [hc] at hs
    cases hs
  | joining goal =>
    rw [hc] at hs
    obtain ⟨⟨hgate, hrelay, -⟩, heq⟩ := Option.ite_none_right_eq_some.1 hs
    cases heq
    exact .join hc hgate hrelay
  | emptying goal t =>
    rw [hc] at hs
    obtain ⟨hfin, hs⟩ := Option.ite_none_right_eq_some.1 hs
    cases goal with
    | start =>
      cases hs
      exact .cleared hc hfin
    | stop =>
      cases hs
      exact .stopped hc hfin
  | preparing =>
    rw [hc] at hs
    cases hs
    exact .prepare hc
  | binding =>
    rw [hc] at hs
    have hbind := course_bind (d := d) order hc
    rw [Option.some.inj hs] at hbind
    exact hbind

/-- Every move is part of the course of a server. -/
theorem course_move {m : Move} (hs : s.move? d m = some (s', d')) : s.Course d (.move m) s' d' := by
  cases m with
  | hub m =>
    obtain ⟨hub, -, heq⟩ := Option.map_eq_some_iff.1 hs
    cases heq
    exact .aside fun _ => by simp [toHub, moveToHub]
  | gate => exact course_gate hs
  | gateHeeds =>
    obtain ⟨s₁, hclose, heq⟩ := Option.map_eq_some_iff.1 hs
    cases heq
    exact course_gateHeeds hclose
  | gateFails order =>
    obtain ⟨s₁, hfail, heq⟩ := Option.map_eq_some_iff.1 hs
    cases heq
    exact course_gateFails hfail
  | relay order =>
    obtain ⟨s₁, hrelay, heq⟩ := Option.map_eq_some_iff.1 hs
    cases heq
    exact course_relay hrelay
  | relayHeeds =>
    obtain ⟨s₁, hclose, heq⟩ := Option.map_eq_some_iff.1 hs
    cases heq
    exact course_relayHeeds hclose
  | attend handler =>
    obtain ⟨s₁, hattend, heq⟩ := Option.map_eq_some_iff.1 hs
    cases heq
    exact course_attend hattend
  | caller order => exact course_caller hs

/-- A request to start is part of the course of a server. -/
theorem course_start (hs : s.requestStart = .ok s') : s.Course d .start s' d := by
  rw [requestStart] at hs
  by_cases he : s.engaged = true
  · rw [if_pos he] at hs
    by_cases hp : s.phase = .stopped
    · rw [if_pos hp] at hs
      cases hs
      exact .restart he hp
    · rw [if_neg hp] at hs
      cases hs
  · rw [if_neg he] at hs
    cases hs
    exact .ready (Bool.eq_false_iff.2 he)

/-- A request to stop is part of the course of a server. -/
theorem course_stop (s : Server δ) (d : Disk) : s.Course d .stop s.requestStop d := by
  rw [requestStop]
  by_cases he : s.engaged = true
  · rw [if_pos he]
    exact .stop he
  · rw [if_neg he]
    exact .aside fun _ => by simp [toHub, he]

/-- To let go of a server is part of its course. -/
theorem course_discard (s : Server δ) (d : Disk) : s.Course d .discard (s.discard d).1 (s.discard d).2 := by
  rw [Server.discard]
  by_cases he : s.engaged = true
  · rw [if_pos he]
    exact .discard he
  · rw [if_neg he]
    exact .aside fun _ => by simp [toHub, he]

/-- What clients do is part of the course of a server. -/
theorem course_client (s : Server δ) (d : Disk) (ticket : Nat) (act : Link.Act) :
    s.Course d (.client ticket act) (s.updateLink ticket (·.act act)) d := by
  have hnobody : ∀ link, .attach link ∉ s.toHub (.client ticket act) := by
    intro link
    rw [toHub]
    split <;> simp
  unfold updateLink
  split <;> exact .aside hnobody

/-- Every event is a step in the course of a server. -/
theorem course_after? {e : Event} (hs : s.after? d e = some (s', d')) : s.Course d e s' d' := by
  cases e with
  | move m => exact course_move hs
  | start =>
    rw [after?] at hs
    cases hstart : s.requestStart with
    | error e =>
      rw [hstart] at hs
      cases hs
    | ok s₁ =>
      rw [hstart] at hs
      cases hs
      exact course_start hstart
  | stop => cases hs; exact s.course_stop d
  | discard =>
    have hdiscard := s.course_discard d
    rw [Option.some.inj hs] at hdiscard
    exact hdiscard
  | arrive ticket link =>
    obtain ⟨-, heq⟩ := Option.ite_none_right_eq_some.1 hs
    cases heq
    exact .aside fun _ => List.not_mem_nil
  | client ticket act => cases hs; exact s.course_client d ticket act
  | trigger order id =>
    obtain ⟨-, heq⟩ := Option.ite_none_right_eq_some.1 hs
    cases heq
    exact .aside fun _ => by simp [toHub]
  | offer ids => cases hs; exact .aside fun _ => List.not_mem_nil
  | wait ms => cases hs; exact .aside fun _ => by simp [toHub]
  | tick g => cases hs; exact .aside fun _ => by simp [toHub]
  | disk d => cases hs; exact .disk

/-- The configuration of a server is the same throughout its course. -/
theorem Course.config_eq {e : Event} (hc : s.Course d e s' d') : s'.config = s.config := by
  cases hc <;> rfl

/-! ## What happens in the hub -/

/-- Nobody comes in but by the gate. -/
theorem gate_of_attach {e : Event} {link : Link} (hin : .attach link ∈ s.toHub e) :
    e = .move .gate ∧ s.gate = .listening := by
  cases e with
  | move m =>
    cases m with
    | gate =>
      rw [toHub, moveToHub] at hin
      split at hin
      · exact ⟨rfl, ‹_›⟩
      · cases hin
    | relay | relayHeeds | attend | caller =>
      rw [toHub, moveToHub] at hin
      split at hin <;> simp at hin
    | hub | gateHeeds | gateFails => simp [toHub, moveToHub] at hin
  | start | stop | discard | client =>
    rw [toHub] at hin
    split at hin <;> simp at hin
  | arrive | trigger | offer | wait | tick | disk => simp [toHub] at hin

/-- Nothing is cut short but what the relay is passing on. -/
theorem relay_of_cutShort {e : Event} {t : Nat} (hin : .cutShort t ∈ s.toHub e) :
    e = .move .relayHeeds ∧ s.relay = .pushing t := by
  cases e with
  | move m =>
    cases m with
    | relayHeeds =>
      rw [toHub, moveToHub] at hin
      split at hin
      · cases List.mem_singleton.1 hin
        exact ⟨rfl, ‹_›⟩
      · cases hin
    | gate | relay | attend | caller =>
      rw [toHub, moveToHub] at hin
      split at hin <;> simp at hin
    | hub | gateHeeds | gateFails => simp [toHub, moveToHub] at hin
  | start | stop | discard | client =>
    rw [toHub] at hin
    split at hin <;> simp at hin
  | arrive | trigger | offer | wait | tick | disk => simp [toHub] at hin

end Server

end Peripheral
