import Peripheral.Proofs.Server.Notes

/-!
# What an event does to a server

What an event can do to what passes interrupts on, and to what starts and stops it (`Step`): said once, guards included, and
proved of every event (`step_after?`). All other parts of a server, its attendants, its backlog and its socket among them, are
left open.
-/

namespace Peripheral.Server

variable {δ : Type} [Service δ]

/-- Events of a hub that cut nothing short. -/
def Gentle (es : List Hub.Event) : Prop := ∀ t, .cutShort t ∉ es

/-- The gate stays shut once it has ended, and nobody comes in. -/
def KeepsShut (s : Server δ) (e : Event) (s' : Server δ) : Prop :=
  s.gate = .ended → s'.gate = .ended ∧ ∀ link, .attach link ∉ s.toHub e

/-- What an event can do to the relay, to the queue, and to the course of starting and stopping. -/
inductive Step (s : Server δ) : Event → Server δ → Prop
  /-- Nothing happens but that some numbers may be offered. -/
  | aside {e : Event} {s' : Server δ} : s'.relay = s.relay → s'.queue = (s.queue.offerAll (s.offers e)).2 →
      s'.runs = s.runs → s'.call = s.call → s'.engaged = s.engaged → s.KeepsShut e s' → Gentle (s.toHub e) →
      s.notes e = s.queue.verdicts (s.offers e) → Step s e s'
  /-- The relay takes the oldest number, and a round with it begins. -/
  | take {id : UInt32} {rest : List UInt32} {order : List Peer} : s.relay = .waiting → order.Perm s.hub.members →
      s.queue.waiting = id :: rest →
      Step s (.move (.relay order)) { s with
        queue := { s.queue with waiting := rest }
        relay := .pushing s.hub.tasks.length
        hub := s.hub.broadcastIn order (s.hub.notice id) }
  /-- A round is over. -/
  | passed {t : Nat} {order : List Peer} : s.relay = .pushing t → s.hub.isFinished t = true →
      Step s (.move (.relay order)) { s with relay := .waiting }
  /-- The relay ends. -/
  | heed : s.isTold = true → s.relay = .waiting → Step s (.move .relayHeeds) { s with relay := .ended }
  /-- The relay ends, and its round is cut short. -/
  | cut {t : Nat} : s.isTold = true → s.relay = .pushing t →
      Step s (.move .relayHeeds) { s with relay := .ended, hub := s.hub.cutShort t }
  /-- A server that was started is asked to end its run. -/
  | request {e : Event} {s' : Server δ} {goal : Goal} : s'.call = .joining goal → s'.relay = s.relay →
      s'.queue = s.queue → s'.runs = s.runs → s.offers e = [] → Gentle (s.toHub e) → s.notes e = [] → Step s e s'
  /-- A server that was not started is asked to start. -/
  | prepare : s.engaged = false → Step s .start { s with call := .preparing }
  /-- The owner lets go of a server that was started. -/
  | discard : s.engaged = true → Step s .discard { s with engaged := false, hub := s.hub.halt s.runs }
  /-- The run has ended, and all peers are taken out. -/
  | join {goal : Goal} {order : List Peer} : s.call = .joining goal → s.gate = .ended → s.relay = .ended →
      Step s (.move (.caller order)) { s with
        hub := s.hub.closeAllIn order
        call := .emptying goal s.hub.tasks.length }
  /-- The request goes on, or comes to its end, without a new run. -/
  | proceed {order : List Peer} {s' : Server δ} : s.call ≠ .idle → (∀ goal, s.call ≠ .joining goal) →
      s'.hub = s.hub → s'.gate = s.gate → s'.relay = s.relay → s'.queue = s.queue → s'.runs = s.runs →
      Step s (.move (.caller order)) s'
  /-- A new run begins. -/
  | bound {order : List Peer} : s.call = .binding →
      Step s (.move (.caller order)) { s with
        phase := .running, call := .idle, runs := s.runs + 1, engaged := true, gate := .seeking, relay := .waiting }

/-- An event that offers nothing and does nothing to the relay. -/
theorem Step.of_same {s s' : Server δ} {e : Event} (hrelay : s'.relay = s.relay) (hqueue : s'.queue = s.queue)
    (hruns : s'.runs = s.runs) (hcall : s'.call = s.call) (hengaged : s'.engaged = s.engaged) (hgate : s.KeepsShut e s')
    (hoffers : s.offers e = []) (hgentle : Gentle (s.toHub e)) (hnotes : s.notes e = []) : s.Step e s' := by
  refine .aside hrelay ?_ hruns hcall hengaged hgate hgentle ?_
  · rw [hoffers, hqueue]
    rfl
  · rw [hoffers, hnotes]
    rfl

/-- What the gate does is one of the steps of a server. -/
theorem step_gate {s s' : Server δ} {d d' : Disk} (hs : s.advanceGate d = some (s', d')) : s.Step (.move .gate) s' := by
  have hgentle : Gentle (s.toHub (.move .gate)) := by
    intro t
    rw [toHub, moveToHub]
    split <;> simp
  have hopen : s.gate ≠ .ended → s.KeepsShut (.move .gate) s' := fun hne hend => absurd hend hne
  cases hg : s.gate with
  | seeking =>
    rw [advanceGate, hg] at hs
    obtain ⟨-, heq⟩ := Option.ite_none_right_eq_some.1 hs
    cases heq
    exact .of_same rfl rfl rfl rfl rfl (hopen (by simp [hg])) rfl hgentle rfl
  | listening =>
    rw [advanceGate, hg] at hs
    obtain ⟨s₁, hin, heq⟩ := Option.map_eq_some_iff.1 hs
    cases heq
    cases hb : s.backlog with
    | nil =>
      rw [letIn, hb] at hin
      cases hin
    | cons x rest =>
      rw [letIn, hb] at hin
      cases hin
      exact .of_same rfl rfl rfl rfl rfl (hopen (by simp [hg])) rfl hgentle rfl
  | failing t =>
    rw [advanceGate, hg] at hs
    obtain ⟨-, heq⟩ := Option.ite_none_right_eq_some.1 hs
    cases heq
    exact .of_same rfl rfl rfl rfl rfl (hopen (by simp [hg])) rfl hgentle rfl
  | ended =>
    rw [advanceGate, hg] at hs
    cases hs

/-- What the relay does is one of the steps of a server. -/
theorem step_relay {s s' : Server δ} {order : List Peer} (hs : s.advanceRelay order = some s') :
    s.Step (.move (.relay order)) s' := by
  cases hr : s.relay with
  | waiting =>
    rw [advanceRelay, hr] at hs
    obtain ⟨hperm, hs⟩ := Option.ite_none_right_eq_some.1 hs
    obtain ⟨⟨id, queue⟩, htake, heq⟩ := Option.map_eq_some_iff.1 hs
    cases heq
    cases hw : s.queue.waiting with
    | nil =>
      rw [IrqQueue.take?, hw] at htake
      cases htake
    | cons first rest =>
      rw [IrqQueue.take?, hw] at htake
      cases htake
      exact .take hr (List.isPerm_iff.1 hperm) hw
  | pushing t =>
    rw [advanceRelay, hr] at hs
    obtain ⟨hdone, heq⟩ := Option.ite_none_right_eq_some.1 hs
    cases heq
    exact .passed hr hdone
  | ended =>
    rw [advanceRelay, hr] at hs
    cases hs

/-- The closing of the relay is one of the steps of a server. -/
theorem step_relayHeeds {s s' : Server δ} (hs : s.closeRelay = some s') : s.Step (.move .relayHeeds) s' := by
  obtain ⟨htold, hs⟩ := Option.ite_none_right_eq_some.1 hs
  cases hr : s.relay with
  | waiting =>
    rw [hr] at hs
    cases hs
    exact .heed htold hr
  | pushing t =>
    rw [hr] at hs
    cases hs
    exact .cut htold hr
  | ended =>
    rw [hr] at hs
    nomatch hs

/-- To attend to a handler that has ended is one of the steps of a server. -/
theorem step_attend {s s' : Server δ} {handler : Nat} (hs : s.attend handler = some s') :
    s.Step (.move (.attend handler)) s' := by
  have hhub : Gentle (s.toHub (.move (.attend handler))) ∧
      ∀ link, .attach link ∉ s.toHub (.move (.attend handler)) := by
    rw [toHub, moveToHub]
    split
    · exact ⟨fun t => by simp, fun link => by simp⟩
    · exact ⟨fun t => by simp, fun link => by simp⟩
  have hsame : s'.relay = s.relay ∧ s'.queue = s.queue ∧ s'.runs = s.runs ∧ s'.call = s.call ∧
      s'.engaged = s.engaged ∧ s'.gate = s.gate := by
    rw [attend] at hs
    split at hs
    · dsimp only at hs
      split at hs
      · obtain ⟨-, heq⟩ := Option.ite_none_right_eq_some.1 hs
        cases heq
        exact ⟨rfl, rfl, rfl, rfl, rfl, rfl⟩
      · cases hs
      · cases hs
        exact ⟨rfl, rfl, rfl, rfl, rfl, rfl⟩
      · cases hs
        exact ⟨rfl, rfl, rfl, rfl, rfl, rfl⟩
    · cases hs
  obtain ⟨hrelay, hqueue, hruns, hcall, hengaged, hgate⟩ := hsame
  exact .of_same hrelay hqueue hruns hcall hengaged (fun hend => ⟨hgate.trans hend, hhub.2⟩) rfl hhub.1 rfl

/-- The making of the socket is one of the steps of a server. -/
theorem step_bind {s : Server δ} {d : Disk} (order : List Peer) (hc : s.call = .binding) :
    s.Step (.move (.caller order)) (s.bind d).1 := by
  have hidle : s.call ≠ .idle ∧ ∀ goal, s.call ≠ .joining goal := by
    rw [hc]
    exact ⟨nofun, nofun⟩
  rw [bind]
  cases (d.remove s.config.socketPath).bind s.config.socketPath s.listener with
  | error f => exact .proceed hidle.1 hidle.2 rfl rfl rfl rfl rfl
  | ok d =>
    by_cases hcap : s.config.capacity ≤ maxPermits
    · simp only [if_pos hcap]
      exact .bound hc
    · simp only [if_neg hcap]
      exact .proceed hidle.1 hidle.2 rfl rfl rfl rfl rfl

/-- What a request does next is one of the steps of a server. -/
theorem step_caller {s s' : Server δ} {d d' : Disk} {order : List Peer} (hs : s.advanceCall d order = some (s', d')) :
    s.Step (.move (.caller order)) s' := by
  rw [advanceCall] at hs
  cases hc : s.call with
  | idle =>
    rw [hc] at hs
    cases hs
  | joining goal =>
    rw [hc] at hs
    obtain ⟨⟨hgate, hrelay, -⟩, heq⟩ := Option.ite_none_right_eq_some.1 hs
    cases heq
    exact .join hc hgate hrelay
  | emptying goal t =>
    rw [hc] at hs
    obtain ⟨-, hs⟩ := Option.ite_none_right_eq_some.1 hs
    cases goal <;>
    · cases hs
      exact .proceed (by simp [hc]) (by simp [hc]) rfl rfl rfl rfl rfl
  | preparing =>
    rw [hc] at hs
    cases hs
    exact .proceed (by simp [hc]) (by simp [hc]) rfl rfl rfl rfl rfl
  | binding =>
    rw [hc] at hs
    have hbind := step_bind (d := d) order hc
    rw [Option.some.inj hs] at hbind
    exact hbind

/-- Every move is one of the steps of a server. -/
theorem step_move {s s' : Server δ} {d d' : Disk} {m : Move} (hs : s.move? d m = some (s', d')) : s.Step (.move m) s' := by
  cases m with
  | hub m =>
    obtain ⟨hub, -, heq⟩ := Option.map_eq_some_iff.1 hs
    cases heq
    exact .of_same rfl rfl rfl rfl rfl (fun hend => ⟨hend, by simp [toHub, moveToHub]⟩) rfl
      (fun t => by simp [toHub, moveToHub]) rfl
  | gate => exact step_gate hs
  | gateHeeds =>
    obtain ⟨s₁, hclose, heq⟩ := Option.map_eq_some_iff.1 hs
    cases heq
    obtain ⟨-, heq⟩ := Option.ite_none_right_eq_some.1 hclose
    cases heq
    exact .of_same rfl rfl rfl rfl rfl (fun _ => ⟨rfl, by simp [toHub, moveToHub]⟩) rfl
      (fun t => by simp [toHub, moveToHub]) rfl
  | gateFails order =>
    obtain ⟨s₁, hfail, heq⟩ := Option.map_eq_some_iff.1 hs
    cases heq
    obtain ⟨⟨hg, -⟩, heq⟩ := Option.ite_none_right_eq_some.1 hfail
    cases heq
    refine .of_same rfl rfl rfl rfl rfl (fun hend => ?_) rfl (fun t => by simp [toHub, moveToHub]) rfl
    rw [hg] at hend
    cases hend
  | relay order =>
    obtain ⟨s₁, hrelay, heq⟩ := Option.map_eq_some_iff.1 hs
    cases heq
    exact step_relay hrelay
  | relayHeeds =>
    obtain ⟨s₁, hclose, heq⟩ := Option.map_eq_some_iff.1 hs
    cases heq
    exact step_relayHeeds hclose
  | attend handler =>
    obtain ⟨s₁, hattend, heq⟩ := Option.map_eq_some_iff.1 hs
    cases heq
    exact step_attend hattend
  | caller order => exact step_caller hs

/-- A request to start is one of the steps of a server. -/
theorem step_start {s s' : Server δ} (hs : s.requestStart = .ok s') : s.Step .start s' := by
  rw [requestStart] at hs
  by_cases he : s.engaged = true
  · rw [if_pos he] at hs
    by_cases hp : s.phase = .stopped
    · rw [if_pos hp] at hs
      cases hs
      exact .request rfl rfl rfl rfl rfl (fun t => by simp [toHub, he]) rfl
    · rw [if_neg hp] at hs
      cases hs
  · rw [if_neg he] at hs
    cases hs
    exact .prepare (by simpa using he)

/-- A request to stop is one of the steps of a server. -/
theorem step_stop (s : Server δ) : s.Step .stop s.requestStop := by
  rw [requestStop]
  by_cases he : s.engaged = true
  · rw [if_pos he]
    exact .request rfl rfl rfl rfl rfl (fun t => by simp [toHub, he]) rfl
  · rw [if_neg he]
    exact .of_same rfl rfl rfl rfl rfl (fun hend => ⟨hend, by simp [toHub, he]⟩) rfl (fun t => by simp [toHub, he]) rfl

/-- To let go of a server is one of its steps. -/
theorem step_discard (s : Server δ) (d : Disk) : s.Step .discard (s.discard d).1 := by
  rw [discard]
  by_cases he : s.engaged = true
  · rw [if_pos he]
    exact .discard he
  · rw [if_neg he]
    exact .of_same rfl rfl rfl rfl rfl (fun hend => ⟨hend, by simp [toHub, he]⟩) rfl (fun t => by simp [toHub, he]) rfl

/-- What clients do is one of the steps of a server. -/
theorem step_client (s : Server δ) (ticket : Nat) (act : Link.Act) :
    s.Step (.client ticket act) (s.updateLink ticket (·.act act)) := by
  have hhub : Gentle (s.toHub (.client ticket act)) ∧ ∀ link, .attach link ∉ s.toHub (.client ticket act) := by
    rw [toHub]
    split
    · exact ⟨fun t => by simp, fun link => by simp⟩
    · exact ⟨fun t => by simp, fun link => by simp⟩
  unfold updateLink
  split <;> exact .of_same rfl rfl rfl rfl rfl (fun hend => ⟨hend, hhub.2⟩) rfl hhub.1 rfl

/-- A tick offers its numbers as anybody does, as far as the queue is concerned. -/
theorem forward_eq_offerAll (q : IrqQueue) (ids : List UInt32) : (Activity.forward q ids).2 = (q.offerAll ids).2 := by
  induction ids generalizing q with
  | nil => rfl
  | cons id rest ih =>
    have hclosed : ∀ q : IrqQueue, q.isOpen = false → ∀ ids, (q.offerAll ids).2 = q := by
      intro q hq ids
      induction ids with
      | nil => rfl
      | cons id rest ih => simp [IrqQueue.offerAll, IrqQueue.offer, hq, ih]
    by_cases hq : q.isOpen = true
    · by_cases hroom : q.waiting.length < q.capacity
      · simp [Activity.forward, IrqQueue.offerAll, IrqQueue.offer, hq, hroom, ih]
      · simp [Activity.forward, IrqQueue.offerAll, IrqQueue.offer, hq, hroom, ih]
    · rw [Bool.not_eq_true] at hq
      simp [Activity.forward, IrqQueue.offerAll, IrqQueue.offer, hq, hclosed q hq]

/-- Every event is a step. -/
theorem step_after? {s s' : Server δ} {d d' : Disk} {e : Event} (hs : s.after? d e = some (s', d')) : s.Step e s' := by
  cases e with
  | move m => exact step_move hs
  | start =>
    rw [after?] at hs
    cases hstart : s.requestStart with
    | error e =>
      rw [hstart] at hs
      cases hs
    | ok s₁ =>
      rw [hstart] at hs
      cases hs
      exact step_start hstart
  | stop => cases hs; exact s.step_stop
  | discard =>
    have hdiscard := s.step_discard d
    rw [Option.some.inj hs] at hdiscard
    exact hdiscard
  | arrive ticket link =>
    obtain ⟨-, heq⟩ := Option.ite_none_right_eq_some.1 hs
    cases heq
    exact .of_same rfl rfl rfl rfl rfl (fun hend => ⟨hend, by simp [toHub]⟩) rfl (fun t => by simp [toHub]) rfl
  | client ticket act => cases hs; exact s.step_client ticket act
  | trigger order id =>
    obtain ⟨-, heq⟩ := Option.ite_none_right_eq_some.1 hs
    cases heq
    exact .of_same rfl rfl rfl rfl rfl (fun hend => ⟨hend, by simp [toHub]⟩) rfl (fun t => by simp [toHub]) rfl
  | offer ids =>
    cases hs
    exact .aside rfl rfl rfl rfl rfl (fun hend => ⟨hend, by simp [toHub]⟩) (fun t => by simp [toHub]) rfl
  | wait ms =>
    cases hs
    exact .of_same rfl rfl rfl rfl rfl (fun hend => ⟨hend, by simp [toHub]⟩) rfl (fun t => by simp [toHub]) rfl
  | tick g =>
    cases hs
    refine .aside rfl ?_ rfl rfl rfl (fun hend => ⟨hend, by simp [toHub]⟩) (fun t => by simp [toHub]) rfl
    exact forward_eq_offerAll _ _
  | disk d =>
    cases hs
    exact .of_same rfl rfl rfl rfl rfl (fun hend => ⟨hend, by simp [toHub]⟩) rfl (fun t => by simp [toHub]) rfl

end Peripheral.Server
