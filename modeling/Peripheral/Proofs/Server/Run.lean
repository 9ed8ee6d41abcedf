import Peripheral.Activity
import Peripheral.Proofs.Hub.Order
import Peripheral.Server.Move

/-!
# Runs of a server

Everything that can happen to a server, as events: its moves, in any order; requests to start and to stop it, and an owner
that lets go of it; clients that arrive and act on their ends of the connections; interrupts that are sent to all peers or
offered to the queue; the passing of time, the ticks of the device, and what others do to the disk. To the hub of the server
each of them is a few events or none (`toHub`), and these are possible one after the other (`hub_run`). So whatever holds of
every run of a hub holds of the hub of every server.
-/

namespace Peripheral

/-- Something that happens to a server. Where all peers are addressed, the event carries their order. -/
inductive Server.Event
  | move (m : Server.Move)
  | start
  | stop
  | discard
  | arrive (ticket : Nat) (link : Link)
  | client (ticket : Nat) (act : Link.Act)
  | trigger (order : List Peer) (id : UInt32)
  | offer (ids : List UInt32)
  | wait (ms : Nat)
  | tick (g : Rng)
  /-- Others leave the disk as it is said. -/
  | disk (d : Disk)

namespace Server

variable {δ : Type} [Service δ]

/-- The server and the disk after an event, if the event is possible. -/
def after? (s : Server δ) (d : Disk) : Event → Option (Server δ × Disk)
  | .move m => s.move? d m
  | .start => s.requestStart.toOption.map (·, d)
  | .stop => some (s.requestStop, d)
  | .discard => some (s.discard d)
  | .arrive ticket link => if link.isFresh then some (s.arrive ticket link, d) else none
  | .client ticket act => some (s.updateLink ticket (·.act act), d)
  | .trigger order id =>
    if order.isPerm s.hub.members then some ({ s with hub := s.hub.broadcastIn order (s.hub.notice id) }, d) else none
  | .offer ids => some ({ s with queue := (s.queue.offerAll ids).2 }, d)
  | .wait ms => some ({ s with hub := { s.hub with clock := s.hub.clock + ms } }, d)
  | .tick g =>
    let (ids, device, _) := Service.tick s.hub.device g
    some ({ s with queue := (Activity.forward s.queue ids).2, hub := { s.hub with device } }, d)
  | .disk d => some (s, d)

/-- What a move of a server is to its hub. -/
def moveToHub (s : Server δ) : Move → List Hub.Event
  | .hub m => [.move m]
  | .gate =>
    match s.gate, s.backlog with
    | .listening, (_, link) :: _ => [.attach link, .serve s.hub.links.length (s.runs - 1)]
    | _, _ => []
  | .gateHeeds => []
  | .gateFails order => [.halt s.runs, .closeAll order]
  | .relay order =>
    match s.relay, s.queue.waiting with
    | .waiting, id :: _ => [.broadcast order (s.hub.notice id)]
    | _, _ => []
  | .relayHeeds =>
    match s.relay with
    | .pushing t => [.cutShort t]
    | _ => []
  | .attend handler =>
    match s.attendants.find? (·.handler == handler), s.hub.tasks[handler]? with
    | some ⟨_, _, none⟩, some (.handler ⟨p, _, .ended .crashed⟩) => [.close p]
    | _, _ => []
  | .caller order =>
    match s.call with
    | .joining _ => [.closeAll order]
    | _ => []

/-- What an event of a server is to its hub. -/
def toHub (s : Server δ) : Event → List Hub.Event
  | .move m => s.moveToHub m
  | .start | .stop | .discard => if s.engaged then [.halt s.runs] else []
  | .client ticket act =>
    match s.endOf ticket with
    | .peer p => [.client p act]
    | _ => []
  | .trigger order id => [.broadcast order (s.hub.notice id)]
  | .wait ms => [.wait ms]
  | .tick g => [.tick g]
  | .arrive _ _ | .offer _ | .disk _ => []

/-- The server and the disk after events, with what they were to the hub, if they are possible one after the other. -/
def run? (s : Server δ) (d : Disk) : List Event → Option (Server δ × Disk × List Hub.Event)
  | [] => some (s, d, [])
  | e :: rest => do
    let (s', d') ← s.after? d e
    let (s'', d'', es) ← s'.run? d' rest
    return (s'', d'', s.toHub e ++ es)

/-- An event and a run from there are a run. -/
theorem run?_cons {s s₁ s' : Server δ} {d d₁ d' : Disk} {e : Event} {rest : List Event} {es : List Hub.Event}
    (he : s.after? d e = some (s₁, d₁)) (hrest : s₁.run? d₁ rest = some (s', d', es)) :
    s.run? d (e :: rest) = some (s', d', s.toHub e ++ es) := by
  rw [run?, he]
  simp only [Option.bind_eq_bind, Option.bind_some, hrest, Option.pure_def]

/-- A run of an event and of others is the event and a run of the others. -/
theorem run?_cons_eq_some {s s' : Server δ} {d d' : Disk} {e : Event} {rest : List Event} {es : List Hub.Event}
    (hr : s.run? d (e :: rest) = some (s', d', es)) :
    ∃ s₁ d₁ es', s.after? d e = some (s₁, d₁) ∧ s₁.run? d₁ rest = some (s', d', es') ∧ es = s.toHub e ++ es' := by
  obtain ⟨⟨s₁, d₁⟩, he, hr⟩ := Option.bind_eq_some_iff.1 hr
  obtain ⟨⟨s₂, d₂, es'⟩, hrest, heq⟩ := Option.bind_eq_some_iff.1 hr
  cases heq
  exact ⟨s₁, d₁, es', he, hrest, rfl⟩

/-- A run is a run up to any moment of it, and one from there on. -/
theorem run?_append {s s'' : Server δ} {d d'' : Disk} {events more : List Event} {es : List Hub.Event}
    (hr : s.run? d (events ++ more) = some (s'', d'', es)) :
    ∃ s' d' es₁ es₂, s.run? d events = some (s', d', es₁) ∧ s'.run? d' more = some (s'', d'', es₂) ∧ es = es₁ ++ es₂ := by
  induction events generalizing s d es with
  | nil => exact ⟨s, d, [], es, rfl, hr, rfl⟩
  | cons e rest ih =>
    obtain ⟨s₁, d₁, es', he, hr', rfl⟩ := run?_cons_eq_some hr
    obtain ⟨s', d', es₁, es₂, hpast, hmore, rfl⟩ := ih hr'
    exact ⟨s', d', s.toHub e ++ es₁, es₂, run?_cons he hpast, hmore, (List.append_assoc _ _ _).symm⟩

/-! ## What a step is to the hub -/

omit [Service δ] in
/-- Nobody but the clients has used the links of those who wait. -/
def Unused (s : Server δ) : Prop := ∀ x ∈ s.backlog, x.2.isFresh = true

/-- What was done to a server is to its hub the given events. -/
structure Mirrors (s : Server δ) (es : List Hub.Event) (s' : Server δ) : Prop where
  leads : s.hub.Leads es s'.hub
  unused : s.Unused → s'.Unused

/-- The gate lets in a client that nobody has served yet. -/
theorem mirrors_letIn {s s' : Server δ} {log : List Mark} (ho : s.hub.Orderly log) (hu : s.Unused)
    (hg : s.gate = .listening) (hs : s.letIn = some s') : s.Mirrors (s.moveToHub .gate) s' := by
  cases hb : s.backlog with
  | nil =>
    rw [letIn, hb] at hs
    nomatch hs
  | cons x rest =>
    obtain ⟨ticket, link⟩ := x
    rw [letIn, hb] at hs
    cases hs
    rw [Unused, hb] at hu
    have hf : link.isFresh = true := hu (ticket, link) List.mem_cons_self
    have hattach : s.hub.after? (.attach link) = some (s.hub.register link) := if_pos hf
    have hserve : (s.hub.register link).after? (.serve s.hub.links.length (s.runs - 1)) =
        some ((s.hub.register link).serve s.hub.links.length (s.runs - 1)) := by
      refine if_pos ⟨?_, ?_⟩
      · rw [Hub.register, List.length_append]
        exact Nat.lt_succ_self _
      · intro hany
        obtain ⟨a, ha, hserves⟩ := List.any_eq_true.1 hany
        obtain ⟨t, ht⟩ := List.getElem?_of_mem ha
        exact Nat.lt_irrefl _ (ho.peer_lt t _ ⟨a, ht, hserves⟩)
    have hevents : s.moveToHub .gate = [.attach link] ++ [.serve s.hub.links.length (s.runs - 1)] := by
      rw [moveToHub, hg, hb]
      rfl
    rw [hevents]
    exact ⟨(Hub.Leads.single hattach).append (.single hserve), fun _ x hx => hu x (List.mem_cons_of_mem _ hx)⟩

/-- What the gate does is to the hub what it says it is. -/
theorem mirrors_advanceGate {s s' : Server δ} {d d' : Disk} {log : List Mark} (ho : s.hub.Orderly log) (hu : s.Unused)
    (hs : s.advanceGate d = some (s', d')) : s.Mirrors (s.moveToHub .gate) s' := by
  cases hg : s.gate with
  | seeking =>
    rw [advanceGate, hg] at hs
    obtain ⟨_, heq⟩ := Option.ite_none_right_eq_some.1 hs
    cases heq
    rw [moveToHub, hg]
    exact ⟨.refl _, id⟩
  | listening =>
    rw [advanceGate, hg] at hs
    obtain ⟨s₁, hin, heq⟩ := Option.map_eq_some_iff.1 hs
    cases heq
    exact mirrors_letIn ho hu hg hin
  | failing t =>
    rw [advanceGate, hg] at hs
    obtain ⟨_, heq⟩ := Option.ite_none_right_eq_some.1 hs
    cases heq
    rw [moveToHub, hg]
    exact ⟨.refl _, id⟩
  | ended =>
    rw [advanceGate, hg] at hs
    nomatch hs

/-- The closing of the gate is to the hub what it says it is. -/
theorem mirrors_closeGate {s s' : Server δ} (hs : s.closeGate = some s') : s.Mirrors (s.moveToHub .gateHeeds) s' := by
  obtain ⟨_, heq⟩ := Option.ite_none_right_eq_some.1 hs
  cases heq
  exact ⟨.refl _, fun _ _ hx => nomatch hx⟩

/-- The failing of the gate is to the hub what it says it is. -/
theorem mirrors_failGate {s s' : Server δ} {order : List Peer} (hs : s.failGate order = some s') :
    s.Mirrors (s.moveToHub (.gateFails order)) s' := by
  obtain ⟨⟨_, horder⟩, heq⟩ := Option.ite_none_right_eq_some.1 hs
  cases heq
  have hhalt : s.hub.after? (.halt s.runs) = some (s.hub.halt s.runs) := rfl
  have hclose : (s.hub.halt s.runs).after? (.closeAll order) = some ((s.hub.halt s.runs).closeAllIn order) :=
    if_pos horder
  exact ⟨(Hub.Leads.single hhalt).append (.single hclose), fun _ _ hx => nomatch hx⟩

/-- What the relay does is to the hub what it says it is. -/
theorem mirrors_advanceRelay {s s' : Server δ} {order : List Peer} (hs : s.advanceRelay order = some s') :
    s.Mirrors (s.moveToHub (.relay order)) s' := by
  cases hr : s.relay with
  | waiting =>
    rw [advanceRelay, hr] at hs
    obtain ⟨horder, hs⟩ := Option.ite_none_right_eq_some.1 hs
    obtain ⟨⟨id, queue⟩, htake, heq⟩ := Option.map_eq_some_iff.1 hs
    cases heq
    cases hw : s.queue.waiting with
    | nil =>
      rw [IrqQueue.take?, hw] at htake
      nomatch htake
    | cons first rest =>
      rw [IrqQueue.take?, hw] at htake
      cases htake
      rw [moveToHub, hr, hw]
      exact ⟨.single (if_pos horder), fun hu => hu⟩
  | pushing t =>
    rw [advanceRelay, hr] at hs
    obtain ⟨_, heq⟩ := Option.ite_none_right_eq_some.1 hs
    cases heq
    rw [moveToHub, hr]
    exact ⟨.refl _, id⟩
  | ended =>
    rw [advanceRelay, hr] at hs
    nomatch hs

/-- The closing of the relay is to the hub what it says it is. -/
theorem mirrors_closeRelay {s s' : Server δ} (hs : s.closeRelay = some s') : s.Mirrors (s.moveToHub .relayHeeds) s' := by
  obtain ⟨_, hs⟩ := Option.ite_none_right_eq_some.1 hs
  rw [moveToHub]
  cases hr : s.relay with
  | waiting =>
    rw [hr] at hs
    cases hs
    exact ⟨.refl _, id⟩
  | pushing t =>
    rw [hr] at hs
    cases hs
    exact ⟨.single rfl, id⟩
  | ended =>
    rw [hr] at hs
    nomatch hs

/-- To attend to a handler that has ended is to the hub what it says it is. -/
theorem mirrors_attend {s s' : Server δ} {handler : Nat} (hs : s.attend handler = some s') :
    s.Mirrors (s.moveToHub (.attend handler)) s' := by
  rw [attend] at hs
  rw [moveToHub]
  cases ha : s.attendants.find? (·.handler == handler) with
  | none =>
    rw [ha] at hs
    nomatch hs
  | some a =>
    rw [ha] at hs
    cases ht : s.hub.tasks[handler]? with
    | none =>
      rw [ht] at hs
      nomatch hs
    | some task =>
      rw [ht] at hs
      obtain ⟨run, number, closing?⟩ := a
      cases task with
      | errand c => nomatch hs
      | handler x =>
        obtain ⟨p, xrun, stage⟩ := x
        cases closing? with
        | some t =>
          obtain ⟨_, heq⟩ := Option.ite_none_right_eq_some.1 hs
          cases heq
          exact ⟨.refl _, id⟩
        | none =>
          cases stage with
          | receiving | holding | parting => nomatch hs
          | ended ending =>
            cases ending with
            | crashed =>
              cases hs
              exact ⟨.single rfl, id⟩
            | answered | failed =>
              cases hs
              exact ⟨.refl _, id⟩

/-- The making of the socket is nothing to the hub. -/
theorem mirrors_bind (s : Server δ) (d : Disk) : s.Mirrors [] (s.bind d).1 := by
  rw [bind]
  cases (d.remove s.config.socketPath).bind s.config.socketPath s.listener with
  | error f => exact ⟨.refl _, id⟩
  | ok d =>
    by_cases hc : s.config.capacity ≤ maxPermits
    · simp only [if_pos hc]
      exact ⟨.refl _, id⟩
    · simp only [if_neg hc]
      exact ⟨.refl _, id⟩

/-- What a request does next is to the hub what it says it is. -/
theorem mirrors_advanceCall {s s' : Server δ} {d d' : Disk} {order : List Peer}
    (hs : s.advanceCall d order = some (s', d')) : s.Mirrors (s.moveToHub (.caller order)) s' := by
  rw [advanceCall] at hs
  rw [moveToHub]
  cases hc : s.call with
  | idle =>
    rw [hc] at hs
    nomatch hs
  | joining goal =>
    rw [hc] at hs
    obtain ⟨⟨_, _, horder⟩, heq⟩ := Option.ite_none_right_eq_some.1 hs
    cases heq
    exact ⟨.single (if_pos horder), id⟩
  | emptying goal t =>
    rw [hc] at hs
    obtain ⟨_, hs⟩ := Option.ite_none_right_eq_some.1 hs
    cases goal <;>
    · cases hs
      exact ⟨.refl _, id⟩
  | preparing =>
    rw [hc] at hs
    cases hs
    exact ⟨.refl _, id⟩
  | binding =>
    rw [hc] at hs
    have hbind := s.mirrors_bind d
    rw [Option.some.inj hs] at hbind
    exact hbind

/-- Every move is to the hub what it says it is. -/
theorem mirrors_move {s s' : Server δ} {d d' : Disk} {m : Move} {log : List Mark} (ho : s.hub.Orderly log) (hu : s.Unused)
    (hs : s.move? d m = some (s', d')) : s.Mirrors (s.moveToHub m) s' := by
  cases m with
  | hub m =>
    obtain ⟨hub, hm, heq⟩ := Option.map_eq_some_iff.1 hs
    cases heq
    exact ⟨.single hm, id⟩
  | gate => exact mirrors_advanceGate ho hu hs
  | gateHeeds =>
    obtain ⟨s₁, hclose, heq⟩ := Option.map_eq_some_iff.1 hs
    cases heq
    exact mirrors_closeGate hclose
  | gateFails order =>
    obtain ⟨s₁, hfail, heq⟩ := Option.map_eq_some_iff.1 hs
    cases heq
    exact mirrors_failGate hfail
  | relay order =>
    obtain ⟨s₁, hrelay, heq⟩ := Option.map_eq_some_iff.1 hs
    cases heq
    exact mirrors_advanceRelay hrelay
  | relayHeeds =>
    obtain ⟨s₁, hclose, heq⟩ := Option.map_eq_some_iff.1 hs
    cases heq
    exact mirrors_closeRelay hclose
  | attend handler =>
    obtain ⟨s₁, hattend, heq⟩ := Option.map_eq_some_iff.1 hs
    cases heq
    exact mirrors_attend hattend
  | caller order => exact mirrors_advanceCall hs

/-- A request to start that is not refused either leaves the hub alone or tells the last run to end. -/
theorem mirrors_requestStart {s s' : Server δ} (hs : s.requestStart = .ok s') : s.Mirrors (s.toHub .start) s' := by
  rw [requestStart] at hs
  rw [toHub]
  by_cases he : s.engaged
  · rw [if_pos he] at hs ⊢
    by_cases hp : s.phase = .stopped
    · rw [if_pos hp] at hs
      cases hs
      exact ⟨.single rfl, id⟩
    · rw [if_neg hp] at hs
      nomatch hs
  · rw [if_neg he] at hs ⊢
    cases hs
    exact ⟨.refl _, id⟩

/-- A request to stop is to the hub what it says it is. -/
theorem mirrors_requestStop (s : Server δ) : s.Mirrors (s.toHub .stop) s.requestStop := by
  rw [requestStop, toHub]
  by_cases he : s.engaged
  · rw [if_pos he, if_pos he]
    exact ⟨.single rfl, id⟩
  · rw [if_neg he, if_neg he]
    exact ⟨.refl _, id⟩

/-- To let go of a server is to its hub what it says it is. -/
theorem mirrors_discard (s : Server δ) (d : Disk) : s.Mirrors (s.toHub .discard) (s.discard d).1 := by
  rw [discard, toHub]
  by_cases he : s.engaged
  · rw [if_pos he, if_pos he]
    exact ⟨.single rfl, id⟩
  · rw [if_neg he, if_neg he]
    exact ⟨.refl _, id⟩

/-- A client acts on its end wherever that leads; what it does while it waits does not count as use of its link. -/
theorem mirrors_client (s : Server δ) (ticket : Nat) (act : Link.Act) :
    s.Mirrors (s.toHub (.client ticket act)) (s.updateLink ticket (·.act act)) := by
  rw [updateLink, toHub]
  cases s.endOf ticket with
  | parked link =>
    refine ⟨.refl _, ?_⟩
    intro hu x hx
    obtain ⟨y, hy, rfl⟩ := List.mem_map.1 hx
    by_cases ht : y.1 = ticket
    · rw [if_pos ht]
      exact Link.isFresh_act (hu y hy) act
    · rw [if_neg ht]
      exact hu y hy
  | peer p => exact ⟨.single rfl, id⟩
  | nowhere => exact ⟨.refl _, id⟩

/-- Every event is to the hub what it says it is. -/
theorem mirrors_after? {s s' : Server δ} {d d' : Disk} {e : Event} {log : List Mark} (ho : s.hub.Orderly log)
    (hu : s.Unused) (hs : s.after? d e = some (s', d')) : s.Mirrors (s.toHub e) s' := by
  cases e with
  | move m => exact mirrors_move ho hu hs
  | start =>
    rw [after?] at hs
    cases hstart : s.requestStart with
    | error e =>
      rw [hstart] at hs
      nomatch hs
    | ok s₁ =>
      rw [hstart] at hs
      cases hs
      exact mirrors_requestStart hstart
  | stop => cases hs; exact s.mirrors_requestStop
  | discard =>
    have hdiscard := s.mirrors_discard d
    rw [Option.some.inj hs] at hdiscard
    exact hdiscard
  | arrive ticket link =>
    obtain ⟨hf, heq⟩ := Option.ite_none_right_eq_some.1 hs
    cases heq
    refine ⟨.refl _, ?_⟩
    intro hu x hx
    rcases List.mem_append.1 hx with hx | hx
    · exact hu x hx
    · rw [List.mem_singleton.1 hx]
      exact hf
  | client ticket act => cases hs; exact s.mirrors_client ticket act
  | trigger order id =>
    obtain ⟨horder, heq⟩ := Option.ite_none_right_eq_some.1 hs
    cases heq
    exact ⟨.single (if_pos horder), fun hu => hu⟩
  | offer | disk => cases hs; exact ⟨.refl _, id⟩
  | wait | tick => cases hs; exact ⟨.single rfl, id⟩

/-! ## What a run is to the hub -/

/-- A run of a server is to its hub the run of what its events are to it. -/
theorem mirrors_run {s s' : Server δ} {d d' : Disk} {events : List Event} {past es : List Hub.Event} {device : δ}
    {patience : Nat} (hpast : (Hub.start device patience).Leads past s.hub) (hu : s.Unused)
    (hr : s.run? d events = some (s', d', es)) : s.Mirrors es s' := by
  induction events generalizing s d past es with
  | nil =>
    cases hr
    exact ⟨.refl _, id⟩
  | cons e rest ih =>
    obtain ⟨s₁, d₁, es', he, hr', rfl⟩ := run?_cons_eq_some hr
    obtain ⟨log, hrun⟩ := hpast
    have hstep : s.Mirrors (s.toHub e) s₁ := mirrors_after? (Hub.orderly_run hrun) hu he
    have hrest : s₁.Mirrors es' s' := ih (Hub.Leads.append ⟨log, hrun⟩ hstep.leads) (hstep.unused hu) hr'
    exact ⟨hstep.leads.append hrest.leads, fun hu => hrest.unused (hstep.unused hu)⟩

/-- A run of a server is a run of its hub. -/
theorem hub_run {number : Nat} {config : ServerConfig} {device : δ} {s : Server δ} {d d' : Disk} {events : List Event}
    {es : List Hub.Event} (hr : (create number config device).run? d events = some (s, d', es)) :
    (Hub.start device config.patience).Leads es s.hub :=
  (mirrors_run (.refl _) (fun _ hx => absurd hx List.not_mem_nil) hr).leads

/-- Every moment of a run of a server is a moment of that run of its hub. -/
theorem hub_moment {s s' s₁ : Server δ} {d d' d₁ : Disk} {events past : List Event} {es es₁ : List Hub.Event}
    (hr : s.run? d events = some (s', d', es)) (hp : past <+: events) (h₁ : s.run? d past = some (s₁, d₁, es₁)) :
    es₁ <+: es := by
  obtain ⟨more, rfl⟩ := hp
  obtain ⟨s₂, d₂, es₂, es₃, hpast, -, rfl⟩ := run?_append hr
  cases h₁.symm.trans hpast
  exact List.prefix_append _ _

end Server

end Peripheral
