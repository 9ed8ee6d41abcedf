import Peripheral.Server.Basic

/-!
# The moves of a server

The tasks of the hub, the gate, the relay, the attendants and whoever wants the server to start or stop each make one move
at a time, in any order. A move is what happens without waiting in between.
-/

namespace Peripheral

/-- A move of a server. Where all peers are addressed one after the other, the move carries their order. -/
inductive Server.Move
  | hub (move : Hub.Move)
  | gate
  | gateHeeds
  | gateFails (order : List Peer)
  | relay (order : List Peer)
  | relayHeeds
  | attend (handler : Nat)
  | caller (order : List Peer)
  deriving DecidableEq, Repr

namespace Server

variable {δ : Type}

/-- The gate lets the first client in that waits: an exchange begins, and an attendant takes over the permit. -/
def letIn (s : Server δ) : Option (Server δ) :=
  match s.backlog with
  | [] => none
  | (ticket, link) :: rest =>
    let p := s.hub.links.length
    let hub := (s.hub.register link).serve p (s.runs - 1)
    some { s with
      hub
      gate := .seeking
      attendants := s.attendants ++ [⟨s.runs - 1, s.hub.tasks.length, none⟩]
      backlog := rest
      admitted := s.admitted ++ [(ticket, p)] }

/-- The gate goes on with its work. -/
def advanceGate (s : Server δ) (d : Disk) : Option (Server δ × Disk) :=
  match s.gate with
  | .seeking => if s.permitsUsed < s.config.capacity then some ({ s with gate := .listening }, d) else none
  | .listening => s.letIn.map (·, d)
  | .failing t =>
    if s.hub.isFinished t then
      some ({ s with gate := .ended, phase := .stopped }, d.remove s.config.socketPath)
    else none
  | .ended => none

/-- The gate heeds that its run was told to end; the clients that wait are turned away. -/
def closeGate (s : Server δ) : Option (Server δ) :=
  if s.isTold && (s.gate == .seeking || s.gate == .listening) then some { s with gate := .ended, backlog := [] }
  else none

/-- Accepting a client fails: the run is told to end, and all peers are closed. -/
def failGate (s : Server δ) (order : List Peer) : Option (Server δ) :=
  if s.gate = .listening ∧ order.isPerm s.hub.members then
    some { s with
      hub := (s.hub.halt s.runs).closeAllIn order
      gate := .failing s.hub.tasks.length
      backlog := [] }
  else none

/-- The relay takes the next interrupt, or has passed one on. -/
def advanceRelay [Service δ] (s : Server δ) (order : List Peer) : Option (Server δ) :=
  match s.relay with
  | .waiting =>
    if order.isPerm s.hub.members then
      s.queue.take?.map fun (id, queue) =>
        { s with queue, relay := .pushing s.hub.tasks.length, hub := s.hub.broadcastIn order (s.hub.notice id) }
    else none
  | .pushing t => if s.hub.isFinished t then some { s with relay := .waiting } else none
  | .ended => none

/-- The relay heeds that its run was told to end; what it is passing on is cut short. -/
def closeRelay (s : Server δ) : Option (Server δ) :=
  if s.isTold then
    match s.relay with
    | .waiting => some { s with relay := .ended }
    | .pushing t => some { s with relay := .ended, hub := s.hub.cutShort t }
    | .ended => none
  else none

/-- The attendant of an exchange gives its permit back, after having dismissed the peer if the handler has crashed. -/
def attend (s : Server δ) (handler : Nat) : Option (Server δ) :=
  match s.attendants.find? (·.handler == handler), s.hub.tasks[handler]? with
  | some a, some (.handler x) =>
    let leave : Server δ := { s with attendants := s.attendants.filter (·.handler != handler) }
    match a.closing?, x.ending? with
    | some t, _ => if s.hub.isFinished t then some leave else none
    | none, none => none
    | none, some .crashed =>
      some { s with
        hub := s.hub.close x.peer
        attendants := s.attendants.map fun a =>
          if a.handler == handler then { a with closing? := some s.hub.tasks.length } else a }
    | none, some _ => some leave
  | _, _ => none

/-- The socket is bound. A run begins, unless there is no socket or too many permits are asked for. -/
def bind (s : Server δ) (d : Disk) : Server δ × Disk :=
  let d := d.remove s.config.socketPath
  match d.bind s.config.socketPath s.listener with
  | .error f =>
    ({ s with phase := .stopped, call := .idle, failure? := some (.unbindable s.config.socketPath f) }, d)
  | .ok d =>
    if s.config.capacity ≤ maxPermits then
      ({ s with phase := .running, call := .idle, runs := s.runs + 1, engaged := true, gate := .seeking,
                relay := .waiting }, d)
    else ({ s with phase := .running, call := .idle, failure? := some .overload }, d.release s.listener)

/-- The request to start or stop goes on. -/
def advanceCall (s : Server δ) (d : Disk) (order : List Peer) : Option (Server δ × Disk) :=
  match s.call with
  | .idle => none
  | .joining goal =>
    if s.gate = .ended ∧ s.relay = .ended ∧ order.isPerm s.hub.members then
      some ({ s with hub := s.hub.closeAllIn order, call := .emptying goal s.hub.tasks.length }, d)
    else none
  | .emptying goal t =>
    if s.hub.isFinished t then
      match goal with
      | .stop => some ({ s with phase := .stopped, call := .idle }, d.remove s.config.socketPath)
      | .start => some ({ s with call := .preparing }, d.remove s.config.socketPath)
    else none
  | .preparing => some ({ s with phase := .starting, failure? := none, call := .binding }, d)
  | .binding => some (s.bind d)

/-- Makes a move, if it is possible. -/
def move? [Service δ] (s : Server δ) (d : Disk) : Move → Option (Server δ × Disk)
  | .hub m => (s.hub.move? m).map fun hub => ({ s with hub }, d)
  | .gate => s.advanceGate d
  | .gateHeeds => s.closeGate.map (·, d.release s.presentListener)
  | .gateFails order => (s.failGate order).map (·, d.release s.presentListener)
  | .relay order => (s.advanceRelay order).map (·, d)
  | .relayHeeds => s.closeRelay.map (·, d)
  | .attend handler => (s.attend handler).map (·, d)
  | .caller order => s.advanceCall d order

/-- The moves that may be possible without anything going wrong, in the order in which they are tried. -/
def candidates [Service δ] (s : Server δ) : List Move :=
  [.gateHeeds, .relayHeeds] ++ s.attendants.map (.attend ·.handler) ++
    [.gate, .relay s.hub.members, .caller s.hub.members] ++ s.hub.candidates.map .hub

/-- The server and the disk after the first move that is possible. -/
def next? [Service δ] (s : Server δ) (d : Disk) : Option (Server δ × Disk) := s.candidates.findSome? (s.move? d)

/-- At least as many moves as can still be made without time passing. -/
def effort (s : Server δ) : Nat :=
  let peers := s.hub.members.length + s.backlog.length
  s.hub.effort + 600 * (s.backlog.length + 1) + (s.queue.waiting.length + 2) * (300 * peers + 4) +
    8 * (s.attendants.length + 1)

/-- Makes moves until none is possible, but not more than the given number. -/
def settleWithin [Service δ] : Nat → Server δ → Disk → Server δ × Disk
  | 0, s, d => (s, d)
  | n + 1, s, d =>
    match s.next? d with
    | none => (s, d)
    | some (s, d) => settleWithin n s d

/-- Makes moves until none is possible. -/
def settle [Service δ] (s : Server δ) (d : Disk) : Server δ × Disk := settleWithin s.effort s d

end Server

end Peripheral
