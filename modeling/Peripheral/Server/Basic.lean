import Peripheral.Hub.Schedule
import Peripheral.IrqQueue
import Peripheral.Settings.Basic
import Peripheral.Text.Shown

/-!
# Servers

A server serves one device on one socket. It runs when it was started and until it is stopped or accepting clients fails,
and can be started again. In a run, a gate lets clients in, as many at once as there are permits; a relay passes the
interrupts of the queue on to the peers; and an attendant keeps each permit until the exchange it was given for has ended
and its peer is gone.
-/

namespace Peripheral

/-- What a server is about to do. -/
inductive Phase
  | stopped
  | starting
  | running
  | stopping
  deriving DecidableEq, Repr

/-- The name of a phase. -/
def Phase.text : Phase → String
  | stopped => "Stopped"
  | starting => "Starting"
  | running => "Running"
  | stopping => "Stopping"

/-- What the gate of a run is doing. -/
inductive Gate
  /-- Waits for a permit. -/
  | seeking
  /-- Has a permit and waits for a client. -/
  | listening
  /-- Accepting has failed, and a task closes every peer. -/
  | failing (task : Nat)
  | ended
  deriving DecidableEq, Repr

/-- Whether the gate has a permit. The one it took for the next client it keeps until it hands it on or ends, so also while the
peers are closed after accepting has failed. -/
def Gate.holdsPermit : Gate → Bool
  | listening | failing _ => true
  | seeking | ended => false

/-- What the relay of a run is doing. -/
inductive Relay
  | waiting
  /-- A task sends an interrupt to the peers. -/
  | pushing (task : Nat)
  | ended
  deriving DecidableEq, Repr

/-- The keeper of a permit. -/
structure Attendant where
  run : Nat
  /-- The task that conducts the exchange. -/
  handler : Nat
  /-- The task that dismisses the peer, which is needed if the handler has crashed. -/
  closing? : Option Nat
  deriving DecidableEq, Repr

/-- What somebody wants of a server. -/
inductive Goal
  | start
  | stop
  deriving DecidableEq, Repr

/-- How far a request to start or stop has come. -/
inductive Call
  | idle
  /-- Waits for the gate and the relay of the last run. -/
  | joining (goal : Goal)
  /-- Waits for a task that closes every peer. -/
  | emptying (goal : Goal) (task : Nat)
  | preparing
  | binding
  deriving DecidableEq, Repr

/-- Why a server was not started. -/
inductive StartError
  | alreadyRunning
  | unbindable (path : String) (fault : IoFault)
  /-- More permits were asked for than can be counted, and the start breaks off. -/
  | overload
  deriving DecidableEq, Repr

/-- The text of a failure to start; the words of the system for its own faults are not part of it. -/
def StartError.message : StartError → String
  | alreadyRunning => "server already running"
  | unbindable p _ => s!"failed to bind {p}"
  | overload => "too many permits"

/-- A server with its device and everything that goes on for its clients. -/
structure Server (δ : Type) where
  /-- The number by which sockets name the server. -/
  number : Nat
  config : ServerConfig
  hub : Hub δ
  phase : Phase
  /-- The interrupts to be passed on. -/
  queue : IrqQueue
  /-- How many runs there were; the present one has the number before. -/
  runs : Nat
  /-- Whether the last run still waits for somebody to clear up after it. -/
  engaged : Bool
  gate : Gate
  relay : Relay
  attendants : List Attendant
  call : Call
  /-- Why the last start failed, if it did. -/
  failure? : Option StartError
  /-- The clients that wait to be let in, by their tickets. -/
  backlog : List (Nat × Link)
  /-- The clients that were let in. -/
  admitted : List (Nat × Peer)

namespace Server

variable {δ : Type}

/-- The number of interrupts that may wait. -/
def queueDepth : Nat := 64

/-- The most permits that can be counted. -/
def maxPermits : Nat := 2305843009213693951

/-- A server that was never started. -/
def create (number : Nat) (config : ServerConfig) (device : δ) : Server δ where
  number
  config
  hub := .start device config.patience
  phase := .stopped
  queue := .empty queueDepth
  runs := 0
  engaged := false
  gate := .ended
  relay := .ended
  attendants := []
  call := .idle
  failure? := none
  backlog := []
  admitted := []

/-- Whether the present run was told to end. -/
def isTold (s : Server δ) : Bool := s.runs ≤ s.hub.halted

/-- The permits of the present run that are in use. -/
def permitsUsed (s : Server δ) : Nat :=
  (s.attendants.filter (fun a => a.run + 1 == s.runs)).length + s.gate.holdsPermit.toNat

/-- Whether there are clients to be waited for under the number of a run. -/
def listens (s : Server δ) (run : Nat) : Bool :=
  s.runs == run + 1 && (s.gate == .seeking || s.gate == .listening)

/-- Who listens in the next run. -/
def listener (s : Server δ) : Listener := ⟨s.number, s.runs⟩

/-- Who listens in the present run. -/
def presentListener (s : Server δ) : Listener := ⟨s.number, s.runs - 1⟩

/-- Somebody wants the server to start. A server that runs already is left alone. -/
def requestStart (s : Server δ) : Except StartError (Server δ) :=
  if s.engaged then
    if s.phase = .stopped then
      .ok { s with engaged := false, hub := s.hub.halt s.runs, call := .joining .start }
    else .error .alreadyRunning
  else .ok { s with call := .preparing }

/-- Somebody wants the server to stop. A server that was not started is left alone. -/
def requestStop (s : Server δ) : Server δ :=
  if s.engaged then
    { s with
      engaged := false
      phase := if s.phase = .stopped then .stopped else .stopping
      hub := s.hub.halt s.runs
      call := .joining .stop }
  else s

/-- The owner lets go of a server without stopping it: its run is told to end and its socket goes. -/
def discard (s : Server δ) (d : Disk) : Server δ × Disk :=
  if s.engaged then ({ s with engaged := false, hub := s.hub.halt s.runs }, d.remove s.config.socketPath) else (s, d)

/-- A client arrives and waits to be let in. -/
def arrive (s : Server δ) (ticket : Nat) (link : Link) : Server δ :=
  { s with backlog := s.backlog ++ [(ticket, link)] }

/-- A text that shows what the server is. -/
def describe [Service δ] (s : Server δ) : String :=
  "ModelServer \x7b socket_path: " ++ Text.shown s.config.socketPath ++
    s!", device_id: {Service.deviceId s.hub.device}, state: " ++ s.phase.text ++ " \x7d"

/-- Where the client's end of a connection leads. -/
inductive End
  | parked (link : Link)
  | peer (p : Peer)
  | nowhere

/-- Where a client's end leads. -/
def endOf (s : Server δ) (ticket : Nat) : End :=
  match s.backlog.lookup ticket, s.admitted.lookup ticket with
  | some link, _ => .parked link
  | none, some p => .peer p
  | none, none => .nowhere

/-- The link behind a client's end. -/
def link? (s : Server δ) (ticket : Nat) : Option Link :=
  match s.endOf ticket with
  | .parked link => some link
  | .peer p => s.hub.links[p]?
  | .nowhere => none

/-- Changes the link behind a client's end. -/
def updateLink (s : Server δ) (ticket : Nat) (f : Link → Link) : Server δ :=
  match s.endOf ticket with
  | .parked _ => { s with backlog := s.backlog.map fun e => if e.1 = ticket then (e.1, f e.2) else e }
  | .peer p => { s with hub := s.hub.updateLink p f }
  | .nowhere => s

/-- Whether a client will get nothing beyond what waits for it. -/
def isOver (s : Server δ) (ticket : Nat) : Bool :=
  match s.endOf ticket with
  | .parked _ => false
  | .peer p => s.hub.isOver p
  | .nowhere => true

/-- Whether nothing is left that a client could write to. -/
def isGone (s : Server δ) (ticket : Nat) : Bool :=
  match s.endOf ticket with
  | .parked _ => false
  | .peer p => s.hub.isGone p
  | .nowhere => true

end Server

end Peripheral
