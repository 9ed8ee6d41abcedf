import Peripheral.Exchange
import Peripheral.Hub.Link

/-!
# Couriers

A courier writes to clients on behalf of others. It does one job after the other. A job on a client's writer takes time: the
courier waits in line for the right to write and gives up at a deadline, which counts from the moment it got in line. A frame
that could not be delivered in full is given up, and its client is thrown out.
-/

namespace Peripheral

/-- A client that was let in, by its place in the order of arrival. -/
abbrev Peer := Nat

/-- The number that is shown for a peer. -/
def Peer.number (p : Peer) : Nat := p + 1

/-- What a courier is asked to do. -/
inductive Job
  /-- Send a frame to a peer if it is still connected. -/
  | reach (peer : Peer) (frame : Frame)
  /-- Send a frame to a peer through a handle on its writer. -/
  | send (peer : Peer) (frame : Frame)
  /-- Take a peer out of the connected ones and close its writer. -/
  | dismiss (peer : Peer)
  /-- Close a peer's writer through a handle on it. -/
  | shut (peer : Peer)
  deriving DecidableEq

/-- What a courier is doing, and until when. -/
inductive Work
  | idle
  | sending (peer : Peer) (rest : Bytes) (deadline : Nat)
  | shutting (peer : Peer) (deadline : Nat)
  deriving DecidableEq

/-- A courier: what it does now, what it does next, whom it has reached, and what went wrong last. -/
structure Courier where
  work : Work
  jobs : List Job
  reached : List Peer
  failure? : Option ExchangeError
  deriving DecidableEq

/-- The peer whose writer the job needs a handle on from the start. -/
def Job.handle? : Job → Option Peer
  | reach _ _ => none
  | send p _ => some p
  | dismiss _ => none
  | shut p => some p

/-- The peer whose writer is being worked on. -/
def Work.peer? : Work → Option Peer
  | idle => none
  | sending p _ _ => some p
  | shutting p _ => some p

/-- The instant at which the work is given up. -/
def Work.deadline? : Work → Option Nat
  | idle => none
  | sending _ _ d => some d
  | shutting _ d => some d

/-- At least as many moves as work can take, with those of the jobs that its failure brings about. -/
def Work.effort : Work → Nat
  | idle => 0
  | sending _ rest _ => rest.length + 6
  | shutting _ _ => 1

/-- At least as many moves as a job can take, with those of the jobs that its failure brings about. -/
def Job.effort : Job → Nat
  | reach _ _ => Frame.size + 8
  | send _ _ => Frame.size + 7
  | dismiss _ => 2
  | shut _ => 2

namespace Courier

/-- A courier that starts on its jobs. -/
def start (jobs : List Job) : Courier := ⟨.idle, jobs, [], none⟩

/-- Whether everything is done. -/
def isFinished (c : Courier) : Bool := c.work == .idle && c.jobs.isEmpty

/-- Whether the courier has a handle on a peer's writer. -/
def holds (c : Courier) (p : Peer) : Bool := c.work.peer? == some p || c.jobs.any (fun j => j.handle? == some p)

/-- Gives up on a peer: it is thrown out before anything else is done. -/
def giveUp (c : Courier) (p : Peer) (e : ExchangeError) : Courier :=
  { c with work := .idle, jobs := .dismiss p :: c.jobs, failure? := some e }

/-- A courier that stops where it is. -/
def stop (c : Courier) : Courier := { c with work := .idle, jobs := [] }

/-- At least as many moves as the courier can still make. -/
def effort (c : Courier) : Nat := c.work.effort + c.jobs.foldr (fun j n => j.effort + n) 0

end Courier

end Peripheral
