import Peripheral.Device.Execute
import Peripheral.Hub.Handler

/-!
# Hubs

A hub holds a device and the peers connected to it, and carries out what is done for them: handlers conduct exchanges, and
couriers send frames and close connections. All of these are tasks that go on side by side. This module says how tasks come
about and go away; what they do one move at a time is said by the moves of a hub.
-/

namespace Peripheral

/-- Something that goes on in a hub. -/
inductive Task
  | handler (h : Handler)
  | errand (c : Courier)

namespace Task

/-- The courier that acts for a task. -/
def courier? : Task → Option Courier
  | handler h =>
    match h.stage with
    | .parting _ c => some c
    | _ => none
  | errand c => some c

/-- Whether a task has come to its end. -/
def isFinished : Task → Bool
  | handler h => h.ending?.isSome
  | errand c => c.isFinished

/-- Whether a task has a handle on a peer's writer. -/
def holdsWriter (t : Task) (p : Peer) : Bool :=
  match t.courier? with
  | some c => c.holds p
  | none => false

/-- Whether a task has the reading side of the link to a peer. -/
def holdsReader (t : Task) (p : Peer) : Bool :=
  match t with
  | handler h => h.peer == p && h.ending?.isNone
  | errand _ => false

/-- The instant at which the task gives up what it is doing. -/
def deadline? (t : Task) : Option Nat := t.courier?.bind (·.work.deadline?)

/-- At least as many moves as the task can still make. -/
def effort : Task → Nat
  | handler h => h.effort
  | errand c => c.effort

end Task

/-- A device with the peers connected to it. Links and tasks are found by their number and are never removed; a peer's
number is that of its link. -/
structure Hub (δ : Type) where
  device : δ
  /-- How long a peer has to take a frame. -/
  patience : Nat
  /-- The present instant. -/
  clock : Nat
  /-- The connected peers, in the order of their arrival. -/
  members : List Peer
  links : List Link
  tasks : List Task
  /-- The number of runs that were told to end; these are the runs with the numbers below it. -/
  halted : Nat

namespace Hub

variable {δ : Type}

/-- A hub without peers. -/
def start (device : δ) (patience : Nat) : Hub δ := ⟨device, patience, 0, [], [], [], 0⟩

/-- The peer that is shown under a number. -/
def peer? (h : Hub δ) (number : Nat) : Option Peer :=
  if 0 < number ∧ number ≤ h.links.length then some (number - 1) else none

/-- Changes a link. -/
def updateLink (h : Hub δ) (p : Peer) (f : Link → Link) : Hub δ := { h with links := h.links.modify p f }

/-- Puts a task in the place of what it was. -/
def setTask (h : Hub δ) (t : Nat) (task : Task) : Hub δ := { h with tasks := h.tasks.set t task }

/-- Begins a task; its number is that of the next free place. -/
def spawn (h : Hub δ) (task : Task) : Hub δ := { h with tasks := h.tasks ++ [task] }

/-- Whether a task has come to its end. -/
def isFinished (h : Hub δ) (t : Nat) : Bool := (h.tasks[t]?.map Task.isFinished).getD true

/-- The courier that acts for a task. -/
def courier? (h : Hub δ) (t : Nat) : Option Courier := h.tasks[t]?.bind Task.courier?

/-- Whether a handle on a peer's writer is left anywhere. -/
def hasWriter (h : Hub δ) (p : Peer) : Bool := h.members.contains p || h.tasks.any (·.holdsWriter p)

/-- Whether anything reads from a peer. -/
def hasReader (h : Hub δ) (p : Peer) : Bool := h.tasks.any (·.holdsReader p)

/-- Whether a peer will get nothing beyond what waits for it: its writer was closed or dropped. -/
def isOver (h : Hub δ) (p : Peer) : Bool :=
  !h.hasWriter p || (h.links[p]?.map fun l => l.outbound.ending != .more).getD true

/-- Whether nothing is left that a peer could write to. -/
def isGone (h : Hub δ) (p : Peer) : Bool := !h.hasReader p && !h.hasWriter p

/-- Lets a client in. -/
def register (h : Hub δ) (link : Link) : Hub δ :=
  { h with links := h.links ++ [link], members := h.members ++ [h.links.length] }

/-- Begins an exchange with a peer, for a run of the server. -/
def serve (h : Hub δ) (p : Peer) (run : Nat) : Hub δ := h.spawn (.handler (.start p run))

/-- Begins to send a frame to one peer. -/
def sendTo (h : Hub δ) (p : Peer) (f : Frame) : Hub δ := h.spawn (.errand (.start [.reach p f]))

/-- Begins to send a frame to all connected peers, one after the other in the given order. -/
def broadcastIn (h : Hub δ) (order : List Peer) (f : Frame) : Hub δ :=
  h.spawn (.errand (.start (order.map (.send · f))))

/-- Begins to send a frame to all connected peers, one after the other. -/
def broadcast (h : Hub δ) (f : Frame) : Hub δ := h.broadcastIn h.members f

/-- The notice of an interrupt of the device. -/
def notice [Service δ] (h : Hub δ) (id : UInt32) : Frame := .interrupt (Service.deviceId h.device) id

/-- Begins to dismiss a peer. -/
def close (h : Hub δ) (p : Peer) : Hub δ := h.spawn (.errand (.start [.dismiss p]))

/-- Takes all peers out of the connected ones and begins to close their writers, one after the other in the given order. -/
def closeAllIn (h : Hub δ) (order : List Peer) : Hub δ :=
  { h with members := [] }.spawn (.errand (.start (order.map .shut)))

/-- Takes all peers out of the connected ones and begins to close their writers, one after the other. -/
def closeAll (h : Hub δ) : Hub δ := h.closeAllIn h.members

/-- Tells the runs below a number to end. -/
def halt (h : Hub δ) (runs : Nat) : Hub δ := { h with halted := max h.halted runs }

/-- Cuts a task short; it gives back the right to write that it has or waits for. -/
def cutShort (h : Hub δ) (t : Nat) : Hub δ :=
  match h.tasks[t]? with
  | some (.errand c) =>
    { h with links := h.links.map fun (l : Link) => l.leave t }.setTask t (.errand c.stop)
  | _ => h

end Hub

end Peripheral
