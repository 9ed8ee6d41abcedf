import Peripheral.Hub.Courier

/-!
# Handlers

A handler conducts the exchange with one peer: it receives the request, has it executed and sends the response. Whatever
happens, short of a breakdown of the device, it dismisses the peer before it ends.
-/

namespace Peripheral

/-- How a handler has ended. -/
inductive Handler.Ending
  | answered (response : Frame)
  | failed (error : ExchangeError)
  /-- The device broke down while it executed the request. -/
  | crashed
  deriving DecidableEq

/-- How far a handler has come. -/
inductive Handler.Stage
  /-- Waits for the rest of the request. -/
  | receiving (got : Bytes)
  /-- Has a request that was not yet executed. -/
  | holding (request : Frame)
  /-- Sends the response, if there is one, and dismisses the peer. -/
  | parting (result : Except ExchangeError Frame) (courier : Courier)
  | ended (ending : Handler.Ending)

/-- The conduct of one exchange. A handler belongs to a run of the server and heeds the end of that run only. -/
structure Handler where
  peer : Peer
  run : Nat
  stage : Handler.Stage

namespace Handler

/-- A handler that has received nothing yet. -/
def start (peer : Peer) (run : Nat) : Handler := ⟨peer, run, .receiving []⟩

/-- How a handler ended, once it has. -/
def ending? (h : Handler) : Option Ending :=
  match h.stage with
  | .ended e => some e
  | _ => none

/-- The stage after the reception of bytes behind those that were there. -/
def Stage.received (got : Bytes) : Stage :=
  if got.length < Frame.size then .receiving got else .holding (.ofBytes got)

/-- The stage of giving up an exchange. -/
def Stage.refusing (peer : Peer) (e : ExchangeError) : Stage := .parting (.error e) (.start [.dismiss peer])

/-- The stage of responding. -/
def Stage.responding (peer : Peer) (response : Frame) : Stage :=
  .parting (.ok response) (.start [.reach peer response, .dismiss peer])

/-- The ending after everything is done. A response that could not be sent is no success. -/
def Ending.of (result : Except ExchangeError Frame) (failure? : Option ExchangeError) : Ending :=
  match failure?, result with
  | some e, _ => .failed e
  | none, .ok response => .answered response
  | none, .error e => .failed e

/-- At least as many moves as a handler can still make. -/
def effort (h : Handler) : Nat :=
  match h.stage with
  | .receiving got => (Frame.size - got.length) + Frame.size + 14
  | .holding _ => Frame.size + 12
  | .parting _ c => c.effort + 1
  | .ended _ => 0

end Handler

end Peripheral
