import Peripheral.Exchange
import Peripheral.Frame.Buffer

/-!
# Clients

A client sends one request and waits for its response. Interrupts that are pushed to the connection before the response are
collected. The answer to a request that is itself an interrupt cannot be told from a pushed one, so the first frame counts.
-/

namespace Peripheral.Client

/-- A response and the numbers of the interrupts that came before it. -/
structure Answer where
  response : Frame
  interrupts : List UInt32
  deriving DecidableEq

/-- A client that waits: what it asked, what has arrived, and the interrupts so far. -/
structure Waiting where
  request : Frame
  buffer : FrameBuffer
  interrupts : List UInt32
  deriving DecidableEq

/-- A client that has just sent its request. -/
def Waiting.start (request : Frame) : Waiting := ⟨request, .empty, []⟩

/-- Whether a frame is pushed and not the response. -/
def isPush (request f : Frame) : Bool := request.command != .interrupt && f.command == .interrupt

/-- Looks for the response among frames in the order of their arrival. -/
def settle (request : Frame) : List Frame → List UInt32 → Except (List UInt32) Answer
  | [], seen => .error seen
  | f :: rest, seen => if isPush request f then settle request rest (seen ++ [f.length]) else .ok ⟨f, seen⟩

/-- A piece of the stream arrives: the answer, or the client that still waits. -/
def Waiting.receive (w : Waiting) (piece : Bytes) : Except Waiting Answer :=
  let (frames, buffer) := (w.buffer.push piece).drain
  match settle w.request frames w.interrupts with
  | .ok a => .ok a
  | .error seen => .error { w with buffer, interrupts := seen }

/-- The stream ended before there was an answer. -/
def Waiting.ended (w : Waiting) : ExchangeError := .framing ⟨w.buffer.pending⟩

/-- Waits for the answer in a stream that comes in pieces and then ends. -/
def Waiting.await (w : Waiting) : List Bytes → Except ExchangeError Answer
  | [] => .error w.ended
  | p :: rest =>
    match w.receive p with
    | .ok a => .ok a
    | .error w => w.await rest

/-- The answer to a request from a stream that comes in pieces and then ends. -/
def request (r : Frame) (pieces : List Bytes) : Except ExchangeError Answer := (Waiting.start r).await pieces

end Peripheral.Client
