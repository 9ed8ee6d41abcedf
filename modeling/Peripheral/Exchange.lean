import Peripheral.Disk
import Peripheral.Duration
import Peripheral.Frame.Basic

/-!
# Exchanges

One connection carries one exchange: a request frame and its response. This module says how an exchange can fail and how a
frame is put together from what single reads of a stream return.
-/

namespace Peripheral

/-- How an exchange can fail. -/
inductive ExchangeError
  | framing (t : Truncated)
  | io (fault : IoFault)
  /-- The peer did not take a frame within the given number of milliseconds. -/
  | tooSlow (patience : Nat)
  | stopping
  | peerGone (peer : Nat)
  deriving DecidableEq, Repr

/-- The text of a failed exchange; the words of the system for its own faults are not part of it. -/
def ExchangeError.message : ExchangeError → String
  | framing t => s!"framing error: {t.message}"
  | io _ => "I/O error"
  | tooSlow p => s!"I/O error: frame not accepted within {Duration.text p}"
  | stopping => "server shutting down"
  | peerGone p => s!"peer {p} is no longer connected"

/-- A stream that is read: the pieces still to come, and the fault that it ends with, if it does not end in order. -/
structure Source where
  pieces : List Bytes
  fault : Option IoFault
  deriving DecidableEq

namespace Source

/-- One read into the given room. No bytes mean the end of the stream. -/
def read (s : Source) (room : Nat) : Except IoFault (Bytes × Source) :=
  match s.pieces with
  | [] =>
    match s.fault with
    | none => .ok ([], s)
    | some f => .error f
  | p :: rest =>
    if p.length ≤ room then .ok (p, { s with pieces := rest })
    else .ok (p.take room, { s with pieces := p.drop room :: rest })

/-- The number of bytes still to come. -/
def size (s : Source) : Nat := s.pieces.foldr (fun p n => p.length + n) 0

/-- Reads until a frame is complete, behind what was read of it before. -/
def fillFrame (got : Bytes) (s : Source) : Except ExchangeError Frame × Source :=
  if _complete : Frame.size ≤ got.length then (.ok (.ofBytes got), s)
  else
    match s.read (Frame.size - got.length) with
    | .error f => (.error (.io f), s)
    | .ok ([], s) => (.error (.framing ⟨got.length⟩), s)
    | .ok (b :: more, s) => fillFrame (got ++ b :: more) s
termination_by Frame.size - got.length
decreasing_by
  simp only [List.length_append, List.length_cons]
  omega

/-- Reads one frame and nothing beyond it. -/
def readFrame (s : Source) : Except ExchangeError Frame × Source := fillFrame [] s

end Source

end Peripheral
