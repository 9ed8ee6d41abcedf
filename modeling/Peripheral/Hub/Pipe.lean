import Peripheral.Disk

/-!
# Pipes

A pipe carries bytes one way. It remembers everything that was ever put into it and how much of that has been read; what
was put in and not yet read takes up room, and there is only so much of it.
-/

namespace Peripheral

/-- What a reader meets behind the last byte. -/
inductive Pipe.Ending
  | more
  | ended
  | failed (fault : IoFault)
  deriving DecidableEq, Repr

/-- One direction of a connection. -/
structure Pipe where
  /-- How many bytes may wait to be read. -/
  capacity : Nat
  /-- Every byte that was accepted, from the first one on. -/
  stream : Bytes
  /-- How many of them have been read. -/
  position : Nat
  ending : Pipe.Ending
  /-- Whether nobody is left who reads. -/
  abandoned : Bool
  deriving DecidableEq

namespace Pipe

/-- A pipe that nothing was put into. -/
def empty (capacity : Nat) : Pipe := ⟨capacity, [], 0, .more, false⟩

/-- The bytes that wait to be read. -/
def held (p : Pipe) : Bytes := p.stream.drop p.position

/-- How many more bytes the pipe takes now. -/
def room (p : Pipe) : Nat := p.capacity - p.held.length

/-- Whether putting anything in fails: nobody reads, or the writer has closed its side. -/
def isBroken (p : Pipe) : Bool := p.abandoned || p.ending != .more

/-- Puts bytes in. -/
def append (p : Pipe) (bytes : Bytes) : Pipe := { p with stream := p.stream ++ bytes }

/-- Reads at most so many bytes. -/
def read (p : Pipe) (most : Nat) : Bytes × Pipe :=
  (p.held.take most, { p with position := p.position + (p.held.take most).length })

/-- The writer closes its side. -/
def finish (p : Pipe) : Pipe := { p with ending := if p.ending = .more then .ended else p.ending }

/-- The connection fails on the way. -/
def fail (p : Pipe) (fault : IoFault) : Pipe := { p with ending := if p.ending = .more then .failed fault else p.ending }

/-- The reader goes away. -/
def abandon (p : Pipe) : Pipe := { p with abandoned := true }

end Pipe

end Peripheral
