import Peripheral.Bytes
import Peripheral.Hex

/-!
# Bounded byte queues

A queue of at most a fixed number of bytes. A byte pushed onto a full queue is dropped and counted; the bytes already
there stay as they are. The bound is part of the type, so the free space never goes below zero.
-/

namespace Peripheral

/-- A queue of bytes, the oldest first. -/
structure Fifo where
  capacity : Nat
  entries : Bytes
  dropped : Nat
  bounded : entries.length ≤ capacity
  deriving DecidableEq

namespace Fifo

/-- A byte that found no room, and the size of the queue that was full. -/
structure Overflow where
  byte : UInt8
  capacity : Nat
  deriving DecidableEq, Repr

/-- The text of an overflow. -/
def Overflow.message (o : Overflow) : String :=
  s!"fifo full ({o.capacity} entries), dropped {Hex.byte o.byte}"

/-- The depth of the queues of a UART. -/
def depth : Nat := 16

/-- An empty queue. -/
def empty (capacity : Nat) : Fifo :=
  { capacity, entries := [], dropped := 0, bounded := Nat.zero_le _ }

/-- The number of bytes in the queue. -/
def size (q : Fifo) : Nat := q.entries.length

/-- Whether the queue holds nothing. -/
def isEmpty (q : Fifo) : Bool := q.entries.isEmpty

/-- Whether there is no room for another byte. -/
def isFull (q : Fifo) : Bool := q.capacity ≤ q.entries.length

/-- The room that is left. -/
def available (q : Fifo) : Nat := q.capacity - q.entries.length

/-- Puts a byte behind the others, or drops it if there is no room. -/
def push (q : Fifo) (b : UInt8) : Except Overflow Unit × Fifo :=
  if h : q.entries.length < q.capacity then
    (.ok (), { q with entries := q.entries ++ [b], bounded := by rw [List.length_append]; exact h })
  else
    (.error ⟨b, q.capacity⟩, { q with dropped := q.dropped + 1 })

/-- Takes the oldest byte out. -/
def pop? (q : Fifo) : Option (UInt8 × Fifo) :=
  match h : q.entries with
  | [] => none
  | b :: rest => 
    have fits : (b :: rest).length ≤ q.capacity := h ▸ q.bounded
    some (b, { q with entries := rest, bounded := Nat.le_of_succ_le fits })

/-- There is room for the byte: it comes last, and nothing is dropped. -/
theorem push_of_lt (q : Fifo) (b : UInt8) (h : q.entries.length < q.capacity) :
    (q.push b).1 = .ok () ∧ (q.push b).2.entries = q.entries ++ [b] ∧ (q.push b).2.dropped = q.dropped ∧
      (q.push b).2.capacity = q.capacity := by
  simp [push, h]

/-- There is no room for the byte: it is refused and counted, and the queue keeps what it holds. -/
theorem push_of_full (q : Fifo) (b : UInt8) (h : q.capacity ≤ q.entries.length) :
    (q.push b).1 = .error ⟨b, q.capacity⟩ ∧ (q.push b).2.entries = q.entries ∧
      (q.push b).2.dropped = q.dropped + 1 ∧ (q.push b).2.capacity = q.capacity := by
  simp [push, Nat.not_lt.mpr h]

/-- Only an empty queue has nothing to hand out. -/
theorem pop?_eq_none_iff (q : Fifo) : q.pop? = none ↔ q.entries = [] := by
  unfold pop?
  split <;> simp_all

/-- The byte that is handed out is the first one, and the others remain. -/
theorem entries_of_pop? {q r : Fifo} {b : UInt8} (h : q.pop? = some (b, r)) :
    q.entries = b :: r.entries ∧ r.dropped = q.dropped ∧ r.capacity = q.capacity := by
  unfold pop? at h
  split at h
  · simp at h
  · simp only [Option.some.injEq, Prod.mk.injEq] at h
    obtain ⟨rfl, rfl⟩ := h
    simp_all

end Fifo

end Peripheral
