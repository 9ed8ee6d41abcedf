/-!
# Interrupt queues

A queue of interrupt numbers between what raises them and what passes them on. It takes a number only while there is room
and somebody is there to take it out again.
-/

namespace Peripheral

/-- Interrupt numbers that wait, the oldest first. -/
structure IrqQueue where
  capacity : Nat
  waiting : List UInt32
  isOpen : Bool
  deriving DecidableEq, Repr

namespace IrqQueue

/-- What happened to a number that was offered. -/
inductive Offer
  | taken
  | full
  | closed
  deriving DecidableEq, Repr

/-- An empty queue. -/
def empty (capacity : Nat) : IrqQueue := ⟨capacity, [], true⟩

/-- Offers a number. -/
def offer (q : IrqQueue) (id : UInt32) : Offer × IrqQueue :=
  if !q.isOpen then (.closed, q)
  else if q.waiting.length < q.capacity then (.taken, { q with waiting := q.waiting ++ [id] })
  else (.full, q)

/-- Offers numbers one after the other, and counts those taken. -/
def offerAll (q : IrqQueue) : List UInt32 → Nat × IrqQueue
  | [] => (0, q)
  | id :: rest =>
    match q.offer id with
    | (.taken, q) => let (n, q) := q.offerAll rest; (n + 1, q)
    | (_, q) => q.offerAll rest

/-- Takes the oldest number out. -/
def take? (q : IrqQueue) : Option (UInt32 × IrqQueue) :=
  match q.waiting with
  | [] => none
  | id :: rest => some (id, { q with waiting := rest })

/-- Takes all numbers out. -/
def drain (q : IrqQueue) : List UInt32 × IrqQueue := (q.waiting, { q with waiting := [] })

/-- Nobody is left who takes numbers out; those that wait are lost. -/
def close (q : IrqQueue) : IrqQueue := { q with waiting := [], isOpen := false }

end IrqQueue

end Peripheral
