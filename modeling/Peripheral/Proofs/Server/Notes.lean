import Peripheral.Proofs.Hub.Round
import Peripheral.Proofs.Server.Run

/-!
# What becomes of interrupt numbers

A history of a server is what becomes of the numbers that are offered to its queue (`Server.notes`, `Server.history`): the
queue takes a number or has no room for it; the relay begins to pass a number on, has passed it on, or is cut short. What the
queue does to numbers that are offered in turn is said here once (`IrqQueue.verdicts`): none is passed over, those that are
taken wait in the order in which they came, and one is dropped only when the queue is full.
-/

namespace Peripheral

/-- A number that the relay of a run passes on, and the round in which it does. -/
structure Broadcast where
  run : Nat
  id : UInt32
  round : Round
  deriving DecidableEq

/-- Something that becomes of an interrupt number. -/
inductive Note
  /-- The queue took the number. -/
  | accepted (id : UInt32)
  /-- There was no room for the number. -/
  | dropped (id : UInt32)
  /-- The relay took the number out of the queue and began a round with it. -/
  | begun (b : Broadcast)
  /-- The round of a task has come to its end. -/
  | completed (task : Nat)
  /-- The round of a task was cut short. -/
  | cut (task : Nat)
  deriving DecidableEq

namespace Note

/-- The number that the queue took. -/
def accepted? : Note → Option UInt32
  | accepted id => some id
  | _ => none

/-- The number that the queue took or had no room for. -/
def offered? : Note → Option UInt32
  | accepted id => some id
  | dropped id => some id
  | _ => none

/-- The number that the relay began to pass on. -/
def begun? : Note → Option Broadcast
  | begun b => some b
  | _ => none

end Note

/-- The numbers that the queue took. -/
def acceptedIds (notes : List Note) : List UInt32 := notes.filterMap Note.accepted?

/-- The numbers that the queue took or had no room for. -/
def offeredIds (notes : List Note) : List UInt32 := notes.filterMap Note.offered?

/-- The numbers that the relay began to pass on. -/
def broadcasts (notes : List Note) : List Broadcast := notes.filterMap Note.begun?

theorem acceptedIds_append (notes more : List Note) :
    acceptedIds (notes ++ more) = acceptedIds notes ++ acceptedIds more :=
  List.filterMap_append

theorem offeredIds_append (notes more : List Note) : offeredIds (notes ++ more) = offeredIds notes ++ offeredIds more :=
  List.filterMap_append

theorem broadcasts_append (notes more : List Note) : broadcasts (notes ++ more) = broadcasts notes ++ broadcasts more :=
  List.filterMap_append

/-- The relay has begun with a number if the history says so. -/
theorem mem_broadcasts {notes : List Note} {b : Broadcast} : b ∈ broadcasts notes ↔ .begun b ∈ notes := by
  refine List.mem_filterMap.trans ⟨?_, fun hb => ⟨_, hb, rfl⟩⟩
  rintro ⟨n, hn, heq⟩
  cases n with
  | begun b' => exact Option.some.inj heq ▸ hn
  | accepted | dropped | completed | cut => nomatch heq

/-- Something in a history that goes on is in what there was of it, or in what is new. -/
theorem split_append {α : Type} {a b past later : List α} {x : α} (h : a ++ b = past ++ x :: later) :
    (∃ rest, a = past ++ x :: rest) ∨ ∃ front, past = a ++ front ∧ b = front ++ x :: later := by
  rcases List.append_eq_append_iff.1 h with ⟨front, hpast, hb⟩ | ⟨rest, ha, hlater⟩
  · exact Or.inr ⟨front, hpast, hb⟩
  · cases rest with
    | nil => exact Or.inr ⟨[], by rw [ha, List.append_nil, List.append_nil], hlater.symm⟩
    | cons y rest =>
      obtain ⟨rfl, -⟩ := List.cons.inj hlater
      exact Or.inl ⟨rest, ha⟩

/-! ## Queues -/

namespace IrqQueue

/-- What becomes of numbers that are offered one after the other. -/
def verdicts (q : IrqQueue) : List UInt32 → List Note
  | [] => []
  | id :: rest =>
    match q.offer id with
    | (.taken, q) => .accepted id :: q.verdicts rest
    | (.full, q) => .dropped id :: q.verdicts rest
    | (.closed, q) => q.verdicts rest

/-- What becomes of a number that is offered to an open queue. -/
theorem offer_cases {q : IrqQueue} (ho : q.isOpen = true) (id : UInt32) :
    (q.waiting.length < q.capacity ∧ q.offer id = (.taken, { q with waiting := q.waiting ++ [id] })) ∨
    (q.capacity ≤ q.waiting.length ∧ q.offer id = (.full, q)) := by
  unfold offer
  rw [ho, Bool.not_true, if_neg Bool.false_ne_true]
  by_cases hroom : q.waiting.length < q.capacity
  · rw [if_pos hroom]
    exact Or.inl ⟨hroom, rfl⟩
  · rw [if_neg hroom]
    exact Or.inr ⟨Nat.le_of_not_lt hroom, rfl⟩

/-- What numbers that are offered in turn do to an open queue with room for so many. -/
structure Offered (q : IrqQueue) (ids : List UInt32) (q' : IrqQueue) (notes : List Note) : Prop where
  capacity_eq : q'.capacity = q.capacity
  isOpen : q'.isOpen = true
  length_le : q'.waiting.length ≤ q.capacity
  waiting_eq : q'.waiting = q.waiting ++ acceptedIds notes
  /-- None is passed over. -/
  offered_eq : offeredIds notes = ids
  /-- A number is dropped only if there is no room. -/
  full : ∀ past later id, notes = past ++ .dropped id :: later →
    q.waiting.length + (acceptedIds past).length = q.capacity

/-- What numbers that are offered in turn do to an open queue, and what becomes of them. -/
theorem offered_offerAll {q : IrqQueue} (ho : q.isOpen = true) (hlen : q.waiting.length ≤ q.capacity)
    (ids : List UInt32) : q.Offered ids (q.offerAll ids).2 (q.verdicts ids) := by
  induction ids generalizing q with
  | nil => exact ⟨rfl, ho, hlen, (List.append_nil _).symm, rfl, fun past _ _ h => absurd h (by simp [verdicts])⟩
  | cons id rest ih =>
    rcases offer_cases ho id with ⟨hroom, heq⟩ | ⟨hfull, heq⟩
    · have hrest := ih (q := { q with waiting := q.waiting ++ [id] }) ho (by
        rw [List.length_append, List.length_singleton]
        exact hroom)
      simp only [offerAll, verdicts, heq]
      refine ⟨hrest.capacity_eq, hrest.isOpen, hrest.length_le, ?_, ?_, ?_⟩
      · rw [hrest.waiting_eq, List.append_assoc]
        rfl
      · rw [offeredIds, List.filterMap_cons]
        exact congrArg (id :: ·) hrest.offered_eq
      · intro past later id' hsplit
        cases past with
        | nil => nomatch hsplit
        | cons n past =>
          obtain ⟨rfl, hbehind⟩ := List.cons.inj hsplit
          have hcount : (q.waiting ++ [id]).length + (acceptedIds past).length = q.capacity :=
            hrest.full past later id' hbehind
          rw [List.length_append, List.length_singleton, acceptedIds] at hcount
          rw [acceptedIds, List.filterMap_cons]
          simp only [Note.accepted?, List.length_cons]
          omega
    · have hrest := ih ho hlen
      simp only [offerAll, verdicts, heq]
      refine ⟨hrest.capacity_eq, hrest.isOpen, hrest.length_le, hrest.waiting_eq, ?_, ?_⟩
      · rw [offeredIds, List.filterMap_cons]
        exact congrArg (id :: ·) hrest.offered_eq
      · intro past later id' hsplit
        cases past with
        | nil => exact Nat.le_antisymm hlen hfull
        | cons n past =>
          obtain ⟨rfl, hbehind⟩ := List.cons.inj hsplit
          exact hrest.full past later id' hbehind

/-- Nothing becomes of a number that is offered but that the queue takes it or has no room for it. -/
theorem mem_verdicts {q : IrqQueue} {ids : List UInt32} {n : Note} (hn : n ∈ q.verdicts ids) :
    ∃ id, n = .accepted id ∨ n = .dropped id := by
  induction ids generalizing q with
  | nil => nomatch hn
  | cons id rest ih =>
    rw [verdicts] at hn
    split at hn
    · rcases List.mem_cons.1 hn with rfl | hn
      · exact ⟨id, Or.inl rfl⟩
      · exact ih hn
    · rcases List.mem_cons.1 hn with rfl | hn
      · exact ⟨id, Or.inr rfl⟩
      · exact ih hn
    · exact ih hn

/-- The queue begins with none of the numbers that it is offered. -/
theorem broadcasts_verdicts (q : IrqQueue) (ids : List UInt32) : broadcasts (q.verdicts ids) = [] := by
  refine List.filterMap_eq_nil_iff.2 fun n hn => ?_
  obtain ⟨id, rfl | rfl⟩ := mem_verdicts hn <;> rfl

end IrqQueue

/-! ## Histories -/

namespace Server

variable {δ : Type} [Service δ]

/-- The numbers that an event offers to the queue, in order. -/
def offers (s : Server δ) : Event → List UInt32
  | .offer ids => ids
  | .tick g => (Service.tick s.hub.device g).1
  | _ => []

/-- What becomes of numbers in an event. -/
def notes (s : Server δ) : Event → List Note
  | .offer ids => s.queue.verdicts ids
  | .tick g => s.queue.verdicts (Service.tick s.hub.device g).1
  | .move (.relay order) =>
    match s.relay, s.queue.waiting with
    | .waiting, id :: _ => [.begun ⟨s.runs - 1, id, ⟨s.hub.tasks.length, s.hub.notice id, order⟩⟩]
    | .pushing t, _ => [.completed t]
    | _, _ => []
  | .move .relayHeeds =>
    match s.relay with
    | .pushing t => [.cut t]
    | _ => []
  | _ => []

/-- What becomes of numbers in a run. -/
def history (s : Server δ) (d : Disk) : List Event → List Note
  | [] => []
  | e :: rest => s.notes e ++ ((s.after? d e).map fun x => x.1.history x.2 rest).getD []

/-- The numbers that are offered to the queue in a run, in order. -/
def allOffers (s : Server δ) (d : Disk) : List Event → List UInt32
  | [] => []
  | e :: rest => s.offers e ++ ((s.after? d e).map fun x => x.1.allOffers x.2 rest).getD []

end Server

end Peripheral
