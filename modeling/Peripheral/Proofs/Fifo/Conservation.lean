import Peripheral.Fifo
import Peripheral.Proofs.Trace

/-!
# What becomes of the bytes of a queue

Whatever is pushed onto a queue and popped from it, in whatever order, a byte that found room comes out again in its turn or
still waits, and every push is accounted for (`bytes_in_order`). One turn keeps the books (`balanced_perform`), and books that
are kept by two stretches of a run are kept by both together (`Balanced.append`).
-/

namespace Peripheral.Fifo

/-- Something that is done with a queue. -/
inductive Action
  | push (b : UInt8)
  | pop

/-- What an action gives back. -/
inductive Reply
  | pushed (result : Except Overflow Unit)
  | popped (byte? : Option UInt8)

/-- What an action gives back, and the queue after it. -/
def perform (q : Fifo) : Action → Reply × Fifo
  | .push b => (.pushed (q.push b).1, (q.push b).2)
  | .pop =>
    match q.pop? with
    | none => (.popped none, q)
    | some (b, r) => (.popped (some b), r)

/-- The queue after actions. -/
def performAll (q : Fifo) (actions : List Action) : Fifo := actions.foldl (fun q a => (q.perform a).2) q

/-- One action with what it gave back and the queue after it. -/
abbrev Turn := Trace.Entry Action Reply Fifo

namespace Turn

/-- The byte that was pushed and found room. -/
def accepted? (t : Turn) : Option UInt8 :=
  match t.input, t.output with
  | .push b, .pushed (.ok ()) => some b
  | _, _ => none

/-- The byte that was popped. -/
def popped? (t : Turn) : Option UInt8 :=
  match t.output with
  | .popped byte? => byte?
  | .pushed _ => none

/-- Whether something was pushed, with or without room for it. -/
def isPush (t : Turn) : Bool :=
  match t.input with
  | .push _ => true
  | .pop => false

end Turn

/-- The bytes that found room, in the order in which they were pushed. -/
def accepted (turns : List Turn) : Bytes := turns.filterMap Turn.accepted?

/-- The bytes that came out, in the order in which they did. -/
def popped (turns : List Turn) : Bytes := turns.filterMap Turn.popped?

/-- The number of pushes. -/
def pushes (turns : List Turn) : Nat := turns.countP Turn.isPush

/-! ## Pushes -/

/-- A byte is refused exactly when the queue is full, and the refusal says which byte and how full. -/
theorem push_eq_error_iff {q : Fifo} {b : UInt8} {o : Overflow} :
    (q.push b).1 = .error o ↔ q.size = q.capacity ∧ o = ⟨b, q.capacity⟩ := by
  have hle := q.bounded
  unfold size
  by_cases hroom : q.entries.length < q.capacity
  · rw [(q.push_of_lt b hroom).1]
    constructor
    · intro h
      nomatch h
    · rintro ⟨hfull, -⟩
      omega
  · rw [(q.push_of_full b (Nat.le_of_not_lt hroom)).1]
    constructor
    · intro h
      exact ⟨by omega, (Except.error.inj h).symm⟩
    · rintro ⟨-, rfl⟩
      rfl

/-- A push that fails is counted, and changes nothing else. -/
theorem push_of_error {q : Fifo} {b : UInt8} {o : Overflow} (h : (q.push b).1 = .error o) :
    (q.push b).2 = { q with dropped := q.dropped + 1 } := by
  have hfull : ¬ q.entries.length < q.capacity := Nat.not_lt.2 (Nat.le_of_eq (push_eq_error_iff.1 h).1.symm)
  rw [push, dif_neg hfull]

/-! ## Books -/

/-- The books of a stretch of a run that led from one queue to another. -/
structure Balanced (q : Fifo) (turns : List Turn) (r : Fifo) : Prop where
  capacity_eq : r.capacity = q.capacity
  bytes_eq : popped turns ++ r.entries = q.entries ++ accepted turns
  pushes_eq : pushes turns + q.size + q.dropped = (popped turns).length + r.size + r.dropped

theorem Balanced.refl (q : Fifo) : q.Balanced [] q where
  capacity_eq := rfl
  bytes_eq := (List.append_nil q.entries).symm
  pushes_eq := by simp [pushes, popped]

theorem Balanced.append {q r s : Fifo} {turns more : List Turn} (h : q.Balanced turns r) (h' : r.Balanced more s) :
    q.Balanced (turns ++ more) s where
  capacity_eq := h'.capacity_eq.trans h.capacity_eq
  bytes_eq := by
    have hpopped : popped (turns ++ more) = popped turns ++ popped more := List.filterMap_append
    have haccepted : accepted (turns ++ more) = accepted turns ++ accepted more := List.filterMap_append
    rw [hpopped, haccepted, List.append_assoc, h'.bytes_eq, ← List.append_assoc, h.bytes_eq, List.append_assoc]
  pushes_eq := by
    have hpopped : popped (turns ++ more) = popped turns ++ popped more := List.filterMap_append
    have hpushes : pushes (turns ++ more) = pushes turns + pushes more := List.countP_append
    have hfirst := h.pushes_eq
    have hsecond := h'.pushes_eq
    rw [hpopped, hpushes, List.length_append]
    omega

/-- The books of a single turn. -/
theorem balanced_of_turn {q r : Fifo} {t : Turn} (hcapacity : r.capacity = q.capacity)
    (hbytes : t.popped?.toList ++ r.entries = q.entries ++ t.accepted?.toList)
    (hcount : t.isPush.toNat + q.size + q.dropped = t.popped?.toList.length + r.size + r.dropped) :
    q.Balanced [t] r := by
  have hpopped : popped [t] = t.popped?.toList := by cases h : t.popped? <;> simp [popped, h]
  have haccepted : accepted [t] = t.accepted?.toList := by cases h : t.accepted? <;> simp [accepted, h]
  have hpushes : pushes [t] = t.isPush.toNat := by cases h : t.isPush <;> simp [pushes, h]
  refine ⟨hcapacity, ?_, ?_⟩
  · rw [hpopped, haccepted, hbytes]
  · rw [hpopped, hpushes, hcount]

/-- One operation accounts for what it did. -/
theorem balanced_perform (q : Fifo) (a : Action) : q.Balanced [⟨a, (q.perform a).1, (q.perform a).2⟩] (q.perform a).2 := by
  cases a with
  | push b =>
    by_cases hroom : q.entries.length < q.capacity
    · obtain ⟨hreply, hentries, hdropped, hcapacity⟩ := q.push_of_lt b hroom
      refine balanced_of_turn hcapacity ?_ ?_
      · simp [perform, Turn.popped?, Turn.accepted?, hreply, hentries]
      · simp [perform, size, Turn.isPush, Turn.popped?, hentries, hdropped]
        omega
    · obtain ⟨hreply, hentries, hdropped, hcapacity⟩ := q.push_of_full b (Nat.le_of_not_lt hroom)
      refine balanced_of_turn hcapacity ?_ ?_
      · simp [perform, Turn.popped?, Turn.accepted?, hreply, hentries]
      · simp [perform, size, Turn.isPush, Turn.popped?, hentries, hdropped]
        omega
  | pop =>
    cases hpop : q.pop? with
    | none =>
      simp only [perform, hpop]
      refine balanced_of_turn rfl ?_ ?_ <;> simp [Turn.popped?, Turn.accepted?, Turn.isPush]
    | some x =>
      obtain ⟨b, r⟩ := x
      obtain ⟨hentries, hdropped, hcapacity⟩ := entries_of_pop? hpop
      simp only [perform, hpop]
      refine balanced_of_turn hcapacity ?_ ?_
      · simp [Turn.popped?, Turn.accepted?, hentries]
      · simp [size, Turn.popped?, Turn.isPush, hentries, hdropped]
        omega

/-- A whole sequence of operations accounts for what it did. -/
theorem balanced_performAll (q : Fifo) (actions : List Action) :
    q.Balanced (trace perform q actions) (q.performAll actions) := by
  induction actions generalizing q with
  | nil => exact .refl q
  | cons a rest ih => exact (balanced_perform q a).append (ih (q.perform a).2)

/-- Whatever is pushed onto a new queue and popped from it: what came out, and behind it what waits, is what found room, in
order; there is never more in the queue than it holds, so that the room left is what the capacity says; every push is one of a
byte that came out, that waits or that was dropped. The next push fails exactly when the queue is full, tells the byte and the
capacity, and leaves all but the count of dropped bytes as it was; the next pop gives nothing exactly when the queue is
empty. -/
theorem bytes_in_order (capacity : Nat) (actions : List Action) :
    let turns := trace perform (empty capacity) actions
    let q := (empty capacity).performAll actions
    popped turns ++ q.entries = accepted turns ∧
      q.size ≤ capacity ∧ q.size + q.available = capacity ∧
      pushes turns = (popped turns).length + q.size + q.dropped ∧
      (∀ b o, (q.push b).1 = .error o ↔ q.size = capacity ∧ o = ⟨b, capacity⟩) ∧
      (∀ b o, (q.push b).1 = .error o → (q.push b).2 = { q with dropped := q.dropped + 1 }) ∧
      (q.pop? = none ↔ q.size = 0) := by
  intro turns q
  obtain ⟨hcapacity, hbytes, hpushes⟩ := balanced_performAll (empty capacity) actions
  have hcapacity : q.capacity = capacity := hcapacity
  have hbytes : popped turns ++ q.entries = accepted turns := hbytes
  have hpushes : pushes turns = (popped turns).length + q.size + q.dropped := hpushes
  have hle : q.size ≤ capacity := hcapacity ▸ q.bounded
  have hroom : q.size + q.available = capacity := by
    rw [available, hcapacity]
    exact Nat.add_sub_cancel' hle
  refine ⟨hbytes, hle, hroom, hpushes, fun b o => ?_, fun b o => push_of_error, ?_⟩
  · rw [push_eq_error_iff, hcapacity]
  · rw [pop?_eq_none_iff, size, List.length_eq_zero_iff]

/-- A queue without any room drops whatever is pushed. -/
example : ((empty 0).performAll [.push 7, .pop, .push 8]).dropped = 2 := by decide

end Peripheral.Fifo
