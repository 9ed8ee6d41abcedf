import Peripheral.Proofs.Activity.Run

/-!
# Orders that repeat what is set

An order to pause that comes during a pause leaves no trace. An order to go on that comes while the activity goes on makes the
next tick due one period later, as any order to go on does, so it leaves no trace only at a moment that is one period before the
next tick anyway (`repeated_eq_iff`). A run stays the same, tick by tick, whatever orders of these two kinds are added to it
(`repeated_orders`); any other order to go on can hold a tick back (`repeated_order_postpones`).
-/

namespace Peripheral.Activity

/-- A tick with its instant and its interrupts. -/
def Note.ticked? : Note → Option (Nat × List UInt32)
  | ticked t ids => some (t, ids)
  | _ => none

namespace Scene

/-- An order to pause or to go on would repeat what is set. -/
structure Repeats {δ : Type} (s : Scene δ) (on : Bool) : Prop where
  goes : s.activity.ended = false
  set : s.activity.paused = on

/-- The next tick is one period away. -/
def IsPeriodAway {δ : Type} (s : Scene δ) : Prop := s.activity.due = s.clock + s.activity.period

variable {δ : Type} [Service δ]

/-- The second list is the first with orders added that repeat what is set: to pause at any moment, to go on at those that are
one period before the next tick. They may come in the middle of a wait. -/
inductive Repeating : Scene δ → List (Event δ) → List (Event δ) → Prop
  | done (s : Scene δ) : Repeating s [] []
  | event {s : Scene δ} {e : Event δ} {es more : List (Event δ)}
      (h : ∀ s', s.after? e = some s' → Repeating s' es more) : Repeating s (e :: es) (e :: more)
  | parted {s : Scene δ} {a b : Nat} {es more : List (Event δ)} (h : Repeating s (.wait a :: .wait b :: es) more) :
      Repeating s (.wait (a + b) :: es) more
  | again {s : Scene δ} {on : Bool} {es more : List (Event δ)} (hrepeats : s.Repeats on) (haway : on = false → s.IsPeriodAway)
      (h : Repeating s es more) : Repeating s es (.obey (.pause on) :: more)

/-- An event in common keeps a trace a repetition of the other. -/
theorem Repeating.event_of_after? {s s' : Scene δ} {e : Event δ} {es more : List (Event δ)} (he : s.after? e = some s')
    (h : Repeating s' es more) : Repeating s (e :: es) (e :: more) := by
  refine .event fun s'' he' => ?_
  rw [← Option.some.inj (he.symm.trans he')]
  exact h

/-- What a run comes to, with its ticks. -/
def ticking (result : Scene δ × List Note) : Scene δ × List (Nat × List UInt32) := (result.1, result.2.filterMap Note.ticked?)

/-- The scene after an order that repeats what is set. -/
def repeated (s : Scene δ) (on : Bool) : Scene δ :=
  { s with activity := { s.activity with due := if on then s.activity.due else s.clock + s.activity.period } }

/-- An order that repeats what holds already leads to the scene in which it has been repeated. -/
theorem after?_of_repeats {s : Scene δ} {on : Bool} (h : s.Repeats on) :
    s.after? (.obey (.pause on)) = some (s.repeated on) := by
  obtain ⟨hgoes, hset⟩ := h
  obtain ⟨activity, device, queue, clock⟩ := s
  obtain ⟨period, due, paused, ended, rng⟩ := activity
  cases hgoes
  cases hset
  cases paused <;> rfl

omit [Service δ] in
/-- An order that repeats what is set leaves no trace if it is to pause, or if the next tick is one period away. -/
theorem repeated_eq_iff {s : Scene δ} {on : Bool} : s.repeated on = s ↔ (on = false → s.IsPeriodAway) := by
  obtain ⟨activity, device, queue, clock⟩ := s
  obtain ⟨period, due, paused, ended, rng⟩ := activity
  cases on with
  | true => exact ⟨fun _ h => (nomatch h), fun _ => rfl⟩
  | false =>
    simp only [repeated, IsPeriodAway, mk.injEq, Activity.mk.injEq, Bool.false_eq_true, if_false, and_true, true_and,
      forall_const]
    exact eq_comm

/-- The ticks of a run are those of its first event and those of the rest. -/
theorem ticking_cons (s : Scene δ) (e : Event δ) (es : List (Event δ)) :
    (s.run? (e :: es)).map ticking =
      (s.after? e).bind fun s' => ((s'.run? es).map ticking).map fun x => (x.1, (s.notes e).filterMap Note.ticked? ++ x.2) := by
  cases he : s.after? e with
  | none => simp [run?, he]
  | some s' =>
    cases hr : s'.run? es with
    | none => simp [run?, he, hr]
    | some x => simp [run?, he, hr, ticking]

/-- Waiting may be done in two parts. -/
theorem after?_wait_add (s : Scene δ) (a b : Nat) :
    s.after? (.wait (a + b)) = (s.after? (.wait a)).bind fun s' => s'.after? (.wait b) := by
  unfold after?
  cases hn : s.activity.nextTick? with
  | none => simp [hn, Nat.add_assoc]
  | some due =>
    by_cases ha : s.clock + a ≤ due
    · simp [hn, ha, Nat.add_assoc]
    · have hsum : ¬s.clock + (a + b) ≤ due := by omega
      simp [ha, hsum]

/-- Waiting twice is waiting once for as long, as far as the ticks are concerned. -/
theorem ticking_wait_add (s : Scene δ) (a b : Nat) (es : List (Event δ)) :
    (s.run? (.wait (a + b) :: es)).map ticking = (s.run? (.wait a :: .wait b :: es)).map ticking := by
  rw [ticking_cons, ticking_cons, after?_wait_add]
  cases ha : s.after? (.wait a) with
  | none => rfl
  | some s' =>
    rw [Option.bind_some, Option.bind_some, ticking_cons]
    cases hb : s'.after? (.wait b) with
    | none => rfl
    | some s'' =>
      simp only [Option.bind_some, Option.map_map]
      rfl

/-- Orders that leave no trace may be added to a run. -/
theorem Repeating.ticking_eq {s : Scene δ} {es more : List (Event δ)} (h : Repeating s es more) :
    (s.run? more).map ticking = (s.run? es).map ticking := by
  induction h with
  | done => rfl
  | @event s e es more _ ih =>
    rw [ticking_cons, ticking_cons]
    cases he : s.after? e with
    | none => rfl
    | some s' => simp only [Option.bind_some, ih s' he]
  | @parted s a b es more _ ih =>
    rw [ticking_wait_add]
    exact ih
  | @again s on es more hrepeats haway _ ih =>
    have hsame : s.repeated on = s := repeated_eq_iff.2 haway
    have hnone : (s.notes (.obey (.pause on))).filterMap Note.ticked? = [] := rfl
    rw [ticking_cons, after?_of_repeats hrepeats, hsame, Option.bind_some, ih, hnone]
    simp only [List.nil_append]
    exact Option.map_id_apply

/-- Adding orders that repeat what is set, to pause at any moment and to go on one period before the next tick, makes no
difference to a run: it stays possible or impossible, and the ticks, the device, the generator and the queue stay the same. Any
other order to go on that repeats what is set does make a difference: the next tick comes one period after it. -/
theorem repeated_orders (s : Scene δ) :
    (∀ es more, Repeating s es more → (s.run? more).map ticking = (s.run? es).map ticking) ∧
    ∀ on, s.Repeats on → ∃ s', s.after? (.obey (.pause on)) = some s' ∧
      (s' = s ↔ on = true ∨ s.activity.due = s.clock + s.activity.period) ∧
      s'.activity.nextTick? = if on then none else some (s.clock + s.activity.period) := by
  refine ⟨fun es more h => h.ticking_eq, fun on hrepeats => ⟨_, after?_of_repeats hrepeats, ?_, ?_⟩⟩
  · rw [repeated_eq_iff, IsPeriodAway]
    cases on <;> simp
  · obtain ⟨hgoes, hset⟩ := hrepeats
    cases on <;> simp [nextTick?, repeated, hgoes, hset]

/-- A device that has registers and no life of its own. -/
private def still : RegisterFile := .empty 1

/-- An activity that goes on, one period before its next tick. -/
private def midway : Scene RegisterFile := ⟨⟨10, 15, false, false, .ofSeed 1⟩, still, .empty 64, 5⟩

/-- An order to go on at such a moment, and one to pause in the middle of a pause, make no difference. -/
theorem repeated_orders_midway :
    Repeating midway [.wait 10, .tick, .obey (.pause true), .wait 9]
        [.obey (.pause false), .wait 10, .tick, .obey (.pause true), .wait 4, .obey (.pause true), .wait 5] ∧
      (midway.run? [.obey (.pause false), .wait 10, .tick, .obey (.pause true), .wait 4, .obey (.pause true),
          .wait 5]).map ticking =
        (midway.run? [.wait 10, .tick, .obey (.pause true), .wait 9]).map ticking ∧
      (midway.run? [.wait 10, .tick, .obey (.pause true), .wait 9]).isSome = true ∧ midway.Repeats false ∧
      ∃ s', midway.after? (.obey (.pause false)) = some s' ∧ s'.activity.nextTick? = some 15 := by
  have hrepeating : Repeating midway [.wait 10, .tick, .obey (.pause true), .wait 9]
      [.obey (.pause false), .wait 10, .tick, .obey (.pause true), .wait 4, .obey (.pause true), .wait 5] := by
    refine .again ⟨rfl, rfl⟩ (fun _ => rfl) (.event_of_after? rfl (.event_of_after? rfl (.event_of_after? rfl ?_)))
    refine .parted (a := 4) (b := 5) (.event_of_after? rfl (.again ⟨rfl, rfl⟩ (fun h => nomatch h) ?_))
    exact .event_of_after? rfl (.done _)
  have hrepeats : midway.Repeats false := ⟨rfl, rfl⟩
  obtain ⟨hsame, hnext⟩ := repeated_orders midway
  obtain ⟨s', hs', -, hdue⟩ := hnext false hrepeats
  exact ⟨hrepeating, hsame _ _ hrepeating, rfl, hrepeats, s', hs', hdue⟩

/-- A UART that is switched on, with three bytes to send. -/
def busyUart : Uart :=
  [65, 66, 67].foldl (fun u b => (u.write 0x40000008 b).2) ((Uart.ofConfig default).write 0x40000000 3).2

/-- An order to go on that repeats what is set may hold a tick back: one that comes between two ticks leaves a UART with a byte
to send that would have left without it. -/
theorem repeated_order_postpones :
    ¬ ∀ (c : ActivityConfig) (device : Uart) (queue : IrqQueue) (on : Bool) (now later : Nat), now ≤ later →
        let (a, d, q) := (Activity.start c 0).elapse now device queue
        a.ended = false → a.paused = on → (a.obey now (.pause on)).elapse later d q = a.elapse later d q := by
  intro h
  have hsame := h ⟨10, 0, some 1⟩ busyUart (.empty 64) false 15 24 (by decide) rfl rfl
  have hsent := congrArg (fun x => x.2.1.transmitted) hsame
  exact absurd hsent (by decide)

end Scene

end Peripheral.Activity
