import Peripheral.Activity

/-!
# Runs of an activity

Everything that can happen around an activity, as events: time passes, though never past a tick that is due; the tick that is
due is made; orders come in, or nobody is left to give any; and others use the device and the queue. A run is any list of
events that are possible one after the other, and it leaves notes of the orders and the ticks with their instants. What runs
the activity from one instant to another is such a run (`elapse_eq_run`).
-/

namespace Peripheral.Activity

/-- Something that happens around an activity. -/
inductive Event (δ : Type)
  | wait (ms : Nat)
  | tick
  | obey (order : Order)
  | abandon
  /-- Others leave the device as it is said. -/
  | touch (device : δ)
  /-- Others leave the queue as it is said. -/
  | serve (queue : IrqQueue)

/-- What an outsider could note of an activity. -/
inductive Note
  | obeyed (instant : Nat) (order : Order)
  | ticked (instant : Nat) (ids : List UInt32)
  deriving DecidableEq

/-- The instant of an order to go on. -/
def Note.resumption? : Note → Option Nat
  | obeyed t (.pause false) => some t
  | _ => none

/-- The instant of a tick. -/
def Note.tick? : Note → Option Nat
  | ticked t _ => some t
  | _ => none

/-- An activity with what it works on, at an instant. -/
structure Scene (δ : Type) where
  activity : Activity
  device : δ
  queue : IrqQueue
  clock : Nat

namespace Scene

variable {δ : Type} [Service δ]

omit [Service δ] in
/-- An activity that starts now. -/
def start (c : ActivityConfig) (device : δ) (queue : IrqQueue) (now : Nat) : Scene δ :=
  ⟨Activity.start c now, device, queue, now⟩

/-- The scene after the tick that is due. -/
def ticked (s : Scene δ) : Scene δ :=
  let (activity, device, queue) := s.activity.tick s.device s.queue
  { s with activity, device, queue }

/-- The scene after an event, if the event is possible. -/
def after? (s : Scene δ) : Event δ → Option (Scene δ)
  | .wait ms => if s.activity.nextTick?.all (s.clock + ms ≤ ·) then some { s with clock := s.clock + ms } else none
  | .tick => if s.activity.nextTick? = some s.clock then some s.ticked else none
  | .obey order => if s.activity.ended then none else some { s with activity := s.activity.obey s.clock order }
  | .abandon => some { s with activity := s.activity.abandon }
  | .touch device => some { s with device }
  | .serve queue => some { s with queue }

/-- What is noted of an event. -/
def notes (s : Scene δ) : Event δ → List Note
  | .tick => [.ticked s.clock (Service.tick s.device s.activity.rng).1]
  | .obey order => [.obeyed s.clock order]
  | _ => []

/-- The scene after events, with the notes of them, if they are possible one after the other. -/
def run? (s : Scene δ) : List (Event δ) → Option (Scene δ × List Note)
  | [] => some (s, [])
  | e :: rest => do
    let s' ← s.after? e
    let (s'', log) ← s'.run? rest
    return (s'', s.notes e ++ log)

/-- A run of an event and of others is the event and a run of the others. -/
theorem run?_cons_eq_some {s s'' : Scene δ} {e : Event δ} {rest : List (Event δ)} {log : List Note}
    (hr : s.run? (e :: rest) = some (s'', log)) :
    ∃ s' more, s.after? e = some s' ∧ s'.run? rest = some (s'', more) ∧ log = s.notes e ++ more := by
  obtain ⟨s', he, hr⟩ := Option.bind_eq_some_iff.1 hr
  obtain ⟨⟨s'', more⟩, hrest, heq⟩ := Option.bind_eq_some_iff.1 hr
  cases heq
  exact ⟨s', more, he, hrest, rfl⟩

/-- What holds in the beginning and is carried on by every event holds after every run. -/
theorem run?_induction {P : Scene δ → List Note → Prop} {s s' : Scene δ} {es : List (Event δ)} {log more : List Note}
    (step : ∀ s e s' log, P s log → s.after? e = some s' → P s' (log ++ s.notes e)) (hp : P s log)
    (hr : s.run? es = some (s', more)) : P s' (log ++ more) := by
  induction es generalizing s log more with
  | nil =>
    cases hr
    rw [List.append_nil]
    exact hp
  | cons e rest ih =>
    obtain ⟨s₁, log₂, he, hr₂, rfl⟩ := run?_cons_eq_some hr
    rw [← List.append_assoc]
    exact ih (step s e s₁ log hp he) hr₂

/-- Runs that follow on each other are one run. -/
theorem run?_append {s s' s'' : Scene δ} {es more : List (Event δ)} {log₁ log₂ : List Note}
    (hr₁ : s.run? es = some (s', log₁)) (hr₂ : s'.run? more = some (s'', log₂)) :
    s.run? (es ++ more) = some (s'', log₁ ++ log₂) := by
  induction es generalizing s log₁ with
  | nil =>
    cases hr₁
    exact hr₂
  | cons e rest ih =>
    obtain ⟨s₁, log', he, hr', rfl⟩ := run?_cons_eq_some hr₁
    simp [run?, he, ih hr']

/-- A run is a run up to any moment of it, and one from there on. -/
theorem run?_append_eq_some {s s'' : Scene δ} {es more : List (Event δ)} {log : List Note}
    (hr : s.run? (es ++ more) = some (s'', log)) :
    ∃ s' log₁ log₂, s.run? es = some (s', log₁) ∧ s'.run? more = some (s'', log₂) ∧ log = log₁ ++ log₂ := by
  induction es generalizing s log with
  | nil => exact ⟨s, [], log, rfl, hr, rfl⟩
  | cons e rest ih =>
    obtain ⟨s₁, log', he, hr', rfl⟩ := run?_cons_eq_some hr
    obtain ⟨s', log₁, log₂, hpast, hmore, rfl⟩ := ih hr'
    refine ⟨s', s.notes e ++ log₁, log₂, ?_, hmore, (List.append_assoc _ _ _).symm⟩
    simp [run?, he, hpast]

/-- An event that is possible makes a run by itself. -/
theorem run?_single {s s' : Scene δ} {e : Event δ} (he : s.after? e = some s') : s.run? [e] = some (s', s.notes e) := by
  simp [run?, he]

/-! ## One event -/

omit [Service δ] in
/-- A tick is due only while the task goes on and is not paused, and then when the schedule says. -/
theorem nextTick?_eq_some_iff {a : Activity} {t : Nat} :
    a.nextTick? = some t ↔ a.ended = false ∧ a.paused = false ∧ a.due = t := by
  simp only [nextTick?]
  cases a.ended <;> cases a.paused <;> simp

/-- What an event makes of the activity. -/
def activityAfter (s : Scene δ) : Event δ → Activity
  | .tick => s.ticked.activity
  | .obey order => s.activity.obey s.clock order
  | .abandon => s.activity.abandon
  | _ => s.activity

/-- What an event makes of the task depends on the event and the scene before it. -/
theorem activity_after? {s s' : Scene δ} {e : Event δ} (he : s.after? e = some s') : s'.activity = s.activityAfter e := by
  cases e with
  | wait | tick =>
    obtain ⟨-, heq⟩ := Option.ite_none_right_eq_some.1 he
    cases heq
    rfl
  | obey order =>
    obtain ⟨-, heq⟩ := Option.ite_none_left_eq_some.1 he
    cases heq
    rfl
  | abandon | touch | serve =>
    cases he
    rfl

/-- The clock does not go back. -/
theorem clock_le_after? {s s' : Scene δ} {e : Event δ} (he : s.after? e = some s') : s.clock ≤ s'.clock := by
  cases e with
  | wait ms =>
    obtain ⟨-, heq⟩ := Option.ite_none_right_eq_some.1 he
    cases heq
    exact Nat.le_add_right _ _
  | tick =>
    obtain ⟨-, heq⟩ := Option.ite_none_right_eq_some.1 he
    cases heq
    exact Nat.le_refl _
  | obey order =>
    obtain ⟨-, heq⟩ := Option.ite_none_left_eq_some.1 he
    cases heq
    exact Nat.le_refl _
  | abandon | touch | serve =>
    cases he
    exact Nat.le_refl _

/-- A tick is made when it is due, by an activity that goes on. -/
theorem nextTick_of_tick {s s' : Scene δ} (he : s.after? .tick = some s') :
    s.activity.ended = false ∧ s.activity.paused = false ∧ s.activity.due = s.clock :=
  nextTick?_eq_some_iff.1 (Option.ite_none_right_eq_some.1 he).1

/-! ## From one instant to another -/

/-- Time goes on up to an instant before the next tick, or to the tick. -/
theorem wait_to {s : Scene δ} {t : Nat} (hle : s.clock ≤ t) (hnext : ∀ due, s.activity.nextTick? = some due → t ≤ due) :
    s.after? (.wait (t - s.clock)) = some { s with clock := t } := by
  have hsum : s.clock + (t - s.clock) = t := by omega
  have hall : s.activity.nextTick?.all (s.clock + (t - s.clock) ≤ ·) = true := by
    cases hn : s.activity.nextTick? with
    | none => rfl
    | some due => simpa [hsum] using hnext due hn
  rw [after?, if_pos hall, hsum]

/-- Making ticks up to an instant is a run of waits and ticks, if there is time for enough of them. -/
theorem elapseWithin_eq_run {horizon n : Nat} {s : Scene δ} (hperiod : 0 < s.activity.period) (hle : s.clock ≤ horizon)
    (hdue : ∀ t, s.activity.nextTick? = some t → s.clock ≤ t ∧ horizon + 1 ≤ t + n) :
    ∃ es log, s.run? es = some (⟨(s.activity.elapseWithin horizon n s.device s.queue).1,
      (s.activity.elapseWithin horizon n s.device s.queue).2.1,
      (s.activity.elapseWithin horizon n s.device s.queue).2.2, horizon⟩, log) := by
  induction n generalizing s with
  | zero =>
    have hwait := wait_to hle fun t ht => by have := (hdue t ht).2; omega
    exact ⟨_, _, run?_single hwait⟩
  | succ n ih =>
    cases hn : s.activity.nextTick? with
    | none =>
      have hwait := wait_to hle fun t ht => by rw [hn] at ht; nomatch ht
      rw [elapseWithin]
      simp only [hn]
      exact ⟨_, _, run?_single hwait⟩
    | some t =>
      rw [elapseWithin]
      simp only [hn]
      by_cases ht : t ≤ horizon
      · simp only [if_pos ht]
        obtain ⟨hclock, hroom⟩ := hdue t hn
        have hwait := wait_to hclock fun due hd => by rw [hn] at hd; exact Nat.le_of_eq (Option.some.inj hd)
        have htick : ({ s with clock := t } : Scene δ).after? .tick = some { s with clock := t }.ticked := if_pos hn
        obtain ⟨-, -, rfl⟩ := nextTick?_eq_some_iff.1 hn
        have hnext : ∀ u, ({ s with clock := s.activity.due } : Scene δ).ticked.activity.nextTick? = some u →
            s.activity.due ≤ u ∧ horizon + 1 ≤ u + n := by
          intro u hu
          have hu : s.activity.due + s.activity.period = u := (nextTick?_eq_some_iff.1 hu).2.2
          omega
        obtain ⟨es, log, hrun⟩ := ih (s := ({ s with clock := s.activity.due } : Scene δ).ticked) hperiod ht hnext
        exact ⟨_, _, run?_append (run?_single hwait) (run?_append (run?_single htick) hrun)⟩
      · simp only [if_neg ht]
        have hwait := wait_to hle fun due hd => by rw [hn] at hd; cases hd; omega
        exact ⟨_, _, run?_single hwait⟩

/-- Letting time pass up to an instant is a run. -/
theorem elapse_eq_run {horizon : Nat} {s : Scene δ} (hperiod : 0 < s.activity.period) (hle : s.clock ≤ horizon)
    (hdue : ∀ t, s.activity.nextTick? = some t → s.clock ≤ t) :
    ∃ es log, s.run? es = some (⟨(s.activity.elapse horizon s.device s.queue).1,
      (s.activity.elapse horizon s.device s.queue).2.1, (s.activity.elapse horizon s.device s.queue).2.2, horizon⟩, log) := by
  refine elapseWithin_eq_run hperiod hle fun t ht => ⟨hdue t ht, ?_⟩
  have := (nextTick?_eq_some_iff.1 ht).2.2
  omega

end Scene

end Peripheral.Activity
