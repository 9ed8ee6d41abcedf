import Peripheral.Proofs.Activity.Run

/-!
# The schedule of an activity

The ticks of an activity lie one period apart, counted from the startup delay until an order to go on comes, and from one
period after the latest such order from then on. An order to go on puts the first tick forward to one period after it even
while the startup delay is still running, so the delay binds the first tick only as long as no such order comes
(`startup_delay_cut_short`).
-/

namespace Peripheral.Activity

/-- The instant that the schedule of the ticks starts at, after what was noted of an activity begun at an instant. -/
def origin (c : ActivityConfig) (begun : Nat) (log : List Note) : Nat :=
  match (log.filterMap Note.resumption?).getLast? with
  | none => begun + c.startupDelay.toNat
  | some t => t + c.period

/-- The ticks since the latest order to go on. -/
def ticksSince (log : List Note) : List Nat :=
  (log.reverse.takeWhile (·.resumption?.isNone)).filterMap Note.tick?

/-- The instant of the next tick as scheduled, after what was noted. -/
def scheduled (c : ActivityConfig) (begun : Nat) (log : List Note) : Nat :=
  origin c begun log + (ticksSince log).length * c.period

/-! ## The schedule after one more note -/

/-- An order to go on starts the schedule anew, one period later. -/
theorem scheduled_resumed (c : ActivityConfig) (begun t : Nat) (log : List Note) :
    scheduled c begun (log ++ [.obeyed t (.pause false)]) = t + c.period := by
  simp [scheduled, origin, ticksSince, Note.resumption?]

/-- A tick moves the schedule on by one period. -/
theorem scheduled_ticked (c : ActivityConfig) (begun t : Nat) (ids : List UInt32) (log : List Note) :
    scheduled c begun (log ++ [.ticked t ids]) = scheduled c begun log + c.period := by
  simp [scheduled, origin, ticksSince, Note.resumption?, Note.tick?, Nat.add_mul, Nat.add_assoc]

/-- No other order touches the schedule. -/
theorem scheduled_obeyed (c : ActivityConfig) (begun t : Nat) {order : Order} (log : List Note)
    (ho : order ≠ .pause false) : scheduled c begun (log ++ [.obeyed t order]) = scheduled c begun log := by
  have hnone : (Note.obeyed t order).resumption? = none := by
    cases order with
    | pause on => cases on <;> simp_all [Note.resumption?]
    | shutdown => rfl
  have htick : (Note.obeyed t order).tick? = none := rfl
  simp [scheduled, origin, ticksSince, hnone, htick]

/-! ## What a run keeps to -/

namespace Scene

variable {δ : Type} [Service δ]

/-- The activity keeps to the schedule: its ticks were made when scheduled, and so will be the next one. -/
structure OnSchedule (c : ActivityConfig) (begun : Nat) (s : Scene δ) (log : List Note) : Prop where
  period : s.activity.period = c.period
  next : s.activity.due = scheduled c begun log
  past : ∀ before t ids, before ++ [.ticked t ids] <+: log → t = scheduled c begun before

omit [Service δ] in
/-- Events that leave no note and do not touch the timing keep the schedule. -/
theorem OnSchedule.of_eq {c : ActivityConfig} {begun : Nat} {s s' : Scene δ} {log : List Note}
    (h : OnSchedule c begun s log) (hperiod : s'.activity.period = s.activity.period)
    (hdue : s'.activity.due = s.activity.due) : OnSchedule c begun s' (log ++ []) := by
  rw [List.append_nil]
  exact ⟨hperiod.trans h.period, hdue.trans h.next, h.past⟩

omit [Service δ] in
/-- The ticks among the notes stay on schedule when an order is noted. -/
theorem OnSchedule.past_obeyed {c : ActivityConfig} {begun u : Nat} {s : Scene δ} {log : List Note} {order : Order}
    (h : OnSchedule c begun s log) (before : List Note) (t : Nat) (ids : List UInt32)
    (hp : before ++ [.ticked t ids] <+: log ++ [.obeyed u order]) : t = scheduled c begun before := by
  rcases List.prefix_concat_iff.1 hp with heq | hp
  · simp at heq
  · exact h.past before t ids hp

/-- Every event keeps the activity on schedule. -/
theorem OnSchedule.after? {c : ActivityConfig} {begun : Nat} {s s' : Scene δ} {e : Event δ} {log : List Note}
    (h : OnSchedule c begun s log) (he : s.after? e = some s') : OnSchedule c begun s' (log ++ s.notes e) := by
  have hactivity := activity_after? he
  match e with
  | .tick =>
    obtain ⟨-, -, hdue⟩ := nextTick_of_tick he
    refine ⟨hactivity ▸ h.period, ?_, ?_⟩
    · rw [hactivity, Scene.notes, scheduled_ticked, ← h.next, ← h.period]
      rfl
    · intro before t ids hp
      rcases List.prefix_concat_iff.1 hp with heq | hp
      · obtain ⟨rfl, hnote⟩ := List.append_inj' heq rfl
        cases hnote
        rw [← hdue]
        exact h.next
      · exact h.past before t ids hp
  | .obey (.pause false) =>
    refine ⟨hactivity ▸ h.period, ?_, h.past_obeyed⟩
    rw [hactivity, Scene.notes, scheduled_resumed, ← h.period]
    rfl
  | .obey (.pause true) | .obey .shutdown =>
    refine ⟨hactivity ▸ h.period, ?_, h.past_obeyed⟩
    rw [hactivity]
    exact h.next.trans (scheduled_obeyed _ _ _ _ (by simp)).symm
  | .wait _ | .abandon | .touch _ | .serve _ => exact h.of_eq (by rw [hactivity]; rfl) (by rw [hactivity]; rfl)

/-- After every run the activity is on schedule. -/
theorem onSchedule_run {c : ActivityConfig} {device : δ} {queue : IrqQueue} {begun : Nat} {es : List (Event δ)}
    {s : Scene δ} {log : List Note} (hr : (start c device queue begun).run? es = some (s, log)) :
    OnSchedule c begun s log := by
  have hstart : OnSchedule c begun (start c device queue begun) [] := by
    refine ⟨rfl, ?_, ?_⟩
    · simp [start, Activity.start, scheduled, origin, ticksSince]
    · intro before t ids hp
      simp at hp
  exact run?_induction (fun s e s' log h he => h.after? he) hstart hr

/-- A tick is made a whole number of periods after the startup delay if no order to go on came before it, and a whole number
of periods, at least one, after the latest such order otherwise; the number is that of the ticks in between. -/
theorem tick_on_schedule {c : ActivityConfig} {device : δ} {queue : IrqQueue} {begun : Nat} {es : List (Event δ)}
    {s : Scene δ} {log before after : List Note} {t : Nat} {ids : List UInt32}
    (hr : (start c device queue begun).run? es = some (s, log)) (hlog : log = before ++ .ticked t ids :: after) :
    t = origin c begun before + (ticksSince before).length * c.period := by
  have hp : before ++ [.ticked t ids] <+: log := ⟨after, by rw [hlog]; simp⟩
  exact (onSchedule_run hr).past before t ids hp

/-- A device that has registers and no life of its own. -/
private def idle : RegisterFile := .empty 1

/-- The first tick comes after the delay; the next one a period after the activity was told to go on again. -/
theorem tick_on_schedule_resumed :
    ∃ s log, (start ⟨10, 30, some 1⟩ idle (.empty 64) 0).run?
        [.wait 30, .tick, .obey (.pause true), .wait 15, .obey (.pause false), .wait 10, .tick] = some (s, log) ∧
      log = [.ticked 30 [], .obeyed 30 (.pause true), .obeyed 45 (.pause false)] ++ .ticked 55 [] :: [] ∧
      55 = origin ⟨10, 30, some 1⟩ 0 [.ticked 30 [], .obeyed 30 (.pause true), .obeyed 45 (.pause false)] + 0 * 10 := by
  refine ⟨_, _, rfl, rfl, ?_⟩
  have hr : (start ⟨10, 30, some 1⟩ idle (.empty 64) 0).run?
      [.wait 30, .tick, .obey (.pause true), .wait 15, .obey (.pause false), .wait 10, .tick] =
        some (_, [.ticked 30 [], .obeyed 30 (.pause true), .obeyed 45 (.pause false), .ticked 55 []]) := rfl
  exact tick_on_schedule hr rfl

/-- The startup delay does not hold the first tick back: an activity that is paused and told to go on during the delay
ticks one period later. -/
theorem startup_delay_cut_short :
    ¬ ∀ (c : ActivityConfig) (device : RegisterFile) (queue : IrqQueue) (begun : Nat) (es : List (Event RegisterFile))
        (s : Scene RegisterFile) (log : List Note), (start c device queue begun).run? es = some (s, log) →
        ∀ t ∈ log.filterMap Note.tick?, begun + c.startupDelay.toNat ≤ t := by
  intro h
  have := h ⟨10, 1000, some 1⟩ idle (.empty 64) 0 [.obey (.pause true), .obey (.pause false), .wait 10, .tick] _
    [.obeyed 0 (.pause true), .obeyed 0 (.pause false), .ticked 10 []] rfl 10 (by decide)
  exact absurd this (by decide)

end Scene

end Peripheral.Activity
