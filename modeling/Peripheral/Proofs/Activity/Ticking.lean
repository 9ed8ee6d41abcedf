import Peripheral.Proofs.Activity.Run
import Peripheral.Proofs.Server.Step

/-!
# What an activity does to its device

An activity does nothing to its device but tick it, with one generator from the seed on (`ticked_directly`). It leaves the device
alone while it is paused (`paused_run`) and once it has ended (`not_tick_of_ended`), two ticks lie at least one interval apart
(`Apart`), and none is missed (`IsPunctual`). The interrupts that a tick raises are offered to the queue in turn. All of this is
put together in `ticks_faithfully`.
-/

namespace Peripheral.Activity

/-- What an order to pause or to go on sets. -/
def Event.setting? {δ : Type} : Event δ → Option Bool
  | .obey (.pause on) => some on
  | _ => none

/-- The latest of the orders to pause or to go on. -/
def latestSetting? {δ : Type} (es : List (Event δ)) : Option Bool := (es.filterMap Event.setting?).getLast?

/-- The interrupts of a tick. -/
def Note.ids? : Note → Option (List UInt32)
  | ticked _ ids => some ids
  | _ => none

namespace Scene

variable {δ : Type} [Service δ]

/-- The interrupts that a tick raises now. -/
def ids (s : Scene δ) : List UInt32 := (Service.tick s.device s.activity.rng).1

/-- The ticks of a run, made by hand with a generator of one's own: the interrupts of each, and the device and the generator
afterwards. -/
def direct (device : δ) (rng : Rng) : List (Event δ) → List (List UInt32) × δ × Rng
  | [] => ([], device, rng)
  | .tick :: rest =>
    let (ids, device, rng) := Service.tick device rng
    let (more, last) := direct device rng rest
    (ids :: more, last)
  | .touch device :: rest => direct device rng rest
  | _ :: rest => direct device rng rest

/-- The device, the generator and the interrupts of a run are those of ticks made by hand. -/
theorem ticked_directly {s s' : Scene δ} {es : List (Event δ)} {log : List Note} (hr : s.run? es = some (s', log)) :
    direct s.device s.activity.rng es = (log.filterMap Note.ids?, s'.device, s'.activity.rng) := by
  induction es generalizing s log with
  | nil =>
    cases hr
    rfl
  | cons e rest ih =>
    obtain ⟨s₁, more, he, hrest, rfl⟩ := run?_cons_eq_some hr
    have hlater := ih hrest
    cases e with
    | wait ms =>
      obtain ⟨-, heq⟩ := Option.ite_none_right_eq_some.1 he
      cases heq
      exact hlater
    | tick =>
      obtain ⟨-, heq⟩ := Option.ite_none_right_eq_some.1 he
      cases heq
      have hfirst : direct s.device s.activity.rng (.tick :: rest) =
          (s.ids :: (direct s.ticked.device s.ticked.activity.rng rest).1,
            (direct s.ticked.device s.ticked.activity.rng rest).2) := rfl
      rw [hfirst, hlater]
      rfl
    | obey order =>
      obtain ⟨-, heq⟩ := Option.ite_none_left_eq_some.1 he
      cases heq
      match order with
      | .pause true | .pause false | .shutdown => exact hlater
    | abandon | touch | serve =>
      cases he
      exact hlater

/-! ## Pauses and the end -/

omit [Service δ] in
/-- The latest setting is the one of the later events, if they set anything. -/
theorem latestSetting?_cons (e : Event δ) (es : List (Event δ)) :
    latestSetting? (e :: es) = (latestSetting? es).or e.setting? := by
  unfold latestSetting?
  cases h : e.setting? with
  | none => simp [h]
  | some on => simp [h, List.getLast?_cons]

/-- The activity is paused as the latest order says. -/
theorem paused_run {s s' : Scene δ} {es : List (Event δ)} {log : List Note} (hr : s.run? es = some (s', log)) :
    s'.activity.paused = (latestSetting? es).getD s.activity.paused := by
  induction es generalizing s log with
  | nil =>
    cases hr
    rfl
  | cons e rest ih =>
    obtain ⟨s₁, more, he, hrest, rfl⟩ := run?_cons_eq_some hr
    have hstep : s₁.activity.paused = e.setting?.getD s.activity.paused := by
      rw [activity_after? he]
      match e with
      | .obey (.pause true) | .obey (.pause false) | .obey .shutdown => rfl
      | .wait _ | .tick | .abandon | .touch _ | .serve _ => rfl
    rw [ih hrest, latestSetting?_cons, hstep]
    cases latestSetting? rest <;> rfl

/-- An activity that has ended stays so. -/
theorem ended_after? {s s' : Scene δ} {e : Event δ} (he : s.after? e = some s') (hended : s.activity.ended = true) :
    s'.activity.ended = true := by
  rw [activity_after? he]
  match e with
  | .tick =>
    have hgoes := (nextTick_of_tick he).1
    rw [hended] at hgoes
    nomatch hgoes
  | .obey (.pause true) | .obey (.pause false) => exact hended
  | .obey .shutdown | .abandon => rfl
  | .wait _ | .touch _ | .serve _ => exact hended

/-- An activity that has ended makes no tick any more. -/
theorem not_tick_of_ended {s s' : Scene δ} {es after : List (Event δ)} {log : List Note} (hended : s.activity.ended = true)
    (hr : s.run? (es ++ .tick :: after) = some (s', log)) : False := by
  induction es generalizing s log with
  | nil =>
    obtain ⟨s₁, more, he, -, -⟩ := run?_cons_eq_some hr
    have hgoes := (nextTick_of_tick he).1
    rw [hended] at hgoes
    nomatch hgoes
  | cons e rest ih =>
    obtain ⟨s₁, more, he, hrest, -⟩ := run?_cons_eq_some hr
    exact ih (ended_after? he hended) hrest

/-- An event that ends the activity is the last one before which there are ticks. -/
theorem not_mem_of_ends {s s' : Scene δ} {e : Event δ} {before after : List (Event δ)} {log : List Note}
    (hends : ∀ a : Scene δ, (a.activityAfter e).ended = true) (hr : s.run? (before ++ .tick :: after) = some (s', log)) :
    e ∉ before := by
  intro hmem
  obtain ⟨past, between, rfl⟩ := List.append_of_mem hmem
  rw [List.append_assoc] at hr
  obtain ⟨s₁, log₁, log₂, -, hlater, -⟩ := run?_append_eq_some hr
  obtain ⟨s₂, more, he, hrest, -⟩ := run?_cons_eq_some hlater
  have hended : s₂.activity.ended = true := by
    rw [activity_after? he]
    exact hends s₁
  exact not_tick_of_ended hended hrest

omit [Service δ] in
/-- Nothing is put into a queue that is closed. -/
theorem forward_of_closed {q : IrqQueue} (hq : q.isOpen = false) (id : UInt32) (rest : List UInt32) :
    forward q (id :: rest) = (false, q) := by
  simp [forward, IrqQueue.offer, hq]

/-- An activity that raises an interrupt while nobody is there to take it has ended. -/
theorem ended_of_unheard {s : Scene δ} (hclosed : s.queue.isOpen = false) (hids : s.ids ≠ []) :
    s.ticked.activity.ended = true := by
  have hended : s.ticked.activity.ended = !(forward s.queue s.ids).1 := rfl
  obtain ⟨id, rest, heq⟩ := List.exists_cons_of_ne_nil hids
  rw [hended, heq, forward_of_closed hclosed]
  rfl

/-! ## The distance between ticks -/

/-- The ticks so far lie a period apart from each other and from the next one. -/
structure Apart (period : Nat) (s : Scene δ) (log : List Note) : Prop where
  period_eq : s.activity.period = period
  past : ∀ t ∈ log.filterMap Note.tick?, t ≤ s.clock ∧ t + period ≤ s.activity.due
  pairwise : (log.filterMap Note.tick?).Pairwise fun t u => t + period ≤ u

omit [Service δ] in
/-- What leaves no tick behind and moves neither the clock nor the next tick back keeps the ticks apart. -/
theorem Apart.still {period : Nat} {s s' : Scene δ} {log more : List Note} (h : Apart period s log)
    (hmore : more.filterMap Note.tick? = []) (hperiod : s'.activity.period = s.activity.period) (hclock : s.clock ≤ s'.clock)
    (hdue : s'.activity.due = s.activity.due ∨ s'.activity.due = s.clock + s.activity.period) :
    Apart period s' (log ++ more) := by
  have hticks : (log ++ more).filterMap Note.tick? = log.filterMap Note.tick? := by
    rw [List.filterMap_append, hmore, List.append_nil]
  refine ⟨hperiod.trans h.period_eq, ?_, hticks ▸ h.pairwise⟩
  intro t ht
  rw [hticks] at ht
  obtain ⟨hnow, hnext⟩ := h.past t ht
  have hsame := h.period_eq
  omega

/-- Ticks stay apart, whatever happens next. -/
theorem Apart.after? {period : Nat} {s s' : Scene δ} {e : Event δ} {log : List Note} (h : Apart period s log)
    (he : s.after? e = some s') : Apart period s' (log ++ s.notes e) := by
  have hactivity := activity_after? he
  have hclock := clock_le_after? he
  match e with
  | .tick =>
    obtain ⟨-, -, hdue⟩ := nextTick_of_tick he
    have hticks : (log ++ s.notes .tick).filterMap Note.tick? = log.filterMap Note.tick? ++ [s.clock] := by
      rw [List.filterMap_append]
      rfl
    have hnext : s'.activity.due = s.activity.due + s.activity.period := by
      rw [hactivity]
      rfl
    have hsame := h.period_eq
    refine ⟨hactivity ▸ h.period_eq, ?_, ?_⟩
    · intro t ht
      rw [hticks] at ht
      rcases List.mem_append.1 ht with ht | ht
      · have := h.past t ht
        omega
      · have := List.mem_singleton.1 ht
        omega
    · rw [hticks]
      refine List.pairwise_append.2 ⟨h.pairwise, List.pairwise_singleton _ _, ?_⟩
      intro t ht u hu
      have := h.past t ht
      have := List.mem_singleton.1 hu
      omega
  | .obey (.pause false) => exact h.still rfl (by rw [hactivity]; rfl) hclock (Or.inr (by rw [hactivity]; rfl))
  | .obey (.pause true) | .obey .shutdown | .wait _ | .abandon | .touch _ | .serve _ =>
    exact h.still rfl (by rw [hactivity]; rfl) hclock (Or.inl (by rw [hactivity]; rfl))

/-- In every run from the start ticks are apart by at least a period. -/
theorem apart_run {c : ActivityConfig} {device : δ} {queue : IrqQueue} {begun : Nat} {es : List (Event δ)}
    {s : Scene δ} {log : List Note} (hr : (start c device queue begun).run? es = some (s, log)) : Apart c.period s log := by
  have hstart : Apart c.period (start c device queue begun) [] := ⟨rfl, nofun, List.Pairwise.nil⟩
  exact run?_induction (fun s e s' log h he => h.after? he) hstart hr

/-! ## No tick is missed -/

/-- The instant of the next tick is still to come. -/
def IsPunctual (s : Scene δ) : Prop := ∀ t, s.activity.nextTick? = some t → s.clock ≤ t

/-- A task that is punctual stays so, whatever happens. -/
theorem isPunctual_after? {s s' : Scene δ} {e : Event δ} (h : s.IsPunctual) (he : s.after? e = some s') : s'.IsPunctual := by
  intro t ht
  match e with
  | .wait ms =>
    obtain ⟨hall, heq⟩ := Option.ite_none_right_eq_some.1 he
    cases heq
    have hnext : s.activity.nextTick? = some t := ht
    simpa [hnext] using hall
  | .tick =>
    obtain ⟨-, -, hdue⟩ := nextTick_of_tick he
    obtain ⟨-, heq⟩ := Option.ite_none_right_eq_some.1 he
    cases heq
    have hnext : s.activity.due + s.activity.period = t := (nextTick?_eq_some_iff.1 ht).2.2
    show s.clock ≤ t
    omega
  | .obey order =>
    obtain ⟨-, heq⟩ := Option.ite_none_left_eq_some.1 he
    cases heq
    match order with
    | .pause false =>
      have hnext : s.clock + s.activity.period = t := (nextTick?_eq_some_iff.1 ht).2.2
      show s.clock ≤ t
      omega
    | .pause true => nomatch (nextTick?_eq_some_iff.1 ht).2.1
    | .shutdown => nomatch (nextTick?_eq_some_iff.1 ht).1
  | .abandon =>
    cases he
    nomatch (nextTick?_eq_some_iff.1 ht).1
  | .touch _ | .serve _ =>
    cases he
    exact h t ht

/-- In every run from the start the task is punctual. -/
theorem isPunctual_run {c : ActivityConfig} {device : δ} {queue : IrqQueue} {begun : Nat} {es : List (Event δ)}
    {s : Scene δ} {log : List Note} (hr : (start c device queue begun).run? es = some (s, log)) : s.IsPunctual := by
  have hstart : (start c device queue begun).IsPunctual := by
    intro t ht
    have hnext : begun + c.startupDelay.toNat = t := (nextTick?_eq_some_iff.1 ht).2.2
    exact hnext ▸ Nat.le_add_right _ _
  exact @run?_induction δ _ (fun s _ => s.IsPunctual) _ _ _ [] log (fun _ _ _ _ h he => isPunctual_after? h he) hstart hr

/-! ## Faithful ticking -/

/-- What a run of an activity with a seed does to the device and to the queue. -/
structure TicksFaithfully (interval seed : UInt64) (first : Scene δ) (es : List (Event δ)) (s : Scene δ) (log : List Note) :
    Prop where
  /-- There is no tick while the latest order was to pause. -/
  awake : ∀ before after, es = before ++ .tick :: after → latestSetting? before ≠ some true
  /-- There is no tick after an order to shut down, nor after the last one who could give orders has gone. -/
  alive : ∀ before after, es = before ++ .tick :: after → .obey .shutdown ∉ before ∧ .abandon ∉ before
  /-- There is no tick after one whose interrupts nobody was there to take. -/
  heard : ∀ before between after s₁ log₁, es = before ++ .tick :: (between ++ .tick :: after) →
    first.run? before = some (s₁, log₁) → s₁.queue.isOpen = false → s₁.ids = []
  /-- Two ticks are at least one interval apart. -/
  apart : (log.filterMap Note.tick?).Pairwise fun t u => t + max interval.toNat 1 ≤ u
  /-- No tick is missed: time does not pass the instant of the next one. -/
  punctual : s.IsPunctual
  /-- The device and the interrupts are those of ticks made by hand, with one generator from the seed on. -/
  direct : Scene.direct first.device (.ofSeed seed) es = (log.filterMap Note.ids?, s.device, s.activity.rng)
  /-- The interrupts of a tick are offered to the queue in turn, and only one that finds it full is lost. -/
  offered : ∀ before after s₁ log₁, es = before ++ .tick :: after → first.run? before = some (s₁, log₁) →
    s₁.queue.isOpen = true → s₁.queue.waiting.length ≤ s₁.queue.capacity →
    s₁.queue.Offered s₁.ids s₁.ticked.queue (s₁.queue.verdicts s₁.ids)

/-- Whatever happens around it, an activity ticks its device as one would by hand, never while paused or after its end, and
never twice within an interval. -/
theorem ticks_faithfully {interval delay seed : UInt64} {device : δ} {queue : IrqQueue} {begun : Nat}
    {es : List (Event δ)} {s : Scene δ} {log : List Note}
    (hr : (start ⟨interval, delay, some seed⟩ device queue begun).run? es = some (s, log)) :
    TicksFaithfully interval seed (start ⟨interval, delay, some seed⟩ device queue begun) es s log := by
  refine ⟨?_, ?_, ?_, (apart_run hr).pairwise, isPunctual_run hr, ticked_directly hr, ?_⟩
  · intro before after hes hpaused
    subst hes
    obtain ⟨s₁, log₁, log₂, hbefore, hlater, -⟩ := run?_append_eq_some hr
    obtain ⟨s₂, more, he, -, -⟩ := run?_cons_eq_some hlater
    have hgoes := (nextTick_of_tick he).2.1
    rw [paused_run hbefore, hpaused] at hgoes
    nomatch hgoes
  · intro before after hes
    subst hes
    exact ⟨not_mem_of_ends (fun _ => rfl) hr, not_mem_of_ends (fun _ => rfl) hr⟩
  · intro before between after s₁ log₁ hes hbefore hclosed
    subst hes
    refine Decidable.byContradiction fun hids => ?_
    obtain ⟨s₂, log₂, log₃, hsame, hlater, -⟩ := run?_append_eq_some hr
    obtain ⟨rfl, -⟩ := Prod.mk.inj (Option.some.inj (hbefore.symm.trans hsame))
    obtain ⟨s₃, more, he, hrest, -⟩ := run?_cons_eq_some hlater
    have hended : s₃.activity.ended = true := by
      rw [activity_after? he]
      exact ended_of_unheard hclosed hids
    exact not_tick_of_ended hended hrest
  · intro before after s₁ log₁ _ _ hopen hroom
    have hqueue : s₁.ticked.queue = (forward s₁.queue s₁.ids).2 := rfl
    rw [hqueue, Server.forward_eq_offerAll]
    exact IrqQueue.offered_offerAll hopen hroom s₁.ids

/-- A UART that is switched on with interrupts for what it sends, with one byte to send. -/
def sendingUart : Uart := (((Uart.ofConfig default).write 0x40000000 11).2.write 0x40000008 65).2

/-- A run with a pause, a byte written by others between two ticks, and a queue that has room for one interrupt only. -/
def pausedOnce : List (Event Uart) :=
  [.tick, .obey (.pause true), .wait 15, .obey (.pause false), .touch sendingUart, .wait 10, .tick]

/-- Between a pause and the resuming nothing is ticked, and the task raises what the device would raise by itself. -/
theorem ticks_faithfully_pausedOnce :
    ∃ s log, (start ⟨10, 0, some 1⟩ sendingUart (.empty 1) 0).run? pausedOnce = some (s, log) ∧
      (log.filterMap Note.tick?).Pairwise (fun t u => t + 10 ≤ u) ∧ latestSetting? (pausedOnce.take 6) ≠ some true ∧
      Scene.direct sendingUart (.ofSeed 1) pausedOnce = ([[2], [2]], s.device, s.activity.rng) ∧ s.queue.waiting = [2] := by
  obtain ⟨s, log, hr, hids, hqueue⟩ : ∃ s log,
      (start ⟨10, 0, some 1⟩ sendingUart (.empty 1) 0).run? pausedOnce = some (s, log) ∧
        log.filterMap Note.ids? = [[2], [2]] ∧ s.queue.waiting = [2] := ⟨_, _, rfl, rfl, rfl⟩
  have hfaithful := ticks_faithfully hr
  have hdirect := hfaithful.direct
  rw [hids] at hdirect
  exact ⟨s, log, hr, hfaithful.apart, hfaithful.awake (pausedOnce.take 6) [] rfl, hdirect, hqueue⟩

end Scene

end Peripheral.Activity
