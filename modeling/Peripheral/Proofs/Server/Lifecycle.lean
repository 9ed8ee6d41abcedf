import Peripheral.Proofs.Server.Linear
import Peripheral.Proofs.Server.Requests
import Peripheral.World

/-!
# The life of a server

However often a server is started and stopped, whether its socket can be bound or not, and whatever its clients, its device
and the system do meanwhile, its life is as said (`Lifecycle`): at every moment of every run in which nobody lets go of it
(`lifecycle_kept`). What is left of a run that has ended does nothing to the peers of a later one.
-/

namespace Peripheral.Server

variable {δ : Type} [Service δ] {s s' : Server δ} {d d' : Disk} {e : Event} {gone : Bool} {config : ServerConfig}
  {device : δ} {patience : Nat} {past : List Hub.Event} {notes : List Note} {offers : List UInt32} {log : List Mark}

/-! ## Runs -/

omit [Service δ] in
/-- What holds of a server as long as nobody has let go of it. -/
structure Kept (config : ServerConfig) (s : Server δ) : Prop where
  config_eq : s.config = config
  inPhase : s.InPhase
  attended : s.Attended

/-- What holds of a server that nobody has let go of holds after the next event. -/
theorem Kept.step (hk : s.Kept config) (hr : Relaying device patience s false past notes offers log)
    (hcap : config.capacity ≤ maxPermits) (hp : s.permits false e = true) (hkept : e.isDiscard = false)
    (he : s.after? d e = some (s', d')) : s'.Kept config := by
  have ho := Hub.orderly_run hr.moment
  have hc := course_after? he
  obtain ⟨⟨new, hrun⟩, -⟩ := mirrors_after? ho hr.unused he
  refine ⟨hc.config_eq.trans hk.config_eq, ?_, ?_⟩
  · exact hk.inPhase.step hr.shut (hk.config_eq ▸ hcap) hp hkept hrun hc
  · exact hk.attended.step ho (Hub.exchanging_run hr.moment) (fun hcall => hr.shut (by rw [awaitsRun, hcall])) hrun hc

/-- What every event preserves while nobody lets go of the server holds to the end of a run. -/
theorem Kept.run {events : List Event} {es : List Hub.Event} {P : Server δ → Prop} (hk : s.Kept config)
    (hr : Relaying device patience s false past notes offers log) (hcap : config.capacity ≤ maxPermits)
    (hkept : .discard ∉ events) (hrun : s.run? d events = some (s', d', es)) (hu : s.usedInTurn d false events = true)
    (step : ∀ {s s' : Server δ} {d d' : Disk} {e : Event}, s.Kept config → s.Course d e s' d' → P s → P s') (hp : P s) :
    (∃ past' notes' offers' log', Relaying device patience s' false past' notes' offers' log') ∧ s'.Kept config ∧ P s' := by
  have hnone : events.any Event.isDiscard = false := by
    refine List.any_eq_false.2 fun e hin hdiscard => ?_
    cases e <;> first | exact hkept hin | nomatch hdiscard
  obtain ⟨past', notes', offers', log', hr', hall⟩ := Relaying.run_preserves
    (P := fun s _ gone => gone = false → s.Kept config ∧ P s)
    (fun {s s' d d' e gone past notes offers log} hr hall hpermits he hgone => by
      obtain ⟨rfl, hdiscard⟩ := Bool.or_eq_false_iff.1 hgone
      obtain ⟨hk, hp⟩ := hall rfl
      exact ⟨hk.step hr hcap hpermits hdiscard he, step hk (course_after? he) hp⟩)
    hr (fun _ => ⟨hk, hp⟩) hrun hu
  rw [Bool.false_or, hnone] at hr' hall
  exact ⟨⟨past', notes', offers', log', hr'⟩, hall rfl⟩

/-- A server that is stopped has no peers until a run has begun. -/
theorem Kept.remains {events : List Event} {es : List Hub.Event} (hk : s.Kept config)
    (hr : Relaying device patience s false past notes offers log) (hcap : config.capacity ≤ maxPermits)
    (hphase : s.phase = .stopped) (hkept : .discard ∉ events) (hrun : s.run? d events = some (s', d', es))
    (hu : s.usedInTurn d false events = true) (hruns : s'.runs = s.runs) : s'.hub.members = [] := by
  obtain ⟨-, hk', hq⟩ := hk.run hr hcap hkept hrun hu
    (P := fun s' => (s'.phase = .stopped ∨ s'.phase = .starting) ∧ s'.runs = s.runs ∨ s.runs < s'.runs)
    (fun {s₁ s₂ d₁ d₂ e} hk hc hq => by
      rcases hq with ⟨hq, hruns⟩ | hlt
      · have hremains := hk.inPhase.remains (hk.config_eq ▸ hcap) hc hq
        rw [hruns] at hremains
        exact hremains
      · exact Or.inr (Nat.lt_of_lt_of_le hlt hc.runs_le))
    (Or.inl ⟨Or.inl hphase, rfl⟩)
  rcases hq with ⟨hq, -⟩ | hlt
  · exact (hk'.inPhase.quiet hq).2
  · exact absurd hruns (Nat.ne_of_gt hlt)

/-- In every run from a stop on there is a moment at which everything is done, unless the stop still goes on. -/
theorem Kept.halts {events : List Event} {es : List Hub.Event} (hk : s.Kept config)
    (hr : Relaying device patience s false past notes offers log) (hcap : config.capacity ≤ maxPermits)
    (hs : s.call.stops = true) (hkept : .discard ∉ events) (hrun : s.run? d events = some (s', d', es))
    (hu : s.usedInTurn d false events = true) :
    s'.call.stops = true ∨ ∃ before after s₁ d₁ es₁, events = before ++ after ∧ s.run? d before = some (s₁, d₁, es₁) ∧
      s₁.Halted config.socketPath d₁ := by
  induction events generalizing s d past notes offers log es with
  | nil =>
    cases hrun
    exact Or.inl hs
  | cons e rest ih =>
    obtain ⟨s₁, d₁, es', he, hrest, rfl⟩ := run?_cons_eq_some hrun
    rw [List.mem_cons, not_or] at hkept
    rw [usedInTurn, he] at hu
    obtain ⟨hpermits, hu⟩ := Bool.and_eq_true_iff.1 hu
    have hdiscard : e.isDiscard = false := by
      cases e <;> first | rfl | exact absurd rfl hkept.1
    obtain ⟨new, hr₁⟩ := hr.step hpermits he
    rw [hdiscard] at hr₁ hu
    have hk₁ := hk.step hr hcap hpermits hdiscard he
    rcases hk.inPhase.stop_lasts hr.shut hpermits (course_after? he) hs with hs₁ | hhalted
    · rcases ih hk₁ hr₁ hs₁ hkept.2 hrest hu with hlast | ⟨before, after, s₃, d₃, es₃, rfl, hbefore, hhalted⟩
      · exact Or.inl hlast
      · exact Or.inr ⟨e :: before, after, s₃, d₃, _, rfl, run?_cons he hbefore, hhalted⟩
    · exact Or.inr ⟨[e], rest, s₁, d₁, _, rfl, run?_cons he rfl, hk.config_eq ▸ hhalted⟩

/-! ## Tasks of earlier runs -/

omit [Service δ] in
/-- A task works for a peer in a run: its handler, or the errand that dismisses it since its handler has broken down. -/
def WorksFor (s : Server δ) (t : Nat) (p : Peer) (run : Nat) : Prop :=
  s.hub.Handles t p run ∨ ∃ a ∈ s.attendants, a.run = run ∧ a.closing? = some t ∧ s.hub.Handles a.handler p run

/-- What works for a peer of one run does nothing to a peer of a later one. -/
theorem WorksFor.elsewhere {t u : Nat} {p q : Peer} {run later : Nat} {m : Hub.Move} {h : Hub δ} (hw : s.WorksFor t p run)
    (ha : s.Attended) (ho : s.hub.Orderly log) (hx : s.hub.Exchanging log) (hq : s.hub.Handles u q later) (hlt : run < later)
    (ht : m.task = t) (hm : s.hub.move? m = some h) :
    h.links[q]? = s.hub.links[q]? ∧ (q ∈ h.members ↔ q ∈ s.hub.members) := by
  subst ht
  rcases hw with hp | ⟨a, hin, -, hc, hp⟩
  · exact Hub.elsewhere_move hx (Or.inl ⟨run, hp⟩) hm (hp.ne ho hq hlt)
  · obtain ⟨-, p', hp', hd⟩ := ha.dismisses a hin _ hc
    rw [← (hp.eq hp').1] at hd
    exact Hub.elsewhere_move hx (Or.inr hd) hm (hp.ne ho hq hlt)

/-! ## The whole life -/

/-- What the life of a server is like. -/
structure Lifecycle (config : ServerConfig) (s : Server δ) (log : List Mark) : Prop where
  /-- Whatever happens next, the phase stays as it is or goes one of its few ways. -/
  leads : ∀ d e s' d', s.after? d e = some (s', d') → s'.phase = s.phase ∨ s.phase.leadsTo s'.phase = true
  /-- When the server is stopped nobody is connected. -/
  empty : s.phase = .stopped → s.hub.members = []
  /-- When it is stopped nobody comes in until a run has begun. -/
  remains : s.phase = .stopped → ∀ d events s' d' es, s.run? d events = some (s', d', es) →
    s.usedInTurn d false events = true → .discard ∉ events → s'.runs = s.runs → s'.hub.members = []
  /-- No run begins unless somebody starts the server. -/
  runs_eq : s.call.starts = false → ∀ d events s' d' es, s.run? d events = some (s', d', es) → .start ∉ events →
    s'.runs = s.runs
  /-- A start is refused exactly when there is a run and the server is not stopped. -/
  refused : ∀ e, s.requestStart = .error e ↔ e = .alreadyRunning ∧ s.engaged = true ∧ s.phase ≠ .stopped
  /-- Where a start is refused nothing changes. -/
  unchanged : s.engaged = true → s.phase ≠ .stopped → ∀ (w : World δ) i, w.server? i = some s →
    w.startServer i = (.error .alreadyRunning, w)
  /-- A start that is not refused can only fail because there is no socket to be had. -/
  failure : ∀ e, s.failure? = some e → ∃ f, e = .unbindable config.socketPath f
  /-- A start that finds no socket leaves the server stopped. -/
  unbound : s.call = .binding → ∀ d order f,
    (d.remove config.socketPath).bind config.socketPath s.listener = .error f →
    ∃ s', s.after? d (.move (.caller order)) = some (s', d.remove config.socketPath) ∧ s'.phase = .stopped ∧
      s'.call = .idle ∧ s'.engaged = false ∧ s'.failure? = some (.unbindable config.socketPath f)
  /-- However the server has come to be stopped, it can be started if there is a socket to be had. -/
  startable : s.phase = .stopped → ∀ d d', (d.remove config.socketPath).bind config.socketPath s.listener = .ok d' →
    ∃ events s' es, (∀ e ∈ events, e.isUnaided = true) ∧ s.run? d (.start :: events) = some (s', d', es) ∧ s.Begun s'
  /-- A stop that finds no run changes nothing. -/
  stop_aside : s.engaged = false → s.requestStop = s
  /-- A stop that finds a run goes on until the server is stopped, nobody is connected and the socket is gone. -/
  stops : s.engaged = true → ∀ d events s' d' es, s.run? d (.stop :: events) = some (s', d', es) →
    s.usedInTurn d false (.stop :: events) = true → .discard ∉ events → s'.call.stops = true ∨
    ∃ before after s₁ d₁ es₁, events = before ++ after ∧ s.run? d (.stop :: before) = some (s₁, d₁, es₁) ∧
      s₁.Halted config.socketPath d₁
  /-- Whoever is connected is a peer of the present run. -/
  present : ∀ p ∈ s.hub.members, ∃ t run, s.hub.Handles t p run ∧ run + 1 = s.runs
  /-- The handler of a peer of an earlier run has written nothing to one of a later run. -/
  unwritten : ∀ t p run u q later, s.hub.Handles t p run → s.hub.Handles u q later → run < later → written t q log = []
  /-- What works for a peer of an earlier run does not write to one of a later run, and does not put it out. -/
  elsewhere : ∀ t p run u q later, s.WorksFor t p run → s.hub.Handles u q later → run < later →
    ∀ m h, m.task = t → s.hub.move? m = some h → h.links[q]? = s.hub.links[q]? ∧ (q ∈ h.members ↔ q ∈ s.hub.members)
  /-- Whatever request goes on, the server can bring it to its end without anybody else. -/
  ends : ∀ d, ∃ events s' d' es, (∀ e ∈ events, e.isUnaided = true) ∧ s.run? d events = some (s', d', es) ∧ s'.call = .idle

omit [Service δ] in
/-- A start is refused exactly if there is a run already that was not stopped. -/
theorem requestStart_eq_error {e : StartError} :
    s.requestStart = .error e ↔ e = .alreadyRunning ∧ s.engaged = true ∧ s.phase ≠ .stopped := by
  rw [requestStart]
  by_cases he : s.engaged = true
  · by_cases hp : s.phase = .stopped
    · simp [he, hp]
    · simp [he, hp, eq_comm]
  · simp [he]

/-- From what holds of a server that nobody has let go of follows what its life is like. -/
theorem Kept.life {log' : List Mark} (hk : s.Kept config) (hr : Relaying device patience s false past notes offers log')
    (ho : s.hub.Orderly log) (hx : s.hub.Exchanging log) (hcap : config.capacity ≤ maxPermits) : s.Lifecycle config log := by
  have hcap' : s.config.capacity ≤ maxPermits := hk.config_eq ▸ hcap
  exact {
    leads _ _ _ _ he := hk.inPhase.leads hcap' (course_after? he)
    empty hphase := (hk.inPhase.quiet (Or.inl hphase)).2
    remains hphase _ _ _ _ _ hrun hu hkept := hk.remains hr hcap hphase hkept hrun hu
    runs_eq hs _ _ _ _ _ hrun hno := runs_eq_of_not_start hs hno hrun
    refused _ := requestStart_eq_error
    unchanged he hp w i hw := by
      rw [World.startServer, hw]
      simp only [requestStart_eq_error.2 ⟨rfl, he, hp⟩]
    failure e he := hk.config_eq ▸ hk.inPhase.failure e he
    unbound hcall d order f hbind := by
      rw [← hk.config_eq] at hbind ⊢
      have he : s.after? d (.move (.caller order)) = some (s.bind d) := by
        rw [after?, move?, advanceCall, hcall]
      rw [bind, hbind] at he
      exact ⟨_, he, rfl, rfl, hk.inPhase.engaged_eq_false (by simp [hcall]), rfl⟩
    startable hphase d d' hbind := by
      rw [← hk.config_eq] at hbind
      obtain ⟨s₁, s', hstart, hu, hbegun⟩ := starts hk.inPhase hphase hcap' hbind
      obtain ⟨events, es, howns, hrun⟩ := hu.run
      exact ⟨events, s', _, howns, run?_cons hstart hrun, hbegun⟩
    stop_aside he := by
      rw [requestStop, he]
      rfl
    stops he d events s' d' es hrun hu hkept := by
      obtain ⟨s₁, d₁, es', hstop, hrest, rfl⟩ := run?_cons_eq_some hrun
      rw [usedInTurn, hstop] at hu
      obtain ⟨hpermits, hu⟩ := Bool.and_eq_true_iff.1 hu
      obtain ⟨new, hr₁⟩ := hr.step hpermits hstop
      have hs₁ : s₁.call.stops = true := by
        cases hstop
        rw [requestStop, if_pos he]
        rfl
      rcases (hk.step hr hcap hpermits rfl hstop).halts hr₁ hcap hs₁ hkept hrest hu with
        hlast | ⟨before, after, s₃, d₃, es₃, hevents, hbefore, hhalted⟩
      · exact Or.inl hlast
      · exact Or.inr ⟨before, after, s₃, d₃, _, hevents, run?_cons hstop hbefore, hhalted⟩
    present p hp := by
      obtain ⟨a, ha, hh⟩ := hk.attended.served p hp
      exact ⟨a.handler, a.run, hh, (mem_keepers.1 ha).2⟩
    unwritten t p run u q later hp hq hlt := by
      obtain ⟨stage, ht⟩ := hp
      obtain ⟨l, -, -, helse⟩ := hx _ _ ht
      exact helse q (Hub.Handles.ne ho ⟨stage, ht⟩ hq hlt)
    elsewhere _ _ _ _ _ _ hw hq hlt _ _ := hw.elsewhere hk.attended ho hx hq hlt
    ends d := by
      obtain ⟨s', d', hu, hidle⟩ := request_ends hk.inPhase d
      obtain ⟨events, es, howns, hrun⟩ := hu.run
      exact ⟨events, s', d', es, howns, hrun, hidle⟩ }

/-- At every moment of every run of a server that is used by one at a time and that nobody lets go of, its life is as said, if
as many permits as it is to have can be counted. -/
theorem lifecycle_kept {number : Nat} {config : ServerConfig} {device : δ} {s : Server δ} {d d' : Disk} {events : List Event}
    {es : List Hub.Event} (hr : (create number config device).run? d events = some (s, d', es))
    (hu : (create number config device).usedInTurn d false events = true) (hcap : config.capacity ≤ maxPermits)
    (hkept : .discard ∉ events) :
    ∃ log, (Hub.start device config.patience).run? es = some (s.hub, log) ∧ s.Lifecycle config log := by
  obtain ⟨log, hmoment⟩ := hub_run hr
  have hcreate : (create number config device).Kept config :=
    ⟨rfl, inPhase_create number config device, attended_create number config device⟩
  obtain ⟨⟨past, notes, offers, log', hrelaying⟩, hk, -⟩ :=
    hcreate.run (P := fun _ => True) (relaying_create number config device) hcap hkept hr hu (fun _ _ _ => trivial) trivial
  exact ⟨log, hmoment, hk.life hrelaying (Hub.orderly_run hmoment) (Hub.exchanging_run hmoment) hcap⟩

/-- A server lets a client in, and then accepting another one fails. After all peers were closed the server is started again
and lets a client in, while the handler of the first one still waits for its request; then that handler heeds the end of its
run. -/
def startedAgain : List Event :=
  let step (t : Nat) : Event := .move (.hub (.advance t Frame.size))
  [.start, .move (.caller []), .move (.caller []), .move .gate, .arrive 0 (.fresh 300), .move .gate, .move .gate,
    .move (.gateFails [0]), step 1, step 1, .move .gate, .start, .move .relayHeeds, .move (.caller []), .move (.caller []),
    .move (.caller []), .move (.caller []), .move .gate, .arrive 1 (.fresh 300), .move .gate, .move (.hub (.heed 0))]

/-- When accepting has failed nobody is connected although nobody has asked the server to stop; in the end a start is
refused. -/
theorem lifecycle_kept_startedAgain :
    ∃ s₁ disk₁ es₁ log₁ s disk es log,
      (create 0 twoAtOnce (RegisterFile.empty 1)).run? .empty (startedAgain.take 11) = some (s₁, disk₁, es₁) ∧
      (create 0 twoAtOnce (RegisterFile.empty 1)).run? .empty startedAgain = some (s, disk, es) ∧
      (create 0 twoAtOnce (RegisterFile.empty 1)).usedInTurn .empty false startedAgain = true ∧
      twoAtOnce.capacity ≤ maxPermits ∧ .discard ∉ startedAgain ∧ s₁.Lifecycle twoAtOnce log₁ ∧ s.Lifecycle twoAtOnce log ∧
      s₁.phase = .stopped ∧ s₁.engaged = true ∧ s₁.hub.members = [] ∧ s.hub.members = [1] ∧ s.runs = 2 ∧
      s.requestStart = .error .alreadyRunning := by
  have hfailed : ((create 0 twoAtOnce (RegisterFile.empty 1)).run? .empty (startedAgain.take 11)).map
      (fun x => (x.1.phase, x.1.engaged)) = some (.stopped, true) := by
    decide +kernel
  have hend : ((create 0 twoAtOnce (RegisterFile.empty 1)).run? .empty startedAgain).map
      (fun x => (x.1.phase, x.1.engaged, x.1.hub.members, x.1.runs)) = some (.running, true, [1], 2) := by
    decide +kernel
  have hused₁ : (create 0 twoAtOnce (RegisterFile.empty 1)).usedInTurn .empty false (startedAgain.take 11) = true := by
    decide +kernel
  have hused : (create 0 twoAtOnce (RegisterFile.empty 1)).usedInTurn .empty false startedAgain = true := by
    decide +kernel
  have hcap : twoAtOnce.capacity ≤ maxPermits := by decide
  have hkept : .discard ∉ startedAgain := by simp [startedAgain]
  obtain ⟨⟨s₁, disk₁, es₁⟩, hr₁, heq₁⟩ := Option.map_eq_some_iff.1 hfailed
  obtain ⟨⟨s, disk, es⟩, hr, heq⟩ := Option.map_eq_some_iff.1 hend
  obtain ⟨hphase₁, hengaged₁⟩ := Prod.mk.inj heq₁
  obtain ⟨hphase, hengaged, hmembers, hruns⟩ : s.phase = .running ∧ s.engaged = true ∧ s.hub.members = [1] ∧ s.runs = 2 := by
    simpa using heq
  obtain ⟨log₁, -, hlife₁⟩ := lifecycle_kept hr₁ hused₁ hcap fun hin => hkept (List.mem_of_mem_take hin)
  obtain ⟨log, -, hlife⟩ := lifecycle_kept hr hused hcap hkept
  have hrefused := (hlife.refused _).2 ⟨rfl, hengaged, by simp [hphase]⟩
  exact ⟨s₁, disk₁, es₁, log₁, s, disk, es, log, hr₁, hr, hused, hcap, hkept, hlife₁, hlife, hphase₁, hengaged₁,
    hlife₁.empty hphase₁, hmembers, hruns, hrefused⟩

end Peripheral.Server
