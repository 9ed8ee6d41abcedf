import Peripheral.Proofs.Disk.Sockets
import Peripheral.Proofs.Server.Lifecycle

/-!
# How a server stands with its owner

Somebody starts a server once and later stops it or lets go of it. In between the server is on its way up, is up, could not
start, or is on its way down, and what goes on without its owner takes it from one standing to the next but never back
(`Rising.step`, `Up.step`, `Sinking.step`, `Down.step`). The socket is made on the way up and removed by the last step on the
way down, and a server changes the disk in no other way than by removing its own path (`SocketStep`).
-/

namespace Peripheral.Server

variable {δ : Type} [Service δ] {s s' : Server δ} {d d' : Disk} {e : Event} {f : IoFault}

/-- Whether an event is not up to the owner of a server: its tasks go on, clients act, time passes, or the device ticks. -/
def Event.isRoutine : Event → Bool
  | .move _ | .arrive _ _ | .client _ _ | .wait _ | .tick _ => true
  | _ => false

/-! ## Servers that are used as they should be -/

/-- What is known of a server that nobody has let go of, after any run. -/
def Sound (s : Server δ) : Prop :=
  ∃ (device : δ) (patience : Nat) (past : List Hub.Event) (notes : List Note) (offers : List UInt32) (log : List Mark),
    Relaying device patience s false past notes offers log ∧ s.Kept s.config

/-- A server is sound when it is created. -/
theorem sound_create (number : Nat) (config : ServerConfig) (device : δ) : (create number config device).Sound :=
  ⟨_, _, _, _, _, _, relaying_create number config device, rfl, inPhase_create number config device,
    attended_create number config device⟩

/-- A sound server is in the phase that fits it. -/
theorem Sound.inPhase (h : s.Sound) : s.InPhase := by
  obtain ⟨_, _, _, _, _, _, -, hk⟩ := h
  exact hk.inPhase

/-- A server stays sound as long as nobody lets go of it. -/
theorem Sound.step (h : s.Sound) (hcap : s.config.capacity ≤ maxPermits) (hp : s.permits false e = true)
    (hkept : e.isDiscard = false) (he : s.after? d e = some (s', d')) : s'.Sound := by
  obtain ⟨device, patience, past, notes, offers, log, hr, hk⟩ := h
  obtain ⟨new, hr'⟩ := hr.step hp he
  rw [hkept] at hr'
  have hk' := hk.step hr hcap hp hkept he
  exact ⟨_, _, _, _, _, _, hr', (course_after? he).config_eq ▸ hk'⟩

/-- A server stays sound, whatever is not up to its owner. -/
theorem Sound.routine (h : s.Sound) (hcap : s.config.capacity ≤ maxPermits) (hroutine : e.isRoutine = true)
    (he : s.after? d e = some (s', d')) : s'.Sound := by
  refine h.step hcap ?_ ?_ he
  · cases e <;> first | rfl | nomatch hroutine
  · cases e <;> first | rfl | nomatch hroutine

/-- Nobody is connected to a server that is neither in a run nor about to begin or end one. -/
theorem Sound.stopped (h : s.Sound) (hidle : s.call = .idle) (hengaged : s.engaged = false) :
    s.phase = .stopped ∧ s.hub.members = [] := by
  have hphase := h.inPhase.stopped_of_idle hidle hengaged
  exact ⟨hphase, (h.inPhase.quiet (Or.inl hphase)).2⟩

/-! ## Standings -/

/-- The first start goes on. -/
structure Rising (s : Server δ) : Prop where
  sound : s.Sound
  engaged_eq : s.engaged = false
  runs_eq : s.runs = 0
  failure?_eq : s.failure? = none
  call_eq : s.call = .preparing ∨ s.call = .binding

/-- The server was started, and nobody has asked it to stop. -/
structure Up (s : Server δ) : Prop where
  sound : s.Sound
  engaged_eq : s.engaged = true
  runs_pos : 0 < s.runs
  failure?_eq : s.failure? = none
  call_eq : s.call = .idle

omit [Service δ] in
/-- The first start has found no socket. -/
structure Failed (s : Server δ) : Prop where
  engaged_eq : s.engaged = false
  runs_eq : s.runs = 0
  failure?_eq : ∃ f, s.failure? = some (.unbindable s.config.socketPath f)
  call_eq : s.call = .idle

/-- A stop goes on. -/
structure Sinking (s : Server δ) : Prop where
  sound : s.Sound
  engaged_eq : s.engaged = false
  runs_pos : 0 < s.runs
  failure?_eq : s.failure? = none
  stops : s.call.stops = true

/-- The server was stopped. -/
structure Down (s : Server δ) : Prop where
  sound : s.Sound
  engaged_eq : s.engaged = false
  runs_pos : 0 < s.runs
  failure?_eq : s.failure? = none
  call_eq : s.call = .idle

omit [Service δ] in
/-- The owner has let go of the server in a run of it. -/
structure Gone (s : Server δ) : Prop where
  engaged_eq : s.engaged = false
  runs_pos : 0 < s.runs
  failure?_eq : s.failure? = none
  call_eq : s.call = .idle

/-- To a server that nobody makes a request to nothing happens that its owner would have to know. -/
theorem idle_step (hidle : s.call = .idle) (hroutine : e.isRoutine = true) (he : s.after? d e = some (s', d')) :
    s'.call = .idle ∧ s'.engaged = s.engaged ∧ s'.runs = s.runs ∧ s'.failure? = s.failure? := by
  cases course_after? he with
  | join hcall | stopped hcall | cleared hcall | prepare hcall | unbound hcall | bound hcall | overload hcall =>
    nomatch hidle.symm.trans hcall
  | restart | ready | stop | discard => nomatch hroutine
  | _ => exact ⟨hidle, rfl, rfl, rfl⟩

/-- A first start goes on, or has led to a run, or has found no socket. -/
theorem Rising.step (h : s.Rising) (hcap : s.config.capacity ≤ maxPermits) (hroutine : e.isRoutine = true)
    (he : s.after? d e = some (s', d')) : s'.Rising ∨ s'.Up ∨ s'.Failed := by
  have hsound := h.sound.routine hcap hroutine he
  cases course_after? he with
  | prepare => exact Or.inl ⟨hsound, h.engaged_eq, h.runs_eq, rfl, Or.inr rfl⟩
  | bound => exact Or.inr (Or.inl ⟨hsound, rfl, Nat.succ_pos _, h.failure?_eq, rfl⟩)
  | unbound => exact Or.inr (Or.inr ⟨h.engaged_eq, h.runs_eq, ⟨_, rfl⟩, rfl⟩)
  | overload _ hmany => exact absurd hcap (Nat.not_le_of_lt hmany)
  | join hcall | stopped hcall | cleared hcall => rcases h.call_eq with hc | hc <;> nomatch hc.symm.trans hcall
  | restart | ready | stop | discard => nomatch hroutine
  | _ => exact Or.inl ⟨hsound, h.engaged_eq, h.runs_eq, h.failure?_eq, h.call_eq⟩

/-- A server that was started stays up as long as nobody asks it to stop. -/
theorem Up.step (h : s.Up) (hcap : s.config.capacity ≤ maxPermits) (hroutine : e.isRoutine = true)
    (he : s.after? d e = some (s', d')) : s'.Up := by
  obtain ⟨hcall, hengaged, hruns, hfailure⟩ := idle_step h.call_eq hroutine he
  exact ⟨h.sound.routine hcap hroutine he, hengaged.trans h.engaged_eq, hruns ▸ h.runs_pos, hfailure.trans h.failure?_eq,
    hcall⟩

/-- A server whose first start has found no socket stays as it is. -/
theorem Failed.step (h : s.Failed) (hroutine : e.isRoutine = true) (he : s.after? d e = some (s', d')) : s'.Failed := by
  obtain ⟨hcall, hengaged, hruns, hfailure⟩ := idle_step h.call_eq hroutine he
  obtain ⟨f, hf⟩ := h.failure?_eq
  refine ⟨hengaged.trans h.engaged_eq, hruns.trans h.runs_eq, ⟨f, ?_⟩, hcall⟩
  rw [hfailure, hf, (course_after? he).config_eq]

/-- A stop goes on, or has come to its end. -/
theorem Sinking.step (h : s.Sinking) (hcap : s.config.capacity ≤ maxPermits) (hroutine : e.isRoutine = true)
    (he : s.after? d e = some (s', d')) : s'.Sinking ∨ s'.Down := by
  have hsound := h.sound.routine hcap hroutine he
  have hstops := h.stops
  cases course_after? he with
  | @join goal _ hcall =>
    rw [hcall] at hstops
    cases goal with
    | stop => exact Or.inl ⟨hsound, h.engaged_eq, h.runs_pos, h.failure?_eq, rfl⟩
    | start => nomatch hstops
  | stopped => exact Or.inr ⟨hsound, h.engaged_eq, h.runs_pos, h.failure?_eq, rfl⟩
  | cleared hcall | prepare hcall | unbound hcall | bound hcall | overload hcall =>
    rw [hcall] at hstops
    nomatch hstops
  | restart | ready | stop | discard => nomatch hroutine
  | _ => exact Or.inl ⟨hsound, h.engaged_eq, h.runs_pos, h.failure?_eq, hstops⟩

/-- A server that was stopped stays down. -/
theorem Down.step (h : s.Down) (hcap : s.config.capacity ≤ maxPermits) (hroutine : e.isRoutine = true)
    (he : s.after? d e = some (s', d')) : s'.Down := by
  obtain ⟨hcall, hengaged, hruns, hfailure⟩ := idle_step h.call_eq hroutine he
  exact ⟨h.sound.routine hcap hroutine he, hengaged.trans h.engaged_eq, hruns ▸ h.runs_pos, hfailure.trans h.failure?_eq,
    hcall⟩

/-- A server that its owner has let go of stays gone. -/
theorem Gone.step (h : s.Gone) (hroutine : e.isRoutine = true) (he : s.after? d e = some (s', d')) : s'.Gone := by
  obtain ⟨hcall, hengaged, hruns, hfailure⟩ := idle_step h.call_eq hroutine he
  exact ⟨hengaged.trans h.engaged_eq, hruns ▸ h.runs_pos, hfailure.trans h.failure?_eq, hcall⟩

/-! ## What the owner does -/

/-- The start of a new server, at whatever instant it comes about. -/
theorem rising_create (number : Nat) (config : ServerConfig) (device : δ) (clock : Nat)
    (hcap : config.capacity ≤ maxPermits) :
    Rising { create number config device with hub := { Hub.start device config.patience with clock }, call := .preparing } := by
  have hwait : (create number config device).after? .empty (.wait clock) =
      some ({ create number config device with hub := { Hub.start device config.patience with clock } }, .empty) := by
    simp only [after?, create, Hub.start, Nat.zero_add]
  have hsound := (sound_create number config device).routine hcap rfl hwait
  have hstart := hsound.step (d := .empty) (e := .start) hcap rfl rfl rfl
  exact ⟨hstart, rfl, rfl, rfl, Or.inl rfl⟩

omit [Service δ] in
/-- What is left of a server whose start has found no socket. -/
def refuse (s : Server δ) (f : IoFault) : Server δ :=
  { s with phase := .stopped, call := .idle, failure? := some (.unbindable s.config.socketPath f) }

/-- A first start that finds no socket has failed. -/
theorem Rising.refuse (h : s.Rising) (f : IoFault) : (s.refuse f).Failed := ⟨h.engaged_eq, h.runs_eq, ⟨f, rfl⟩, rfl⟩

/-- A request to stop a server that is up makes it sink. -/
theorem Up.stop (h : s.Up) (hcap : s.config.capacity ≤ maxPermits) : s.requestStop.Sinking := by
  have hpermits : s.permits false .stop = true := by simp [permits, h.call_eq]
  have hsound : s.requestStop.Sound := h.sound.step (d := .empty) hcap hpermits rfl rfl
  rw [requestStop, if_pos h.engaged_eq] at hsound ⊢
  exact ⟨hsound, rfl, h.runs_pos, h.failure?_eq, rfl⟩

/-- To let go of a server that is up makes it go. -/
theorem Up.discard (h : s.Up) (d : Disk) : (s.discard d).1.Gone := by
  rw [Server.discard, if_pos h.engaged_eq]
  exact ⟨rfl, h.runs_pos, h.failure?_eq, h.call_eq⟩

omit [Service δ] in
/-- To let go of a server that was not started is no matter. -/
theorem Failed.discard_eq (h : s.Failed) (d : Disk) : s.discard d = (s, d) := by
  rw [discard, h.engaged_eq]
  rfl

/-! ## The socket -/

omit [Service δ] in
/-- Whether it is up to a server to remove its socket: a run waits to be cleared up after, or a stop goes on. -/
def holdsSocket (s : Server δ) : Bool := s.engaged || s.call.stops

omit [Service δ] in
/-- A server that is asked for nothing, and has no run to clear up after, has no socket to remove. -/
theorem holdsSocket_eq_false (hidle : s.call = .idle) (hengaged : s.engaged = false) : s.holdsSocket = false := by
  rw [holdsSocket, hengaged, hidle]
  rfl

omit [Service δ] in
/-- What becomes of the disk in a step of a server, and of who has to remove the socket. -/
inductive SocketStep (s : Server δ) (d : Disk) (s' : Server δ) : Disk → Prop
  | kept {d' : Disk} : s'.holdsSocket = s.holdsSocket → s'.runs = s.runs → d.Lessened s.config.socketPath d' →
      SocketStep s d s' d'
  | cleared : s.holdsSocket = true → s'.holdsSocket = false → s'.runs = s.runs →
      SocketStep s d s' (d.remove s.config.socketPath)
  | made {d' : Disk} {l : Listener} : s.call = .binding → s'.holdsSocket = true → s'.runs = s.runs + 1 →
      (d.remove s.config.socketPath).bind s.config.socketPath l = .ok d' → SocketStep s d s' d'

omit [Service δ] in
/-- A step that leaves the disk alone, and the duties of the server, is nothing to the socket. -/
theorem SocketStep.unchanged (hholds : s'.holdsSocket = s.holdsSocket) (hruns : s'.runs = s.runs) : SocketStep s d s' d :=
  .kept hholds hruns (.refl _ d)

omit [Service δ] in
/-- All that a step does to the disk it does at the path of the socket. -/
theorem SocketStep.isLocal (hs : s.SocketStep d s' d') : d.Local s.config.socketPath d' := by
  cases hs with
  | kept _ _ hless => exact hless.isLocal
  | cleared => exact d.local_remove _
  | made _ _ _ hbind => exact (d.local_remove _).trans (Disk.made_of_bind hbind).isLocal

/-- What a step of a server does to the disk, and who has to remove the socket afterwards. -/
theorem socketStep (hcap : s.config.capacity ≤ maxPermits) (hquiet : s.call ≠ .idle → s.engaged = false)
    (hroutine : e.isRoutine = true) (he : s.after? d e = some (s', d')) : SocketStep s d s' d' := by
  have hbusy : ∀ {c : Call}, s.call = c → c ≠ .idle → s.engaged = false := by
    rintro c rfl hne
    exact hquiet hne
  cases course_after? he with
  | @join goal _ hcall =>
    refine .unchanged ?_ rfl
    rw [holdsSocket, holdsSocket, hcall]
    cases goal <;> rfl
  | stopped hcall =>
    have hengaged := hbusy hcall nofun
    refine .cleared ?_ ?_ rfl
    · simp [holdsSocket, hcall, Call.stops]
    · simp [holdsSocket, hengaged, Call.stops]
  | cleared hcall | unbound hcall =>
    refine .kept ?_ rfl (d.lessened_remove _)
    rw [holdsSocket, holdsSocket, hcall]
    rfl
  | prepare hcall =>
    refine .unchanged ?_ rfl
    rw [holdsSocket, holdsSocket, hcall]
    rfl
  | bound hcall _ hbind => exact .made hcall rfl rfl hbind
  | overload _ hmany => exact absurd hcap (Nat.not_le_of_lt hmany)
  | fallen => exact .kept rfl rfl (d.lessened_remove _)
  | close | fail => exact .kept rfl rfl (Disk.lessened_release _ d _)
  | restart | ready | stop | discard | disk => nomatch hroutine
  | _ => exact .unchanged rfl rfl

omit [Service δ] in
/-- What a start that finds no socket does to the disk. -/
theorem socketStep_refuse (hcall : s.call = .binding) (d : Disk) (f : IoFault) :
    SocketStep s d (s.refuse f) (d.remove s.config.socketPath) := by
  refine .kept ?_ rfl (d.lessened_remove _)
  rw [holdsSocket, holdsSocket, hcall]
  rfl

omit [Service δ] in
/-- A request to stop does nothing to the disk. -/
theorem socketStep_requestStop (s : Server δ) (d : Disk) : SocketStep s d s.requestStop d := by
  rw [requestStop]
  by_cases hengaged : s.engaged = true
  · rw [if_pos hengaged]
    refine .unchanged ?_ rfl
    simp [holdsSocket, hengaged, Call.stops]
  · rw [if_neg hengaged]
    exact .unchanged rfl rfl

omit [Service δ] in
/-- What letting go of a server does to the disk. -/
theorem socketStep_discard (hidle : s.call = .idle) (d : Disk) : SocketStep s d (s.discard d).1 (s.discard d).2 := by
  rw [discard]
  by_cases hengaged : s.engaged = true
  · rw [if_pos hengaged]
    refine .cleared ?_ ?_ rfl
    · simp [holdsSocket, hengaged]
    · simp [holdsSocket, hidle, Call.stops]
  · rw [if_neg hengaged]
    exact .unchanged rfl rfl

end Peripheral.Server
