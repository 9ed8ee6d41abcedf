import Peripheral.Proofs.Disk.Removal
import Peripheral.Proofs.Server.Phases

/-!
# Requests come to their end

Whoever waits for a server to start or to stop waits for nobody but the server and for time: it can make the rest of its
moves by itself (`request_ends`). A start of a server that is stopped ends in a new run if the socket can be bound (`starts`),
and a stop lasts until nobody is connected and nothing is left at the path of the socket (`InPhase.stop_lasts`).
-/

namespace Peripheral

/-- Whether a request to start goes on. -/
def Call.starts : Call → Bool
  | .joining .start | .emptying .start _ | .preparing | .binding => true
  | .idle | .joining .stop | .emptying .stop _ => false

/-- Whether a request to stop goes on. -/
def Call.stops : Call → Bool
  | .joining .stop | .emptying .stop _ => true
  | .idle | .joining .start | .emptying .start _ | .preparing | .binding => false

namespace Server

variable {δ : Type} [Service δ] {s s' s'' : Server δ} {d d' d'' : Disk} {e : Event}

/-- What a server does without anybody else, and what time does. -/
def Event.isUnaided : Event → Bool
  | .move (.gateFails _) => false
  | .move _ | .wait _ => true
  | _ => false

/-- The server can come to another state without anybody else. -/
inductive Unaided : Server δ → Disk → Server δ → Disk → Prop
  | refl (s : Server δ) (d : Disk) : Unaided s d s d
  | step {s s' s'' : Server δ} {d d' d'' : Disk} {e : Event} : e.isUnaided = true → s.after? d e = some (s', d') →
      Unaided s' d' s'' d'' → Unaided s d s'' d''

theorem Unaided.single (hown : e.isUnaided = true) (he : s.after? d e = some (s', d')) : Unaided s d s' d' :=
  .step hown he (.refl s' d')

theorem Unaided.trans (hu : Unaided s d s' d') (hmore : Unaided s' d' s'' d'') : Unaided s d s'' d'' := by
  induction hu with
  | refl => exact hmore
  | step hown he _ ih => exact .step hown he (ih hmore)

/-- What the server can come to without anybody else it comes to in a run. -/
theorem Unaided.run (hu : Unaided s d s' d') :
    ∃ events es, (∀ e ∈ events, e.isUnaided = true) ∧ s.run? d events = some (s', d', es) := by
  induction hu with
  | refl => exact ⟨[], [], List.forall_mem_nil _, rfl⟩
  | @step s s₁ s₂ d d₁ d₂ e hown he _ ih =>
    obtain ⟨events, es, howns, hrun⟩ := ih
    exact ⟨e :: events, s.toHub e ++ es, List.forall_mem_cons.2 ⟨hown, howns⟩, run?_cons he hrun⟩

/-- What a server does to pass numbers on it does without anybody. -/
theorem Onward.unaided {notes : List Note} (hon : Onward d s notes s') : Unaided s d s' d := by
  induction hon with
  | refl => exact .refl _ _
  | @step s s₁ s₂ e more hown he _ ih =>
    refine .step ?_ he ih
    cases e with
    | move m => cases m <;> first | rfl | nomatch hown
    | wait => rfl
    | start | stop | discard | arrive | client | trigger | offer | tick | disk => nomatch hown

/-- An errand can come to its end. -/
theorem errand_finishes {t : Nat} (hc : ∃ c, s.hub.tasks[t]? = some (.errand c)) (d : Disk) :
    ∃ hub, Unaided s d { s with hub } d ∧ hub.isFinished t = true ∧ hub.halted = s.hub.halted := by
  obtain ⟨c, hc⟩ := hc
  obtain ⟨hub, c', hon, hend, hfin, hhalted⟩ := errand_ends hc d
  refine ⟨hub, hon.unaided, ?_, hhalted⟩
  rw [Hub.isFinished, hend]
  exact hfin

/-! ## The gate and the relay -/

/-- A gate that was told to end, or at which accepting a client has failed, can come to its end. -/
theorem gate_ends (htold : s.isTold = true) (hfailing : ∀ t, s.gate = .failing t → ∃ c, s.hub.tasks[t]? = some (.errand c))
    (d : Disk) : ∃ hub phase backlog d', Unaided s d { s with hub, phase, backlog, gate := .ended } d' ∧
      hub.halted = s.hub.halted := by
  cases hg : s.gate with
  | seeking | listening =>
    have he : s.after? d (.move .gateHeeds) =
        some ({ s with gate := .ended, backlog := [] }, d.release s.presentListener) := by
      simp [after?, move?, closeGate, htold, hg]
    exact ⟨_, _, _, _, .single rfl he, rfl⟩
  | failing t =>
    obtain ⟨hub, hu, hfin, hhalted⟩ := errand_finishes (hfailing t hg) d
    have he : ({ s with hub } : Server δ).after? d (.move .gate) =
        some ({ s with hub, gate := .ended, phase := .stopped }, d.remove s.config.socketPath) := by
      simp [after?, move?, advanceGate, hg, hfin]
    exact ⟨hub, _, _, _, hu.trans (.single rfl he), hhalted⟩
  | ended =>
    refine ⟨s.hub, s.phase, s.backlog, d, ?_, rfl⟩
    rw [← hg]
    exact .refl s d

/-- A relay that was told to end can end. -/
theorem relay_ends (htold : s.isTold = true) (d : Disk) : ∃ hub, Unaided s d { s with hub, relay := .ended } d := by
  cases hr : s.relay with
  | waiting =>
    have he : s.after? d (.move .relayHeeds) = some ({ s with relay := .ended }, d) := by
      simp [after?, move?, closeRelay, htold, hr]
    exact ⟨s.hub, .single rfl he⟩
  | pushing t =>
    have he : s.after? d (.move .relayHeeds) = some ({ s with relay := .ended, hub := s.hub.cutShort t }, d) := by
      simp [after?, move?, closeRelay, htold, hr]
    exact ⟨_, .single rfl he⟩
  | ended =>
    refine ⟨s.hub, ?_⟩
    rw [← hr]
    exact .refl s d

/-! ## The way of a request -/

/-- Once the gate has ended, the relay can end and the peers be taken out and closed. -/
theorem empties {goal : Goal} (hc : s.call = .joining goal) (htold : s.isTold = true) (hg : s.gate = .ended) (d : Disk) :
    ∃ hub t, Unaided s d { s with hub, relay := .ended, call := .emptying goal t } d ∧
      ∃ c, hub.tasks[t]? = some (.errand c) := by
  obtain ⟨hub, hu⟩ := relay_ends htold d
  have hperm : hub.members.isPerm hub.members = true := List.isPerm_iff.2 (.refl _)
  have he : ({ s with hub, relay := .ended } : Server δ).after? d (.move (.caller hub.members)) =
      some ({ s with
        relay := .ended
        hub := hub.closeAllIn hub.members
        call := .emptying goal hub.tasks.length }, d) := by
    simp [after?, move?, advanceCall, hc, hg, hperm]
  exact ⟨_, _, hu.trans (.single rfl he), _, List.getElem?_concat_length⟩

/-- Once all peers are taken out, a stop can come to its end. -/
theorem stops_of_emptying {t : Nat} (hc : s.call = .emptying .stop t) (ht : ∃ c, s.hub.tasks[t]? = some (.errand c))
    (d : Disk) : ∃ hub, Unaided s d { s with hub, phase := .stopped, call := .idle } (d.remove s.config.socketPath) := by
  obtain ⟨hub, hu, hfin, -⟩ := errand_finishes ht d
  have he : ({ s with hub } : Server δ).after? d (.move (.caller [])) =
      some ({ s with hub, phase := .stopped, call := .idle }, d.remove s.config.socketPath) := by
    simp [after?, move?, advanceCall, hc, hfin]
  exact ⟨hub, hu.trans (.single rfl he)⟩

/-- A start that had to close peers first goes on to clear the way for its socket. -/
theorem prepares_of_emptying {t : Nat} (hc : s.call = .emptying .start t) (ht : ∃ c, s.hub.tasks[t]? = some (.errand c))
    (d : Disk) : ∃ hub, Unaided s d { s with hub, call := .preparing } (d.remove s.config.socketPath) := by
  obtain ⟨hub, hu, hfin, -⟩ := errand_finishes ht d
  have he : ({ s with hub } : Server δ).after? d (.move (.caller [])) =
      some ({ s with hub, call := .preparing }, d.remove s.config.socketPath) := by
    simp [after?, move?, advanceCall, hc, hfin]
  exact ⟨hub, hu.trans (.single rfl he)⟩

/-- The socket is made without anybody. -/
theorem binds_of_binding (hc : s.call = .binding) (d : Disk) : Unaided s d (s.bind d).1 (s.bind d).2 := by
  have he : s.after? d (.move (.caller [])) = some (s.bind d) := by
    rw [after?, move?, advanceCall, hc]
  exact .single rfl he

omit [Service δ] in
/-- A server that is about to make its socket. -/
def poised (s : Server δ) : Server δ := { s with phase := .starting, failure? := none, call := .binding }

/-- A start that has cleared the way goes on to make its socket. -/
theorem poised_of_preparing (hc : s.call = .preparing) (d : Disk) : Unaided s d s.poised d := by
  have he : s.after? d (.move (.caller [])) = some (s.poised, d) := by
    rw [after?, move?, advanceCall, hc, poised]
  exact .single rfl he

omit [Service δ] in
/-- The making of the socket ends the request. -/
theorem bind_call (s : Server δ) (d : Disk) : (s.bind d).1.call = .idle := by
  rw [bind]
  cases (d.remove s.config.socketPath).bind s.config.socketPath s.listener with
  | error f => rfl
  | ok d' =>
    dsimp only
    split <;> rfl

/-- A start that has closed all peers comes to its end. -/
theorem preparing_ends (hc : s.call = .preparing) (d : Disk) : ∃ s' d', Unaided s d s' d' ∧ s'.call = .idle := by
  have hbinds := binds_of_binding (s := s.poised) rfl d
  exact ⟨_, _, (poised_of_preparing hc d).trans hbinds, bind_call _ d⟩

/-- A request that has to close peers comes to its end. -/
theorem emptying_ends {goal : Goal} {t : Nat} (hc : s.call = .emptying goal t)
    (ht : ∃ c, s.hub.tasks[t]? = some (.errand c)) (d : Disk) : ∃ s' d', Unaided s d s' d' ∧ s'.call = .idle := by
  cases goal with
  | stop =>
    obtain ⟨hub, hu⟩ := stops_of_emptying hc ht d
    exact ⟨_, _, hu, rfl⟩
  | start =>
    obtain ⟨hub, hu⟩ := prepares_of_emptying hc ht d
    obtain ⟨s', d', hmore, hidle⟩ :=
      preparing_ends (s := { s with hub, call := .preparing }) rfl (d.remove s.config.socketPath)
    exact ⟨s', d', hu.trans hmore, hidle⟩

/-- A request that goes on can come to its end without anybody else. -/
theorem request_ends (hi : s.InPhase) (d : Disk) : ∃ s' d', Unaided s d s' d' ∧ s'.call = .idle := by
  cases hc : s.call with
  | idle => exact ⟨s, d, .refl s d, hc⟩
  | joining goal =>
    have htold := hi.told goal hc
    obtain ⟨hub, phase, backlog, d₁, hgate, hhalted⟩ := gate_ends htold (fun t ht => (hi.failing t ht).2) d
    have htold₁ : ({ s with hub, phase, backlog, gate := .ended } : Server δ).isTold = true := by
      rw [isTold] at htold ⊢
      rw [hhalted]
      exact htold
    obtain ⟨hub₁, t, hempty, ht⟩ := empties (s := { s with hub, phase, backlog, gate := .ended }) hc htold₁ rfl d₁
    obtain ⟨s', d', hmore, hidle⟩ := emptying_ends (s := { s with
      hub := hub₁, phase, backlog, gate := .ended, relay := .ended, call := .emptying goal t }) rfl ht d₁
    exact ⟨s', d', hgate.trans (hempty.trans hmore), hidle⟩
  | emptying goal t => exact emptying_ends hc (hi.emptying goal t hc) d
  | preparing => exact preparing_ends hc d
  | binding => exact ⟨_, _, binds_of_binding hc d, s.bind_call d⟩

/-! ## Starts -/

omit [Service δ] in
/-- A start has led to a new run. -/
structure Begun (s s' : Server δ) : Prop where
  call_eq : s'.call = .idle
  phase_eq : s'.phase = .running
  engaged_eq : s'.engaged = true
  runs_eq : s'.runs = s.runs + 1
  failure?_eq : s'.failure? = none

/-- A start whose socket can be made leads to a new run. -/
theorem begins_of_preparing (hc : s.call = .preparing) (hcap : s.config.capacity ≤ maxPermits)
    (hbind : (d.remove s.config.socketPath).bind s.config.socketPath s.listener = .ok d') :
    ∃ s', Unaided s d s' d' ∧ s.Begun s' := by
  have he : s.poised.bind d =
      ({ s with
        phase := .running, failure? := none, call := .idle, runs := s.runs + 1, engaged := true, gate := .seeking,
        relay := .waiting }, d') := by
    have hlistener : s.poised.listener = s.listener := rfl
    have hconfig : s.poised.config = s.config := rfl
    rw [bind, hlistener, hconfig, hbind]
    exact if_pos hcap
  have hbinds := binds_of_binding (s := s.poised) rfl d
  rw [he] at hbinds
  exact ⟨_, (poised_of_preparing hc d).trans hbinds, rfl, rfl, rfl, rfl, rfl⟩

/-- A start of a server that is stopped leads to a new run without anybody else, if the socket can be bound. -/
theorem starts (hi : s.InPhase) (hphase : s.phase = .stopped) (hcap : s.config.capacity ≤ maxPermits)
    (hbind : (d.remove s.config.socketPath).bind s.config.socketPath s.listener = .ok d') :
    ∃ s₁ s', s.after? d .start = some (s₁, d) ∧ Unaided s₁ d s' d' ∧ s.Begun s' := by
  cases he : s.engaged with
  | false =>
    have hstart : s.after? d .start = some ({ s with call := .preparing }, d) := by
      simp [after?, requestStart, he, Except.toOption]
    obtain ⟨s', hu, hbegun⟩ := begins_of_preparing (s := { s with call := .preparing }) rfl hcap hbind
    exact ⟨_, s', hstart, hu, hbegun.call_eq, hbegun.phase_eq, hbegun.engaged_eq, hbegun.runs_eq, hbegun.failure?_eq⟩
  | true =>
    have hstart : s.after? d .start =
        some ({ s with engaged := false, hub := s.hub.halt s.runs, call := .joining .start }, d) := by
      simp [after?, requestStart, he, hphase, Except.toOption]
    obtain ⟨hub, t, hempty, ht⟩ := empties (s := { s with
      engaged := false, hub := s.hub.halt s.runs, call := .joining .start }) rfl (decide_eq_true (Nat.le_max_right _ _))
      (hi.quiet (Or.inl hphase)).1 d
    obtain ⟨hub₁, hprep⟩ := prepares_of_emptying (s := { s with
      engaged := false, hub, relay := .ended, call := .emptying .start t }) rfl ht d
    -- What was cleared away need not be cleared away again.
    rw [← d.remove_remove] at hbind
    obtain ⟨s', hu, hbegun⟩ := begins_of_preparing (s := { s with
      engaged := false, hub := hub₁, relay := .ended, call := .preparing }) rfl hcap hbind
    exact ⟨_, s', hstart, hempty.trans (hprep.trans hu), hbegun.call_eq, hbegun.phase_eq, hbegun.engaged_eq,
      hbegun.runs_eq, hbegun.failure?_eq⟩

/-- A run begins only when a socket was bound. -/
theorem Course.runs_eq (hc : s.Course d e s' d') (hne : s.call ≠ .binding) : s'.runs = s.runs := by
  cases hc with
  | bound hcall => exact absurd hcall hne
  | _ => rfl

/-- The count of runs does not go back in the course of a server. -/
theorem Course.runs_le (hc : s.Course d e s' d') : s.runs ≤ s'.runs := by
  cases hc with
  | bound => exact Nat.le_succ _
  | _ => exact Nat.le_refl _

/-- Without a start no request to start comes about. -/
theorem Course.starts_eq (hc : s.Course d e s' d') (hne : e ≠ .start) (hs : s.call.starts = false) :
    s'.call.starts = false := by
  cases hc with
  | @join goal _ hcall =>
    cases goal with
    | stop => rfl
    | start =>
      rw [hcall] at hs
      nomatch hs
  | cleared hcall | prepare hcall =>
    rw [hcall] at hs
    nomatch hs
  | restart | ready => exact absurd rfl hne
  | stopped | unbound | bound | overload | stop => rfl
  | _ => exact hs

/-- Without a start no run begins, unless a request to start goes on already. -/
theorem runs_eq_of_not_start {events : List Event} {es : List Hub.Event} (hs : s.call.starts = false)
    (hno : .start ∉ events) (hrun : s.run? d events = some (s', d', es)) : s'.runs = s.runs := by
  induction events generalizing s d es with
  | nil =>
    cases hrun
    rfl
  | cons e rest ih =>
    obtain ⟨s₁, d₁, es', he, hrest, rfl⟩ := run?_cons_eq_some hrun
    rw [List.mem_cons, not_or] at hno
    have hc := course_after? he
    have hne : s.call ≠ .binding := by
      intro hcall
      rw [hcall] at hs
      nomatch hs
    exact (ih (hc.starts_eq (Ne.symm hno.1) hs) hno.2 hrest).trans (hc.runs_eq hne)

/-- A server that is stopped or starting remains so until a run begins. -/
theorem InPhase.remains (hi : s.InPhase) (hcap : s.config.capacity ≤ maxPermits) (hc : s.Course d e s' d')
    (hq : s.phase = .stopped ∨ s.phase = .starting) :
    (s'.phase = .stopped ∨ s'.phase = .starting) ∧ s'.runs = s.runs ∨ s.runs < s'.runs := by
  cases hc with
  | bound => exact Or.inr (Nat.lt_succ_self _)
  | fallen | stopped | unbound => exact Or.inl ⟨Or.inl rfl, rfl⟩
  | prepare => exact Or.inl ⟨Or.inr rfl, rfl⟩
  | overload _ hmany => exact absurd hcap (Nat.not_le_of_lt hmany)
  | stop he =>
    rcases (hi.idle_of_engaged he).2 with hphase | hphase
    · rw [hphase] at hq
      rcases hq with hq | hq <;> nomatch hq
    · exact Or.inl ⟨Or.inl (if_pos hphase), rfl⟩
  | _ => exact Or.inl ⟨hq, rfl⟩

/-! ## Stops -/

omit [Service δ] in
/-- What a stop leaves behind. -/
structure Halted (path : String) (s : Server δ) (d : Disk) : Prop where
  call_eq : s.call = .idle
  phase_eq : s.phase = .stopped
  engaged_eq : s.engaged = false
  members_nil : s.hub.members = []
  /-- Nothing is left at the path of the socket, but for a directory. -/
  absent : ∀ n, d.find path = .ok n → n = .directory

/-- A stop goes on until everything is done. -/
theorem InPhase.stop_lasts (hi : s.InPhase) (hshut : s.awaitsRun false = true → s.Shut) (hp : s.permits false e = true)
    (hc : s.Course d e s' d') (hs : s.call.stops = true) : s'.call.stops = true ∨ s'.Halted s.config.socketPath d' := by
  have hidle : s.call ≠ .idle := by
    intro hcall
    rw [hcall] at hs
    cases hs
  cases hc with
  | @join goal _ hcall =>
    rw [hcall] at hs
    cases goal with
    | stop => exact Or.inl rfl
    | start => cases hs
  | stopped hcall =>
    refine Or.inr ⟨rfl, rfl, hi.engaged_eq_false hidle, ?_, fun n => d.find_remove _⟩
    exact (hshut (by rw [awaitsRun, hcall])).members_nil
  | cleared hcall | prepare hcall | unbound hcall | bound hcall | overload hcall =>
    rw [hcall] at hs
    cases hs
  | restart he | stop he => exact absurd (hi.idle_of_engaged he).1 hidle
  | ready =>
    obtain ⟨hcall, -⟩ := Bool.and_eq_true_iff.1 hp
    exact absurd (eq_of_beq hcall) hidle
  | _ => exact Or.inl hs

end Server

end Peripheral
