import Peripheral.Proofs.Server.Permits

/-!
# Phases

The phase of a server always fits what it is doing (`InPhase`): a request to start or to stop that is under way, a run that
somebody has to clear up after, a gate at which accepting a client has failed. So the phase takes only a few ways
(`InPhase.leads`), and while the server is stopped or starting its gate has ended and nobody is connected.
-/

namespace Peripheral

/-- The phases that may follow a phase. -/
def Phase.leadsTo : Phase → Phase → Bool
  | stopped, starting | starting, running | starting, stopped | running, stopping | running, stopped
  | stopping, stopped => true
  | _, _ => false

/-- The phases that a server may be in, by how far a request has come, and by whether a run waits to be cleared up after. -/
def Call.fits : Call → Bool → Phase → Bool
  | .idle, true, p => p == .running || p == .stopped
  | .joining .stop, false, p | .emptying .stop _, false, p => p == .stopping || p == .stopped
  | .idle, false, p | .joining .start, false, p | .emptying .start _, false, p | .preparing, false, p => p == .stopped
  | .binding, false, p => p == .starting
  | _, true, _ => false

/-- Whoever has not begun to make a socket may find the server stopped. -/
theorem Call.fits_stopped {c : Call} {engaged : Bool} {p : Phase} (hfits : c.fits engaged p = true) (hp : p ≠ .starting) :
    c.fits engaged .stopped = true := by
  cases c with
  | binding =>
    cases engaged with
    | true => nomatch hfits
    | false => exact absurd (eq_of_beq hfits) hp
  | idle | preparing => cases engaged <;> first | rfl | nomatch hfits
  | joining goal | emptying goal => cases goal <;> cases engaged <;> first | rfl | nomatch hfits

namespace Server

variable {δ : Type} [Service δ] {s s' : Server δ} {d d' : Disk} {e : Event} {new : List Mark}

omit [Service δ] in
/-- The phase of a server fits what it is doing. -/
structure InPhase (s : Server δ) : Prop where
  fits : s.call.fits s.engaged s.phase = true
  /-- While the server is stopped or starting nobody comes in, and nobody is connected. -/
  quiet : s.phase = .stopped ∨ s.phase = .starting → s.gate = .ended ∧ s.hub.members = []
  /-- When accepting a client has failed, an errand closes the peers, who are out already. -/
  failing : ∀ t, s.gate = .failing t → s.hub.members = [] ∧ ∃ c, s.hub.tasks[t]? = some (.errand c)
  emptying : ∀ goal t, s.call = .emptying goal t → ∃ c, s.hub.tasks[t]? = some (.errand c)
  /-- Whoever waits for the gate and the relay has told them to end. -/
  told : ∀ goal, s.call = .joining goal → s.isTold = true
  /-- A start fails only when the socket cannot be bound. -/
  failure : ∀ e, s.failure? = some e → ∃ f, e = .unbindable s.config.socketPath f

omit [Service δ] in
/-- A server is created in the phase that fits it. -/
theorem inPhase_create (number : Nat) (config : ServerConfig) (device : δ) : (create number config device).InPhase where
  fits := rfl
  quiet _ := ⟨rfl, rfl⟩
  failing _ ht := nomatch ht
  emptying _ _ ht := nomatch ht
  told _ ht := nomatch ht
  failure _ ht := nomatch ht

namespace InPhase

omit [Service δ] in
/-- Only a server to which nobody makes a request can be running or wait to be cleared up after. -/
theorem idle_of_engaged (hi : s.InPhase) (he : s.engaged = true) :
    s.call = .idle ∧ (s.phase = .running ∨ s.phase = .stopped) := by
  have hfits := hi.fits
  rw [he] at hfits
  cases hc : s.call with
  | idle =>
    rw [hc] at hfits
    exact ⟨rfl, (Bool.or_eq_true_iff.1 hfits).imp eq_of_beq eq_of_beq⟩
  | joining goal | emptying goal =>
    rw [hc] at hfits
    cases goal <;> nomatch hfits
  | preparing | binding =>
    rw [hc] at hfits
    nomatch hfits

omit [Service δ] in
/-- Only when nobody makes a request can there be a run to clear up after. -/
theorem engaged_eq_false (hi : s.InPhase) (hc : s.call ≠ .idle) : s.engaged = false :=
  Bool.eq_false_iff.2 fun he => hc (hi.idle_of_engaged he).1

omit [Service δ] in
/-- A server that nobody has asked for anything and that has no run to clear up after is stopped. -/
theorem stopped_of_idle (hi : s.InPhase) (hc : s.call = .idle) (he : s.engaged = false) : s.phase = .stopped := by
  have hfits := hi.fits
  rw [hc, he] at hfits
  exact eq_of_beq hfits

/-- What happens while no request goes on, and while the gate stays as it is or ends, leaves the phase fitting. -/
theorem still (hi : s.InPhase) (hrun : s.hub.run? (s.toHub e) = some (s'.hub, new))
    (hnobody : ∀ link, .attach link ∉ s.toHub e) (hcall : s'.call = s.call) (hengaged : s'.engaged = s.engaged)
    (hphase : s'.phase = s.phase) (hruns : s'.runs = s.runs) (hfailure : s'.failure? = s.failure?)
    (hconfig : s'.config = s.config) (hend : s.gate = .ended → s'.gate = .ended)
    (hfail : ∀ t, s'.gate = .failing t → s.gate = .failing t) : s'.InPhase := by
  have hmembers : s.hub.members = [] → s'.hub.members = [] := fun hnil =>
    List.eq_nil_of_subset_nil (hnil ▸ Hub.members_run hnobody hrun)
  refine ⟨?_, fun hq => ?_, fun t ht => ?_, fun goal t ht => ?_, fun goal ht => ?_, ?_⟩
  · rw [hcall, hengaged, hphase]
    exact hi.fits
  · obtain ⟨hgate, hnil⟩ := hi.quiet (hphase ▸ hq)
    exact ⟨hend hgate, hmembers hnil⟩
  · obtain ⟨hnil, hc⟩ := hi.failing t (hfail t ht)
    exact ⟨hmembers hnil, Hub.errand_run hc hrun⟩
  · exact Hub.errand_run (hi.emptying goal t (hcall ▸ ht)) hrun
  · have htold : s.runs ≤ s.hub.halted := of_decide_eq_true (hi.told goal (hcall ▸ ht))
    exact decide_eq_true (hruns ▸ Nat.le_trans htold (Hub.grows_run hrun).halted_le)
  · rw [hfailure, hconfig]
    exact hi.failure

omit [Service δ] in
/-- All peers are closed since accepting a client has failed. -/
theorem fallen {t : Nat} (hi : s.InPhase) (hg : s.gate = .failing t) :
    ({ s with gate := .ended, phase := .stopped } : Server δ).InPhase where
  fits := by
    refine Call.fits_stopped hi.fits fun hstarting => ?_
    have hend := (hi.quiet (Or.inr hstarting)).1
    nomatch hg.symm.trans hend
  quiet _ := ⟨rfl, (hi.failing t hg).1⟩
  failing _ ht := nomatch ht
  emptying := hi.emptying
  told := hi.told
  failure := hi.failure

/-- Accepting a client fails. -/
theorem fail {order : List Peer} (hi : s.InPhase) (hg : s.gate = .listening)
    (hrun : s.hub.run? (s.toHub e) = some ((s.hub.halt s.runs).closeAllIn order, new)) :
    ({ s with
      hub := (s.hub.halt s.runs).closeAllIn order
      gate := .failing s.hub.tasks.length
      backlog := [] } : Server δ).InPhase where
  fits := hi.fits
  quiet hq := by
    have hend := (hi.quiet hq).1
    nomatch hg.symm.trans hend
  failing t ht := by
    cases ht
    exact ⟨rfl, _, List.getElem?_concat_length⟩
  emptying goal t ht := Hub.errand_run (hi.emptying goal t ht) hrun
  told _ _ := decide_eq_true (Nat.le_max_right _ _)
  failure := hi.failure

/-- A client comes in. -/
theorem letIn {hub : Hub δ} {attendants : List Attendant} {backlog : List (Nat × Link)} {admitted : List (Nat × Peer)}
    (hi : s.InPhase) (hg : s.gate = .listening) (hrun : s.hub.run? (s.toHub e) = some (hub, new)) :
    ({ s with hub, gate := .seeking, attendants, backlog, admitted } : Server δ).InPhase where
  fits := hi.fits
  quiet hq := by
    have hend := (hi.quiet hq).1
    nomatch hg.symm.trans hend
  failing _ ht := nomatch ht
  emptying goal t ht := Hub.errand_run (hi.emptying goal t ht) hrun
  told goal ht := by
    have htold : s.runs ≤ s.hub.halted := of_decide_eq_true (hi.told goal ht)
    exact decide_eq_true (Nat.le_trans htold (Hub.grows_run hrun).halted_le)
  failure := hi.failure

omit [Service δ] in
/-- The gate and the relay have ended, and all peers are taken out. -/
theorem join {goal : Goal} {order : List Peer} (hi : s.InPhase) (hc : s.call = .joining goal) (hg : s.gate = .ended) :
    ({ s with hub := s.hub.closeAllIn order, call := .emptying goal s.hub.tasks.length } : Server δ).InPhase where
  fits := by
    have he := hi.engaged_eq_false (by simp [hc])
    have hfits := hi.fits
    rw [hc, he] at hfits
    rw [he]
    cases goal <;> exact hfits
  quiet _ := ⟨hg, rfl⟩
  failing t ht := nomatch hg.symm.trans ht
  emptying goal t ht := by
    cases ht
    exact ⟨_, List.getElem?_concat_length⟩
  told _ ht := nomatch ht
  failure := hi.failure

/-- What happens preserves that the phase fits, as long as the server is used by one at a time and nobody lets go of it. -/
theorem step (hi : s.InPhase) (hshut : s.awaitsRun false = true → s.Shut) (hcap : s.config.capacity ≤ maxPermits)
    (hp : s.permits false e = true) (hkept : e.isDiscard = false) (hrun : s.hub.run? (s.toHub e) = some (s'.hub, new))
    (hc : s.Course d e s' d') : s'.InPhase := by
  have outside : e ≠ .move .gate → ∀ link, .attach link ∉ s.toHub e := fun hne _ hin => hne (gate_of_attach hin).1
  have busy : s.gate ≠ .listening → ∀ link, .attach link ∉ s.toHub e := fun hne _ hin => hne (gate_of_attach hin).2
  cases hc with
  | aside hnobody => exact hi.still hrun hnobody rfl rfl rfl rfl rfl rfl id fun _ => id
  | disk => exact hi
  | take | passed | heed | cut | leave | dismiss =>
    exact hi.still hrun (outside (by simp)) rfl rfl rfl rfl rfl rfl id fun _ => id
  | listen hg =>
    exact hi.still hrun (busy (by simp [hg])) rfl rfl rfl rfl rfl rfl (fun hend => by simp [hg] at hend) (by simp)
  | close => exact hi.still hrun (outside (by simp)) rfl rfl rfl rfl rfl rfl (fun _ => rfl) (by simp)
  | letIn hg => exact hi.letIn hg hrun
  | fallen hg => exact hi.fallen hg
  | fail hg => exact hi.fail hg hrun
  | join hcall hg => exact hi.join hcall hg
  | stopped hcall =>
    have hs := hshut (by rw [awaitsRun, hcall])
    refine ⟨?_, fun _ => ⟨hs.gate_ended, hs.members_nil⟩, hi.failing, by simp, by simp, hi.failure⟩
    rw [hi.engaged_eq_false (by simp [hcall])]
    rfl
  | cleared hcall =>
    refine ⟨?_, hi.quiet, hi.failing, by simp, by simp, hi.failure⟩
    have he := hi.engaged_eq_false (by simp [hcall])
    have hfits := hi.fits
    rw [hcall, he] at hfits
    rw [he]
    exact hfits
  | prepare hcall =>
    have hs := hshut (by rw [awaitsRun, hcall])
    refine ⟨?_, fun _ => ⟨hs.gate_ended, hs.members_nil⟩, hi.failing, by simp, by simp, by simp⟩
    rw [hi.engaged_eq_false (by simp [hcall])]
    rfl
  | unbound hcall =>
    have hs := hshut (by rw [awaitsRun, hcall])
    refine ⟨?_, fun _ => ⟨hs.gate_ended, hs.members_nil⟩, hi.failing, by simp, by simp, fun e he => ?_⟩
    · rw [hi.engaged_eq_false (by simp [hcall])]
      rfl
    · cases he
      exact ⟨_, rfl⟩
  | bound => exact ⟨rfl, by simp, by simp, by simp, by simp, hi.failure⟩
  | overload _ hmany => exact absurd hcap (Nat.not_le_of_lt hmany)
  | restart he hphase =>
    refine ⟨?_, hi.quiet, hi.failing, by simp, fun _ _ => decide_eq_true (Nat.le_max_right _ _), hi.failure⟩
    rw [hphase]
    rfl
  | ready he =>
    obtain ⟨hidle, -⟩ := Bool.and_eq_true_iff.1 hp
    refine ⟨?_, hi.quiet, hi.failing, by simp, by simp, hi.failure⟩
    rw [he, hi.stopped_of_idle (eq_of_beq hidle) he]
    rfl
  | stop he =>
    refine ⟨?_, fun hq => hi.quiet ?_, hi.failing, by simp, fun _ _ => decide_eq_true (Nat.le_max_right _ _), hi.failure⟩
    · by_cases hphase : s.phase = .stopped <;> simp [Call.fits, hphase]
    · by_cases hphase : s.phase = .stopped
      · exact Or.inl hphase
      · simp [hphase] at hq
  | discard => cases hkept

end InPhase

/-! ## Ways of the phase -/

/-- The phase stays as it is or goes one of its few ways. -/
theorem InPhase.leads (hi : s.InPhase) (hcap : s.config.capacity ≤ maxPermits)
    (hc : s.Course d e s' d') : s'.phase = s.phase ∨ s.phase.leadsTo s'.phase = true := by
  have hfits := hi.fits
  cases hc with
  | fallen hg =>
    refine Or.inr ?_
    cases hphase : s.phase with
    | running | stopping => rfl
    | stopped =>
      have hend := (hi.quiet (Or.inl hphase)).1
      nomatch hg.symm.trans hend
    | starting =>
      have hend := (hi.quiet (Or.inr hphase)).1
      nomatch hg.symm.trans hend
  | stopped hcall =>
    rw [hcall, hi.engaged_eq_false (by simp [hcall])] at hfits
    rcases Bool.or_eq_true_iff.1 hfits with hphase | hphase
    · rw [eq_of_beq hphase]
      exact Or.inr rfl
    · rw [eq_of_beq hphase]
      exact Or.inl rfl
  | prepare hcall =>
    rw [hcall, hi.engaged_eq_false (by simp [hcall])] at hfits
    rw [eq_of_beq hfits]
    exact Or.inr rfl
  | unbound hcall | bound hcall =>
    rw [hcall, hi.engaged_eq_false (by simp [hcall])] at hfits
    rw [eq_of_beq hfits]
    exact Or.inr rfl
  | overload _ hmany => exact absurd hcap (Nat.not_le_of_lt hmany)
  | stop he =>
    rcases (hi.idle_of_engaged he).2 with hphase | hphase
    · rw [hphase]
      exact Or.inr rfl
    · rw [hphase]
      exact Or.inl rfl
  | _ => exact Or.inl rfl

end Server

end Peripheral
