import Peripheral.Proofs.Daemon.Execution
import Peripheral.Proofs.Server.Requests

/-!
# The daemon clears up

However many devices there are, whichever of them cannot be served, and whatever goes on meanwhile, the daemon leaves nothing
behind (`clears_up`). If a server cannot be started, the daemon ends with an error and needs nobody for that: no later device
was built, nothing was done to the disk where only later paths lead, and every socket that was made is gone. Once it is told
to end, it stops a server only when the activity of the device has ended, and can come to its end by itself; at the end no
device has a socket, and nobody is connected to any.
-/

namespace Peripheral.Daemon

/-- What the daemon does by itself, and what time does. -/
def Event.isOwn : Event → Bool
  | .advance | .obey | .wait _ => true
  | .server _ e => e.isUnaided
  | .signal | .refuse _ | .tick _ => false

/-- Whether the daemon goes on. -/
def Event.isAdvance : Event → Bool
  | .advance => true
  | _ => false

/-- Whether the daemon was told to end and ends, or has ended, without an error. -/
def Stage.isEnding : Stage → Bool
  | .calming _ | .stopping _ | .ended none => true
  | _ => false

namespace Scene

variable {devices : List DeviceConfig} {d₀ : Disk} {x x' x'' : Scene} {i : Nat} {st : Station Model} {f : Failure}
  {s s' : Server Model} {d d' : Disk}

/-! ## Coming to the end -/

/-- Events of a kind lead the daemon from one scene to the other. -/
def Via (kind : Event → Bool) (x x' : Scene) : Prop := ∃ steps, (∀ e ∈ steps, kind e = true) ∧ x.run? steps = some x'

theorem Via.refl (kind : Event → Bool) (x : Scene) : Via kind x x := ⟨[], List.forall_mem_nil _, rfl⟩

theorem Via.trans {kind : Event → Bool} (h : Via kind x x') (h' : Via kind x' x'') : Via kind x x'' := by
  obtain ⟨steps, hkind, hr⟩ := h
  obtain ⟨more, hmore, hr'⟩ := h'
  exact ⟨steps ++ more, List.forall_mem_append.2 ⟨hkind, hmore⟩, run?_append hr hr'⟩

theorem Via.single {kind : Event → Bool} {e : Event} (hkind : kind e = true) (he : x.after? e = some x') : Via kind x x' :=
  ⟨[e], List.forall_mem_singleton.2 hkind, run?_cons he rfl⟩

/-- Whatever leads on keeps the scene in order. -/
theorem Via.orderly {kind : Event → Bool} (h : Via kind x x') (hcap : ∀ c ∈ devices, c.server.capacity ≤ Server.maxPermits)
    (ho : x.Orderly devices d₀) : x'.Orderly devices d₀ := by
  obtain ⟨steps, -, hr⟩ := h
  exact run_preserves (P := Orderly devices d₀) (fun h he => h.step hcap he) ho hr

/-- What a server can come to without anybody else it comes to at its station while the daemon waits. -/
theorem continues_of_unaided (hu : Server.Unaided s d s' d') (hi : x.world.stations[i]? = some st) (hs : st.server = s)
    (hd : x.world.disk = d) :
    ∃ x' st', Via Event.isOwn x x' ∧ x'.stage = x.stage ∧ x'.world.stations[i]? = some st' ∧ st'.server = s' ∧
      x'.world.stations.length = x.world.stations.length := by
  induction hu generalizing x st with
  | refl => exact ⟨x, st, .refl _ x, rfl, hi, hs, rfl⟩
  | @step s s₁ s₂ d d₁ d₂ e hown he _ ih =>
    subst hs hd
    cases e with
    | move m =>
      have hafter : x.after? (.server i (.move m)) = some { x with world := x.world.setServer i s₁ d₁ } := by
        simp [after?, isTraffic, hi, he]
      have hi' : (x.world.setServer i s₁ d₁).stations[i]? = some { st with server := s₁ } :=
        World.getElem?_updateStation_self hi _
      obtain ⟨x', st', hmore, hstage, hst', hs', hlength⟩ := ih (x := { x with world := _ }) hi' rfl rfl
      refine ⟨x', st', (Via.single (e := .server i (.move m)) hown hafter).trans hmore, hstage, hst', hs',
        hlength.trans ?_⟩
      exact World.length_updateStation _ _ _
    | wait ms =>
      cases he
      have hafter : x.after? (.wait ms) = some { x with world := x.world.pass ms } := rfl
      have hi' := World.getElem?_pass hi ms
      obtain ⟨x', st', hmore, hstage, hst', hs', hlength⟩ := ih (x := { x with world := _ }) hi' rfl rfl
      exact ⟨x', st', (Via.single rfl hafter).trans hmore, hstage, hst', hs', hlength.trans (List.length_map _)⟩
    | start | stop | discard | arrive | client | trigger | offer | tick | disk => cases hown

/-- A stop comes to its end. -/
theorem stop_ends (h : x.Orderly devices d₀) (hstage : x.stage = .stopping i) :
    ∃ x', Via Event.isOwn x x' ∧ x'.stage = .calming (i + 1) ∧ x'.world.stations.length = x.world.stations.length := by
  obtain ⟨⟨-, hlt⟩, hstands⟩ := h.known hstage
  rw [served, List.length_map] at hlt
  have hi : x.world.stations[i]? = some _ := List.getElem?_eq_getElem hlt
  have hending := hstands i _ hi
  rw [Stage.standing, if_neg (Nat.lt_irrefl i), if_pos rfl] at hending
  have hphase : (x.world.stations[i]).server.InPhase := by
    rcases hending.1 with hsinking | hdown
    · exact hsinking.sound.inPhase
    · exact hdown.sound.inPhase
  obtain ⟨s', d', hu, hidle⟩ := Server.request_ends hphase x.world.disk
  obtain ⟨x', st', hon, hstage', hi', rfl, hlength⟩ := continues_of_unaided hu hi rfl rfl
  refine ⟨{ x' with stage := .calming (i + 1) }, hon.trans (.single (e := .advance) rfl ?_), rfl, hlength⟩
  simp [after?, advance?, hstage'.trans hstage, hi', hidle]

/-- The activity of a device and then its server come to their end. -/
theorem device_ends (h : x.Orderly devices d₀) (hcap : ∀ c ∈ devices, c.server.capacity ≤ Server.maxPermits)
    (hstage : x.stage = .calming i) (hi : x.world.stations[i]? = some st) :
    ∃ x', Via Event.isOwn x x' ∧ x'.stage = .calming (i + 1) ∧ x'.world.stations.length = x.world.stations.length := by
  have hobey : x.after? .obey = some { x with world := calm x.world i } := by simp [after?, hstage]
  have hasks : ({ x with world := calm x.world i } : Scene).after? .advance = some _ := hstage ▸ after?_calm hi
  have hasked : Via Event.isOwn x _ := (Via.single (e := .obey) rfl hobey).trans (.single (e := .advance) rfl hasks)
  obtain ⟨x', hon, hstage', hlength⟩ := stop_ends (hasked.orderly hcap h) rfl
  refine ⟨x', hasked.trans hon, hstage', hlength.trans ?_⟩
  rw [World.setServer, World.length_updateStation, calm, World.length_updateStation]

/-- All devices that are left come to their end, one after the other. -/
theorem devices_end {m : Nat} (h : x.Orderly devices d₀) (hcap : ∀ c ∈ devices, c.server.capacity ≤ Server.maxPermits)
    (hstage : x.stage = .calming i) (hm : x.world.stations.length ≤ i + m) :
    ∃ x', Via Event.isOwn x x' ∧ x'.stage = .ended none := by
  induction m generalizing x i with
  | zero =>
    have hnone : x.world.stations[i]? = none := List.getElem?_eq_none hm
    exact ⟨{ x with stage := .ended none }, .single (e := .advance) rfl (by simp [after?, advance?, hstage, hnone]), rfl⟩
  | succ m ih =>
    cases hi : x.world.stations[i]? with
    | none =>
      exact ⟨{ x with stage := .ended none }, .single (e := .advance) rfl (by simp [after?, advance?, hstage, hi]), rfl⟩
    | some st =>
      obtain ⟨x₁, hon, hstage₁, hlength⟩ := device_ends h hcap hstage hi
      obtain ⟨x', hmore, hended⟩ := ih (hon.orderly hcap h) hstage₁ (by omega)
      exact ⟨x', hon.trans hmore, hended⟩

/-- Once it was told to end, the daemon can come to its end by itself. -/
theorem Orderly.ends (h : x.Orderly devices d₀) (hcap : ∀ c ∈ devices, c.server.capacity ≤ Server.maxPermits)
    (hending : x.stage.isEnding = true) : ∃ x', Via Event.isOwn x x' ∧ x'.stage = .ended none := by
  cases hstage : x.stage with
  | calming i => exact devices_end h hcap hstage (Nat.le_add_left _ _)
  | stopping i =>
    obtain ⟨x₁, hon, hstage₁, -⟩ := stop_ends h hstage
    obtain ⟨x', hmore, hended⟩ := devices_end (hon.orderly hcap h) hcap hstage₁ (Nat.le_add_left _ _)
    exact ⟨x', hon.trans hmore, hended⟩
  | ended failure? =>
    cases failure? with
    | none => exact ⟨x, .refl _ x, hstage⟩
    | some f =>
      rw [hstage] at hending
      cases hending
  | serving | starting | waiting | abandoning =>
    rw [hstage] at hending
    cases hending

/-- The daemon that gives up needs nothing but to go on. -/
theorem givingUp_ends {m : Nat} (hstage : x.stage = .abandoning f i) (hm : x.world.stations.length ≤ i + m) :
    ∃ x', Via Event.isAdvance x x' ∧ x'.stage = .ended (some f) := by
  induction m generalizing x i with
  | zero =>
    have hnone : x.world.stations[i]? = none := List.getElem?_eq_none hm
    exact ⟨{ x with stage := .ended (some f) }, .single (e := .advance) rfl (by simp [after?, advance?, hstage, hnone]), rfl⟩
  | succ m ih =>
    cases hi : x.world.stations[i]? with
    | none =>
      exact ⟨{ x with stage := .ended (some f) }, .single (e := .advance) rfl (by simp [after?, advance?, hstage, hi]), rfl⟩
    | some st =>
      have hletGo : x.after? .advance = some ⟨.abandoning f (i + 1), x.world.letGo i st.server⟩ := by
        simp [after?, advance?, hstage, hi]
      have hlength : (x.world.letGo i st.server).stations.length = x.world.stations.length :=
        World.length_updateStation _ _ _
      obtain ⟨x', hon, hended⟩ := ih (x := ⟨_, x.world.letGo i st.server⟩) (i := i + 1) rfl (by dsimp only; omega)
      exact ⟨x', (Via.single (e := .advance) rfl hletGo).trans hon, hended⟩

/-! ## What is left -/

/-- What is left when the daemon has given up over a device. -/
structure Withdrawn (before : List DeviceConfig) (c : DeviceConfig) (d : Disk) (f : Failure) (w : World Model) : Prop where
  path_eq : f.path = c.server.socketPath
  exitCode_eq : f.exitCode = 1
  /-- No device after it was built. -/
  served_eq : served w = (before ++ [c]).map (·.server)
  /-- Every path leads where it led before. -/
  alike : d.Alike w.disk
  /-- Where only other paths lead everything is as it was. -/
  untouched : ∀ p, (∀ c' ∈ before ++ [c], d.place c'.server.socketPath ≠ .ok p) → w.disk.node? p = d.node? p
  removed : ∀ c' ∈ before, w.disk.exists? c'.server.socketPath = false
  /-- Whatever socket is left was there before. -/
  sockets : ∀ p l, w.disk.node? p = some (.socket l) → d.node? p = some (.socket l)

/-- What is left when the daemon was told to end and has. -/
structure Dissolved (devices : List DeviceConfig) (d : Disk) (w : World Model) : Prop where
  served_eq : served w = devices.map (·.server)
  removed : ∀ c ∈ devices, w.disk.exists? c.server.socketPath = false
  /-- Whatever socket is left was there before. -/
  sockets : ∀ p l, w.disk.node? p = some (.socket l) → d.node? p = some (.socket l)
  rested : ∀ st ∈ w.stations, Rested st
  stopped : ∀ st ∈ w.stations, st.server.phase = .stopped
  /-- Nobody is connected to any server. -/
  members_nil : ∀ st ∈ w.stations, st.server.hub.members = []

/-- What a daemon leaves behind that has given up. -/
theorem Orderly.withdrawn (h : x.Orderly devices d₀) (hstage : x.stage = .ended (some f)) :
    ∃ before c after, devices = before ++ c :: after ∧ Withdrawn before c d₀ f x.world := by
  obtain ⟨⟨before, c, after, fault, hdevices, hserved, rfl⟩, hstands⟩ := h.known hstage
  have hlength := length_of_served hserved
  rw [List.length_append, List.length_singleton] at hlength
  refine ⟨before, c, after, hdevices, rfl, rfl, hserved, h.kempt.alike, fun p hp => ?_, fun c' hc' => ?_,
    fun p l hnode => ?_⟩
  · refine h.kempt.untouched p fun i st hi => ?_
    obtain ⟨c', hc', hconfig⟩ := device_of_station hserved hi
    rw [Station.path, hconfig]
    exact hp c' (List.mem_of_getElem? hc')
  · obtain ⟨i, hi⟩ := List.getElem?_of_mem hc'
    have hlt := (List.getElem?_eq_some_iff.1 hi).1
    obtain ⟨st, hst, hconfig⟩ := station_of_served hserved ((List.getElem?_append_left hlt).trans hi)
    have hgone : st.server.Gone := by
      have hleft := hstands i st hst
      rwa [Stage.standing, if_pos (by omega)] at hleft
    have hpath : st.path = c'.server.socketPath := congrArg ServerConfig.socketPath hconfig
    exact hpath ▸ h.kempt.exists?_eq_false hst
      (Server.holdsSocket_eq_false hgone.call_eq hgone.engaged_eq) hgone.runs_pos
  · refine h.kempt.sockets (fun i st hi => ?_) hnode
    have hleft := hstands i st hi
    rw [Stage.standing] at hleft
    split at hleft
    · exact Server.holdsSocket_eq_false (Server.Gone.call_eq hleft) (Server.Gone.engaged_eq hleft)
    · exact Server.holdsSocket_eq_false (Server.Failed.call_eq hleft) (Server.Failed.engaged_eq hleft)

/-- What a daemon leaves behind that was told to end. -/
theorem Orderly.dissolved (h : x.Orderly devices d₀) (hstage : x.stage = .ended none) : Dissolved devices d₀ x.world := by
  obtain ⟨hserved, hstands⟩ := h.known hstage
  have hsettled : ∀ st ∈ x.world.stations, st.server.Down ∧ Rested st := by
    intro st hst
    obtain ⟨i, hi⟩ := List.getElem?_of_mem hst
    exact hstands i st hi
  have hfree : ∀ st ∈ x.world.stations, st.server.holdsSocket = false := fun st hst =>
    Server.holdsSocket_eq_false (hsettled st hst).1.call_eq (hsettled st hst).1.engaged_eq
  have hempty : ∀ st ∈ x.world.stations, st.server.phase = .stopped ∧ st.server.hub.members = [] := fun st hst =>
    (hsettled st hst).1.sound.stopped (hsettled st hst).1.call_eq (hsettled st hst).1.engaged_eq
  refine ⟨hserved, fun c hc => ?_, fun p l => ?_, fun st hst => (hsettled st hst).2, fun st hst => (hempty st hst).1,
    fun st hst => (hempty st hst).2⟩
  · obtain ⟨i, hi⟩ := List.getElem?_of_mem hc
    obtain ⟨st, hst, hconfig⟩ := station_of_served hserved hi
    have hin := List.mem_of_getElem? hst
    have hpath : st.path = c.server.socketPath := congrArg ServerConfig.socketPath hconfig
    exact hpath ▸ h.kempt.exists?_eq_false hst (hfree st hin) (hsettled st hin).1.runs_pos
  · exact h.kempt.sockets fun i st hi => hfree st (List.mem_of_getElem? hi)

/-- Once the daemon was told to end, every server is still up, or the activity of its device has ended. -/
theorem rested_of_isEnding {stage : Stage} {n j : Nat} (hending : stage.isEnding = true)
    (hstands : Stands st (stage.standing n j)) : Stands st .live ∨ Rested st := by
  cases stage with
  | calming i =>
    rw [Stage.standing] at hstands
    split at hstands
    · exact Or.inr hstands.2
    · exact Or.inl hstands
  | stopping i =>
    rw [Stage.standing] at hstands
    split at hstands
    · exact Or.inr hstands.2
    · split at hstands
      · exact Or.inr hstands.2
      · exact Or.inl hstands
  | ended failure? =>
    cases failure? with
    | none => exact Or.inr hstands.2
    | some f => cases hending
  | serving | starting | waiting | abandoning => cases hending

/-- Once the daemon was told to end, no server is stopped but after the activity of its device has ended. -/
theorem Orderly.rested (h : x.Orderly devices d₀) (hending : x.stage.isEnding = true) (hst : st ∈ x.world.stations)
    (hengaged : st.server.engaged = false) : Rested st := by
  obtain ⟨i, hi⟩ := List.getElem?_of_mem hst
  refine (rested_of_isEnding hending (h.stands i st hi)).resolve_left fun hlive => ?_
  exact Bool.false_ne_true (hengaged.symm.trans hlive.1.engaged_eq)

/-- A server that could not be started takes the daemon to its end. -/
theorem Orderly.fails (h : x.Orderly devices d₀) (hi : x.world.stations[i]? = some st) (hfails : st.server.failure? ≠ none) :
    x.stage ≠ .ended none ∧ ∃ x' f, Via Event.isAdvance x x' ∧ x'.stage = .ended (some f) ∧ f.path = st.path := by
  obtain ⟨hk | hk, hfailed⟩ := (h.stands i st hi).fails hfails
  · obtain ⟨c, left, hstage⟩ := h.starting hi hk
    obtain ⟨-, -, -, -, hconfig, -⟩ := h.launched hstage hi
    obtain ⟨cause, hcause⟩ := Option.ne_none_iff_exists'.1 hfails
    have hgiveUp : x.after? .advance = some { x with stage := .abandoning ⟨c.server.socketPath, cause⟩ 0 } := by
      simp [after?, advance?, hstage, hi, hfailed.call_eq, hcause]
    obtain ⟨x', hon, hended⟩ := givingUp_ends (x := ⟨_, x.world⟩) rfl (Nat.le_add_left _ _)
    have hpath : c.server.socketPath = st.path := (congrArg ServerConfig.socketPath hconfig).symm
    refine ⟨by simp [hstage], x', _, (Via.single (e := .advance) rfl hgiveUp).trans hon, hended, hpath⟩
  · obtain ⟨hlast, ⟨f, j, hstage⟩ | ⟨f, hstage⟩⟩ := Stage.givingUp_of_failed hk
    · obtain ⟨hroll, -⟩ := h.known hstage
      obtain ⟨x', hon, hended⟩ := givingUp_ends hstage (Nat.le_add_left _ _)
      exact ⟨by simp [hstage], x', f, hon, hended, hroll.path_eq hi hlast⟩
    · obtain ⟨hroll, -⟩ := h.known hstage
      exact ⟨by simp [hstage], x, f, .refl _ x, hstage, hroll.path_eq hi hlast⟩

/-- How the daemon clears up, at any moment, if the disk was once another. -/
structure ClearsUp (devices : List DeviceConfig) (d : Disk) (x : Scene) : Prop where
  /-- A server that could not be started takes the daemon to its end, which needs nothing but to go on. -/
  fails : ∀ st ∈ x.world.stations, st.server.failure? ≠ none →
    x.stage ≠ .ended none ∧ ∃ x' f, Via Event.isAdvance x x' ∧ x'.stage = .ended (some f) ∧ f.path = st.path
  withdrawn : ∀ f, x.stage = .ended (some f) →
    ∃ before c after, devices = before ++ c :: after ∧ Withdrawn before c d f x.world
  /-- When a server is stopped, the activity of its device has ended before. -/
  rested : x.stage.isEnding = true → ∀ st ∈ x.world.stations, st.server.engaged = false → Rested st
  /-- A daemon that was told to end can come to its end by itself. -/
  ends : x.stage.isEnding = true → ∃ x', Via Event.isOwn x x' ∧ x'.stage = .ended none
  dissolved : x.stage = .ended none → Dissolved devices d x.world
  /-- To shut the daemon down is one way of telling it to end. -/
  shutdown : x.stage = .waiting → StopsEnd x.world (List.range x.world.stations.length) →
    Dissolved devices d (shutdown x.world)

end Scene

/-- How the daemon boots. -/
structure Boots (s : Settings) (d : Disk) : Prop where
  /-- Booting is a run of the daemon, to its end if a device cannot be served. -/
  leads : (Scene.start s d).Leads
    ⟨match (boot s (.start d)).1 with | .ok () => .waiting | .error f => .ended (some f), (boot s (.start d)).2⟩
  withdrawn : ∀ f, (boot s (.start d)).1 = .error f →
    ∃ before c after, s.devices = before ++ c :: after ∧ Scene.Withdrawn before c d f (boot s (.start d)).2

/-- Whatever the devices are, as long as none asks for more permits than can be counted, whichever sockets can be bound, and
whatever goes on meanwhile: the daemon leaves no socket behind when it gives up over a device, and neither a socket nor a peer
when it was told to end. -/
theorem clears_up {s : Settings} (hcap : ∀ c ∈ s.devices, c.server.capacity ≤ Server.maxPermits) (d : Disk) :
    (∀ events x, (Scene.start s d).run? events = some x → x.ClearsUp s.devices d) ∧ Boots s d := by
  refine ⟨fun events x hr => ?_, Scene.boot_leads hcap d, fun f hf => ?_⟩
  · have h := Scene.orderly_run hcap d hr
    refine ⟨fun st hst hfails => ?_, fun f hstage => h.withdrawn hstage, fun hending st hst => h.rested hending hst,
      fun hending => h.ends hcap hending, fun hstage => h.dissolved hstage, fun hstage hends => ?_⟩
    · obtain ⟨i, hi⟩ := List.getElem?_of_mem hst
      exact h.fails hi hfails
    · have hsynced : x.world.Synced := Scene.Leads.synced ⟨events, hr⟩ fun _ _ hi => nomatch hi
      obtain ⟨more, hmore⟩ := Scene.shutdown_leads hsynced hends
      rw [← hstage] at hmore
      exact (Scene.orderly_run hcap d (Scene.run?_append hr hmore)).dissolved rfl
  · obtain ⟨events, hr⟩ := Scene.boot_leads hcap d
    rw [hf] at hr
    exact (Scene.orderly_run hcap d hr).withdrawn rfl

/-- Two devices, each on a socket of its own. -/
def twoDevices : Settings := ⟨[sample "/a" 1, sample "/b" 1]⟩

/-- The server of a device is started. -/
def starting (i : Nat) : List Event :=
  [.advance, .server i (.move (.caller [])), .server i (.move (.caller [])), .advance]

/-- The activity of a device ends, and its server is stopped, by moves of the task that closes its peers. -/
def stopping (i : Nat) (order : List Peer) (moves : List Hub.Move) : List Event :=
  [.obey, .advance, .server i (.move .gateHeeds), .server i (.move .relayHeeds), .server i (.move (.caller order))] ++
    moves.map (fun m => .server i (.move (.hub m))) ++ [.server i (.move (.caller [])), .advance]

/-- A client has connected to the first device when the daemon is told to end. -/
def visited : List Event :=
  starting 0 ++ starting 1 ++ [.advance, .server 0 (.arrive 0 (.fresh 300)), .server 0 (.move .gate),
    .server 0 (.move .gate), .signal]

def whole : List Event :=
  visited ++ stopping 0 [0] [.advance 1 0, .advance 1 0] ++ stopping 1 [] [] ++ [.advance]

/-- The system grants no socket to the second device. -/
def refused : List Event :=
  starting 0 ++ [.advance, .server 1 (.move (.caller [])), .refuse .other, .advance, .advance, .advance, .advance]

/-- Of two devices both are served until a signal comes, and the sockets are cleared away; and if the second cannot be
served, the first is withdrawn. -/
theorem clears_up_twoDevices :
    (∀ c ∈ twoDevices.devices, c.server.capacity ≤ Server.maxPermits) ∧
      (∃ x, (Scene.start twoDevices .empty).run? visited = some x ∧ x.world.disk.exists? "/a" = true ∧
        x.world.stations.map (·.server.hub.members) = [[0], []] ∧ x.stage = .calming 0 ∧
        ∃ x', Scene.Via Event.isOwn x x' ∧ x'.stage = .ended none) ∧
      (∃ x, (Scene.start twoDevices .empty).run? whole = some x ∧ Scene.Dissolved twoDevices.devices .empty x.world) ∧
      ∃ x f, (Scene.start twoDevices .empty).run? refused = some x ∧ f.path = "/b" ∧
        ∃ before c after, twoDevices.devices = before ++ c :: after ∧ Scene.Withdrawn before c .empty f x.world := by
  have hcap : ∀ c ∈ twoDevices.devices, c.server.capacity ≤ Server.maxPermits := by decide
  have hclears := (clears_up hcap .empty).1
  have hvisited : ((Scene.start twoDevices .empty).run? visited).map (fun x =>
      (x.stage, x.world.disk.exists? "/a", x.world.stations.map (·.server.hub.members))) =
      some (.calming 0, true, [[0], []]) := by decide +kernel
  have hwhole : ((Scene.start twoDevices .empty).run? whole).map (·.stage) = some (.ended none) := by decide +kernel
  have hrefused : ((Scene.start twoDevices .empty).run? refused).map (·.stage) =
      some (.ended (some ⟨"/b", .unbindable "/b" .other⟩)) := by decide +kernel
  obtain ⟨x, hr, hx⟩ := Option.map_eq_some_iff.1 hvisited
  obtain ⟨y, hr', hy⟩ := Option.map_eq_some_iff.1 hwhole
  obtain ⟨z, hr'', hz⟩ := Option.map_eq_some_iff.1 hrefused
  obtain ⟨hstage, hmore⟩ := Prod.mk.injEq .. ▸ hx
  obtain ⟨hexists, hmembers⟩ := Prod.mk.injEq .. ▸ hmore
  refine ⟨hcap, ⟨x, hr, hexists, hmembers, hstage, (hclears _ x hr).ends (by rw [hstage]; rfl)⟩,
    ⟨y, hr', (hclears _ y hr').dissolved hy⟩, z, _, hr'', rfl, (hclears _ z hr'').withdrawn _ hz⟩

end Peripheral.Daemon
