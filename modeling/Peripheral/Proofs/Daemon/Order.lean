import Peripheral.Proofs.Daemon.Sockets

/-!
# The order of the daemon

At every stage of the daemon it is known which devices have a station, how each station stands, and what the servers have
done to the disk (`Orderly`). Every event keeps it so (`Orderly.step`), whatever the system grants and whatever goes on
meanwhile, and so it is known at every moment of a run (`orderly_run`).
-/

namespace Peripheral.Daemon

/-! ## How a station stands -/

/-- How a station stands with the daemon. -/
inductive Standing
  | launching
  | live
  | ending
  | settled
  /-- The daemon has let go of a server that was started. -/
  | left
  | failed
  deriving DecidableEq

/-- The activity of a device was begun and has ended. -/
def Rested (st : Station Model) : Prop := ∃ a, st.activity? = some a ∧ a.ended = true

/-- What a station is like that stands so. -/
def Stands (st : Station Model) : Standing → Prop
  | .launching => (st.server.Rising ∨ st.server.Up ∨ st.server.Failed) ∧ st.isOwned = true
  | .live => st.server.Up ∧ (∃ a, st.activity? = some a) ∧ st.isOwned = true
  | .ending => (st.server.Sinking ∨ st.server.Down) ∧ Rested st
  | .settled => st.server.Down ∧ Rested st
  | .left => st.server.Gone
  | .failed => st.server.Failed

/-- What becomes of an activity while it goes on by itself. -/
def GoesOn (activity? activity?' : Option Activity) : Prop :=
  activity?' = activity? ∨ ∃ a a', activity? = some a ∧ a.ended = false ∧ activity?' = some a'

variable {st st' : Station Model} {k : Standing} {d d' : Disk} {s' : Server Model} {activity? : Option Activity}

/-- An activity that has ended does not go on. -/
theorem GoesOn.rested (hg : GoesOn st.activity? activity?) (h : Rested st) :
    Rested { st with server := s', activity? } := by
  obtain ⟨a, ha, hended⟩ := h
  rcases hg with rfl | ⟨b, a', hb, hgoes, -⟩
  · exact ⟨a, ha, hended⟩
  · cases ha.symm.trans hb
    nomatch hended.symm.trans hgoes

/-- An activity that goes on is there still. -/
theorem GoesOn.exists (hg : GoesOn st.activity? activity?) (h : ∃ a, st.activity? = some a) : ∃ a, activity? = some a := by
  rcases hg with rfl | ⟨-, a', -, -, ha'⟩
  · exact h
  · exact ⟨a', ha'⟩

/-- What goes on by itself leaves a station standing as it does. -/
theorem Stands.routine (h : Stands st k) (hcap : st.server.config.capacity ≤ Server.maxPermits) {e : Server.Event}
    (hroutine : e.isRoutine = true) (he : st.server.after? d e = some (s', d')) (hg : GoesOn st.activity? activity?) :
    Stands { st with server := s', activity? } k := by
  cases k with
  | launching =>
    refine ⟨?_, h.2⟩
    rcases h.1 with hrising | hup | hfailed
    · exact hrising.step hcap hroutine he
    · exact Or.inr (Or.inl (hup.step hcap hroutine he))
    · exact Or.inr (Or.inr (hfailed.step hroutine he))
  | live => exact ⟨h.1.step hcap hroutine he, hg.exists h.2.1, h.2.2⟩
  | ending =>
    refine ⟨?_, hg.rested h.2⟩
    rcases h.1 with hsinking | hdown
    · exact hsinking.step hcap hroutine he
    · exact Or.inr (hdown.step hcap hroutine he)
  | settled => exact ⟨h.1.step hcap hroutine he, hg.rested h.2⟩
  | left => exact Server.Gone.step h hroutine he
  | failed => exact Server.Failed.step h hroutine he

/-- Only a server that is being started binds a socket, and it is in no run yet. -/
theorem Stands.binding (h : Stands st k) (hcall : st.server.call = .binding) : k = .launching ∧ st.server.Rising := by
  have idle : st.server.call ≠ .idle := fun hidle => nomatch hcall.symm.trans hidle
  cases k with
  | launching =>
    rcases h.1 with hrising | hup | hfailed
    · exact ⟨rfl, hrising⟩
    · exact absurd hup.call_eq idle
    · exact absurd hfailed.call_eq idle
  | live => exact absurd h.1.call_eq idle
  | ending =>
    rcases h.1 with hsinking | hdown
    · have hstops := hsinking.stops
      rw [hcall] at hstops
      nomatch hstops
    · exact absurd hdown.call_eq idle
  | settled => exact absurd h.1.call_eq idle
  | left => exact absurd (Server.Gone.call_eq h) idle
  | failed => exact absurd (Server.Failed.call_eq h) idle

/-- Whoever makes requests to a server does nothing else meanwhile. -/
theorem Stands.quiet (h : Stands st k) (hcall : st.server.call ≠ .idle) : st.server.engaged = false := by
  cases k with
  | launching =>
    rcases h.1 with hrising | hup | hfailed
    · exact hrising.engaged_eq
    · exact absurd hup.call_eq hcall
    · exact hfailed.engaged_eq
  | live => exact absurd h.1.call_eq hcall
  | ending =>
    rcases h.1 with hsinking | hdown
    · exact hsinking.engaged_eq
    · exact hdown.engaged_eq
  | settled => exact h.1.engaged_eq
  | left => exact Server.Gone.engaged_eq h
  | failed => exact Server.Failed.engaged_eq h

/-- Only the start of a server fails. -/
theorem Stands.fails (h : Stands st k) (hfails : st.server.failure? ≠ none) :
    (k = .launching ∨ k = .failed) ∧ st.server.Failed := by
  cases k with
  | launching =>
    rcases h.1 with hrising | hup | hfailed
    · exact absurd hrising.failure?_eq hfails
    · exact absurd hup.failure?_eq hfails
    · exact ⟨Or.inl rfl, hfailed⟩
  | live => exact absurd h.1.failure?_eq hfails
  | ending =>
    rcases h.1 with hsinking | hdown
    · exact absurd hsinking.failure?_eq hfails
    · exact absurd hdown.failure?_eq hfails
  | settled => exact absurd h.1.failure?_eq hfails
  | left => exact absurd (Server.Gone.failure?_eq h) hfails
  | failed => exact ⟨Or.inr rfl, h⟩

/-! ## How the daemon stands -/

namespace Stage

/-- How a station stands at a stage, of so many. -/
def standing (n : Nat) : Stage → Nat → Standing
  | .serving _, _ | .waiting, _ => .live
  | .starting i _ _, j => if j < i then .live else .launching
  | .calming i, j => if j < i then .settled else .live
  | .stopping i, j => if j < i then .settled else if j = i then .ending else .live
  | .abandoning _ i, j => if j + 1 < n then if j < i then .left else .live else .failed
  | .ended none, _ => .settled
  | .ended (some _), j => if j + 1 < n then .left else .failed

/-- Only the newest server is being started. -/
theorem starting_of_launching {stage : Stage} {n j : Nat} (h : stage.standing n j = .launching) :
    ∃ i c left, stage = .starting i c left ∧ i ≤ j := by
  cases stage with
  | starting i c left =>
    rw [standing] at h
    split at h
    · nomatch h
    · exact ⟨i, c, left, rfl, Nat.le_of_not_lt ‹_›⟩
  | serving | waiting => nomatch h
  | calming =>
    rw [standing] at h
    split at h <;> nomatch h
  | stopping =>
    rw [standing] at h
    split at h
    · nomatch h
    · split at h <;> nomatch h
  | abandoning =>
    rw [standing] at h
    split at h
    · split at h <;> nomatch h
    · nomatch h
  | ended failure? =>
    cases failure? with
    | none => nomatch h
    | some f =>
      rw [standing] at h
      split at h <;> nomatch h

/-- Only the newest server may have failed, and the daemon gives up over it. -/
theorem givingUp_of_failed {stage : Stage} {n j : Nat} (h : stage.standing n j = .failed) :
    n ≤ j + 1 ∧ ((∃ f i, stage = .abandoning f i) ∨ ∃ f, stage = .ended (some f)) := by
  cases stage with
  | abandoning f i =>
    rw [standing] at h
    split at h
    · split at h <;> nomatch h
    · exact ⟨Nat.le_of_not_lt ‹_›, Or.inl ⟨f, i, rfl⟩⟩
  | ended failure? =>
    cases failure? with
    | none => nomatch h
    | some f =>
      rw [standing] at h
      split at h
      · nomatch h
      · exact ⟨Nat.le_of_not_lt ‹_›, Or.inr ⟨f, rfl⟩⟩
  | serving | waiting => nomatch h
  | starting | calming =>
    rw [standing] at h
    split at h <;> nomatch h
  | stopping =>
    rw [standing] at h
    split at h
    · nomatch h
    · split at h <;> nomatch h

/-- A device could not be served: those before it have servers, and none of those after it has. -/
def GivesUp (devices : List DeviceConfig) (served : List ServerConfig) (f : Failure) : Prop :=
  ∃ before c after fault, devices = before ++ c :: after ∧ served = (before ++ [c]).map (·.server) ∧
    f = ⟨c.server.socketPath, .unbindable c.server.socketPath fault⟩

/-- Which devices have servers at a stage. -/
def Roll (devices : List DeviceConfig) (served : List ServerConfig) : Stage → Prop
  | .serving left => ∃ before, devices = before ++ left ∧ served = before.map (·.server)
  | .starting i c left => ∃ before, devices = before ++ c :: left ∧ served = (before ++ [c]).map (·.server) ∧ i = before.length
  | .waiting | .calming _ | .ended none => served = devices.map (·.server)
  | .stopping i => served = devices.map (·.server) ∧ i < served.length
  | .abandoning f _ | .ended (some f) => GivesUp devices served f

/-- Servers there are for devices only. -/
theorem Roll.subset {stage : Stage} {devices : List DeviceConfig} {served : List ServerConfig}
    (h : stage.Roll devices served) : served ⊆ devices.map (·.server) := by
  have hsplit : ∀ {before : List DeviceConfig} {c after}, devices = before ++ c :: after →
      (before ++ [c]).map (·.server) ⊆ devices.map (·.server) := by
    rintro before c after rfl
    rw [List.append_cons before c after]
    exact List.map_subset _ (List.subset_append_left _ _)
  cases stage with
  | serving left =>
    obtain ⟨before, rfl, rfl⟩ := h
    exact List.map_subset _ (List.subset_append_left _ _)
  | starting i c left =>
    obtain ⟨before, hdevices, rfl, -⟩ := h
    exact hsplit hdevices
  | waiting | calming => exact h ▸ List.Subset.refl _
  | stopping => exact h.1 ▸ List.Subset.refl _
  | abandoning =>
    obtain ⟨before, c, after, -, hdevices, rfl, -⟩ := h
    exact hsplit hdevices
  | ended failure? =>
    cases failure? with
    | none => exact h ▸ List.Subset.refl _
    | some f =>
      obtain ⟨before, c, after, -, hdevices, rfl, -⟩ := h
      exact hsplit hdevices

end Stage

/-- How the servers of a world are to serve. -/
def served (w : World Model) : List ServerConfig := w.stations.map (·.server.config)

/-- What is known of the daemon at a stage, if the disk was once another. -/
structure Scene.Orderly (devices : List DeviceConfig) (d₀ : Disk) (x : Scene) : Prop where
  roll : x.stage.Roll devices (served x.world)
  stands : ∀ (i : Nat) (st : Station Model), x.world.stations[i]? = some st →
    Stands st (x.stage.standing x.world.stations.length i)
  kempt : x.world.Kempt d₀

theorem length_of_served {w : World Model} {cs : List DeviceConfig} (h : served w = cs.map (·.server)) :
    w.stations.length = cs.length := by
  have := congrArg List.length h
  simpa [served] using this

/-- The station of a device that is served. -/
theorem station_of_served {w : World Model} {cs : List DeviceConfig} {i : Nat} {c : DeviceConfig}
    (h : served w = cs.map (·.server)) (hc : cs[i]? = some c) :
    ∃ st, w.stations[i]? = some st ∧ st.server.config = c.server := by
  have hi : (served w)[i]? = some c.server := by rw [h, List.getElem?_map, hc, Option.map_some]
  rw [served, List.getElem?_map] at hi
  exact Option.map_eq_some_iff.1 hi

/-- The device that a station serves. -/
theorem device_of_station {w : World Model} {cs : List DeviceConfig} {i : Nat} {st : Station Model}
    (h : served w = cs.map (·.server)) (hi : w.stations[i]? = some st) :
    ∃ c, cs[i]? = some c ∧ st.server.config = c.server := by
  have hc : (cs.map (·.server))[i]? = some st.server.config := by
    rw [← h, served, List.getElem?_map, hi, Option.map_some]
  rw [List.getElem?_map] at hc
  obtain ⟨c, hc, heq⟩ := Option.map_eq_some_iff.1 hc
  exact ⟨c, hc, heq.symm⟩

/-- The daemon gives up over the device of the last station. -/
theorem Stage.GivesUp.path_eq {devices : List DeviceConfig} {w : World Model} {f : Failure} {i : Nat} {st : Station Model}
    (h : GivesUp devices (served w) f) (hi : w.stations[i]? = some st) (hlast : w.stations.length ≤ i + 1) :
    f.path = st.path := by
  obtain ⟨before, c, after, fault, -, hserved, rfl⟩ := h
  have hlength := length_of_served hserved
  rw [List.length_append, List.length_singleton] at hlength
  have hlt := (List.getElem?_eq_some_iff.1 hi).1
  obtain rfl : i = before.length := by omega
  obtain ⟨c', hc', hconfig⟩ := device_of_station hserved hi
  rw [List.getElem?_concat_length] at hc'
  cases hc'
  exact (congrArg ServerConfig.socketPath hconfig).symm

namespace Scene

variable {devices : List DeviceConfig} {d₀ : Disk} {x x' : Scene} {i j : Nat} {f : Station Model → Station Model} {e : Event}

/-- A daemon is in order when it starts. -/
theorem orderly_start (s : Settings) (d : Disk) : (start s d).Orderly s.devices d where
  roll := ⟨[], rfl, rfl⟩
  stands _ _ hi := nomatch hi
  kempt := World.kempt_start d

/-- What is known of the daemon at a given stage. -/
theorem Orderly.known (h : x.Orderly devices d₀) {stage : Stage} (hstage : x.stage = stage) :
    stage.Roll devices (served x.world) ∧ ∀ (i : Nat) (st : Station Model), x.world.stations[i]? = some st →
      Stands st (stage.standing x.world.stations.length i) := by
  subst hstage
  exact ⟨h.roll, h.stands⟩

/-- The capacity of every server is that of the device that it is for. -/
theorem Orderly.capacity_le (h : x.Orderly devices d₀) (hcap : ∀ c ∈ devices, c.server.capacity ≤ Server.maxPermits)
    (hi : x.world.stations[i]? = some st) : st.server.config.capacity ≤ Server.maxPermits := by
  have hin : st.server.config ∈ served x.world := List.mem_map_of_mem (List.mem_of_getElem? hi)
  obtain ⟨c, hc, heq⟩ := List.mem_map.1 (h.roll.subset hin)
  exact heq ▸ hcap c hc

/-- The newest server is the one that is being started. -/
theorem Orderly.starting (h : x.Orderly devices d₀) (hi : x.world.stations[i]? = some st)
    (hk : x.stage.standing x.world.stations.length i = .launching) : ∃ c left, x.stage = .starting i c left := by
  obtain ⟨m, c, left, hstage, hle⟩ := Stage.starting_of_launching hk
  obtain ⟨⟨before, -, hserved, rfl⟩, -⟩ := h.known hstage
  have hlength := length_of_served hserved
  rw [List.length_append, List.length_singleton] at hlength
  have hlt := (List.getElem?_eq_some_iff.1 hi).1
  obtain rfl : i = before.length := by omega
  exact ⟨c, left, hstage⟩

/-- While a server is being started, every other one is up. -/
theorem Orderly.launched (h : x.Orderly devices d₀) {c : DeviceConfig} {left : List DeviceConfig}
    (hstage : x.stage = .starting i c left) (hi : x.world.stations[i]? = some st) :
    ∃ before, devices = before ++ c :: left ∧ served x.world = (before ++ [c]).map (·.server) ∧
      x.world.stations.length = i + 1 ∧ st.server.config = c.server ∧ Stands st .launching ∧
      ∀ j st', j ≠ i → x.world.stations[j]? = some st' → Stands st' .live := by
  obtain ⟨⟨before, hdevices, hserved, rfl⟩, hstands⟩ := h.known hstage
  have hself := hstands _ st hi
  have hlength := length_of_served hserved
  rw [List.length_append, List.length_singleton] at hlength
  obtain ⟨c', hc', hconfig⟩ := device_of_station hserved hi
  rw [List.getElem?_concat_length] at hc'
  cases hc'
  rw [Stage.standing, if_neg (Nat.lt_irrefl _)] at hself
  refine ⟨before, hdevices, hserved, hlength, hconfig, hself, fun j st' hne hj => ?_⟩
  · have hlt := (List.getElem?_eq_some_iff.1 hj).1
    have hlive := hstands j st' hj
    rwa [Stage.standing, if_pos (by omega)] at hlive

/-- While one server binds a socket, every other one holds its own. -/
theorem Orderly.others_hold (h : x.Orderly devices d₀) (hi : x.world.stations[i]? = some st)
    (hcall : st.server.call = .binding) (hne : j ≠ i) (hj : x.world.stations[j]? = some st') :
    st'.server.holdsSocket = true := by
  obtain ⟨hk, -⟩ := (h.stands i st hi).binding hcall
  obtain ⟨c, left, hstage⟩ := h.starting hi hk
  obtain ⟨before, -, -, -, -, -, hothers⟩ := h.launched hstage hi
  rw [Server.holdsSocket, (hothers j st' hne hj).1.engaged_eq, Bool.true_or]

/-- A change that leaves the configuration alone leaves it served. -/
theorem served_updateStation {w : World Model} (hi : w.stations[i]? = some st)
    (hconfig : (f st).server.config = st.server.config) : served (w.updateStation i f) = served w := by
  refine List.ext_getElem? fun j => ?_
  rw [served, served, List.getElem?_map, List.getElem?_map]
  by_cases hij : j = i
  · subst hij
    rw [World.getElem?_updateStation_self hi, hi, Option.map_some, Option.map_some, hconfig]
  · rw [World.getElem?_updateStation_of_ne w hij]

/-- One station changes, and the daemon may come to another stage. -/
theorem Orderly.change {stage : Stage} (h : x.Orderly devices d₀) (hi : x.world.stations[i]? = some st)
    (hconfig : (f st).server.config = st.server.config) (hs : st.server.SocketStep x.world.disk (f st).server d')
    (hroll : stage.Roll devices (served x.world)) (hself : Stands (f st) (stage.standing x.world.stations.length i))
    (hothers : ∀ (j : Nat) (st' : Station Model), j ≠ i → x.world.stations[j]? = some st' →
      Stands st' (stage.standing x.world.stations.length j)) :
    Orderly devices d₀ ⟨stage, { x.world with disk := d' }.updateStation i f⟩ where
  roll := by
    have hsame : served ({ x.world with disk := d' }.updateStation i f) = served x.world := served_updateStation hi hconfig
    rw [hsame]
    exact hroll
  stands j st' hj := by
    rw [World.length_updateStation]
    rcases World.station_cases hi hj with ⟨rfl, rfl⟩ | ⟨hij, hj⟩
    · exact hself
    · exact hothers j st' hij hj
  kempt := h.kempt.change hi (congrArg ServerConfig.socketPath hconfig) hs fun hcall _ _ hne hj =>
    h.others_hold hi hcall hne hj

/-- One station changes, and the daemon stays at its stage. -/
theorem Orderly.still (h : x.Orderly devices d₀) (hi : x.world.stations[i]? = some st)
    (hconfig : (f st).server.config = st.server.config) (hs : st.server.SocketStep x.world.disk (f st).server d')
    (hself : Stands (f st) (x.stage.standing x.world.stations.length i)) :
    Orderly devices d₀ { x with world := { x.world with disk := d' }.updateStation i f } :=
  h.change hi hconfig hs h.roll hself fun j st' _ hj => h.stands j st' hj

/-! ## The steps of the daemon -/

/-- When all devices are served, the daemon waits. -/
theorem Orderly.ready (h : x.Orderly devices d₀) (hstage : x.stage = .serving []) :
    Orderly devices d₀ { x with stage := .waiting } := by
  obtain ⟨hroll, hstands⟩ := h.known hstage
  obtain ⟨before, hdevices, hserved⟩ := hroll
  rw [List.append_nil] at hdevices
  exact ⟨hdevices ▸ hserved, hstands, h.kempt⟩

/-- The launch of the next device keeps the daemon in order. -/
theorem Orderly.launch (h : x.Orderly devices d₀) (hcap : ∀ c ∈ devices, c.server.capacity ≤ Server.maxPermits)
    {c : DeviceConfig} {left : List DeviceConfig} (hstage : x.stage = .serving (c :: left)) :
    Orderly devices d₀ ⟨.starting x.world.stations.length c left,
      x.world.append { x.world.newcomer c.server c.model.build with call := .preparing }⟩ := by
  obtain ⟨hroll, hstands⟩ := h.known hstage
  obtain ⟨before, hdevices, hserved⟩ := hroll
  have hlength := length_of_served hserved
  have hin : c ∈ devices := hdevices ▸ List.mem_append_right _ List.mem_cons_self
  refine ⟨⟨before, hdevices, ?_, hlength⟩, fun j st hj => ?_, h.kempt.append rfl rfl⟩
  · rw [served, World.append, List.map_append, List.map_append, ← hserved]
    rfl
  · rcases World.getElem?_append_cases hj with hj | ⟨rfl, rfl⟩
    · rw [Stage.standing, if_pos (List.getElem?_eq_some_iff.1 hj).1]
      exact hstands j st hj
    · rw [Stage.standing, if_neg (Nat.lt_irrefl _)]
      exact ⟨Or.inl (Server.rising_create _ _ _ x.world.clock (hcap c hin)), rfl⟩

/-- The start of a server has failed. -/
theorem Orderly.giveUp (h : x.Orderly devices d₀) {c : DeviceConfig} {left : List DeviceConfig}
    (hstage : x.stage = .starting i c left) (hi : x.world.stations[i]? = some st) {cause : StartError}
    (hcause : st.server.failure? = some cause) :
    Orderly devices d₀ { x with stage := .abandoning ⟨c.server.socketPath, cause⟩ 0 } := by
  obtain ⟨before, hdevices, hserved, hlength, hconfig, hself, hothers⟩ := h.launched hstage hi
  have hfailed : st.server.Failed := by
    rcases hself.1 with hrising | hup | hfailed
    · nomatch hrising.failure?_eq.symm.trans hcause
    · nomatch hup.failure?_eq.symm.trans hcause
    · exact hfailed
  obtain ⟨fault, hfault⟩ := hfailed.failure?_eq
  refine ⟨⟨before, c, left, fault, hdevices, hserved, ?_⟩, fun j st' (hj : x.world.stations[j]? = some st') => ?_, h.kempt⟩
  · rw [hcause, hconfig] at hfault
    rw [Option.some.inj hfault]
  · change Stands st' (Stage.standing x.world.stations.length (.abandoning _ 0) j)
    rw [Stage.standing]
    have hlt := (List.getElem?_eq_some_iff.1 hj).1
    by_cases hij : j = i
    · subst hij
      cases hi.symm.trans hj
      rw [if_neg (by omega)]
      exact hfailed
    · rw [if_pos (by omega), if_neg (Nat.not_lt_zero _)]
      exact hothers j st' hij hj

/-- A server was started, and the activity of its device begins. -/
theorem Orderly.animate (h : x.Orderly devices d₀) {c : DeviceConfig} {left : List DeviceConfig}
    (hstage : x.stage = .starting i c left) (hi : x.world.stations[i]? = some st) (hidle : st.server.call = .idle)
    (hstarted : st.server.failure? = none) :
    Orderly devices d₀ ⟨.serving left, Daemon.animate c.activity x.world i⟩ := by
  obtain ⟨before, hdevices, hserved, -, -, hself, hothers⟩ := h.launched hstage hi
  have hup : st.server.Up := by
    rcases hself.1 with hrising | hup | hfailed
    · rcases hrising.call_eq with hcall | hcall <;> nomatch hidle.symm.trans hcall
    · exact hup
    · obtain ⟨fault, hfault⟩ := hfailed.failure?_eq
      nomatch hstarted.symm.trans hfault
  exact h.change hi rfl (.unchanged rfl rfl) ⟨before ++ [c], by rw [hdevices, List.append_assoc]; rfl, hserved⟩
    ⟨hup, ⟨_, rfl⟩, hself.2⟩ hothers

/-- The stop of a server whose activity has ended keeps the daemon in order. -/
theorem Orderly.stop (h : x.Orderly devices d₀) (hcap : ∀ c ∈ devices, c.server.capacity ≤ Server.maxPermits)
    (hstage : x.stage = .calming i) (hi : x.world.stations[i]? = some st) (hrested : st.activity?.all (·.ended) = true) :
    Orderly devices d₀ ⟨.stopping i, x.world.setServer i st.server.requestStop x.world.disk⟩ := by
  obtain ⟨hroll, hstands⟩ := h.known hstage
  obtain ⟨hup, ⟨a, ha⟩, -⟩ : Stands st .live := by
    have hself := hstands i st hi
    rwa [Stage.standing, if_neg (Nat.lt_irrefl _)] at hself
  have hsinking := hup.stop (h.capacity_le hcap hi)
  rw [ha, Option.all_some] at hrested
  refine h.change hi ?_ (Server.socketStep_requestStop _ _) ⟨hroll, ?_⟩ ?_ fun j st' hne hj => ?_
  · exact (Server.course_stop st.server x.world.disk).config_eq
  · rw [served, List.length_map]
    exact (List.getElem?_eq_some_iff.1 hi).1
  · rw [Stage.standing, if_neg (Nat.lt_irrefl _), if_pos rfl]
    exact ⟨Or.inl hsinking, a, ha, hrested⟩
  · have hother := hstands j st' hj
    rw [Stage.standing] at hother
    rwa [Stage.standing, if_neg hne]

/-- When a server has stopped, the daemon goes on to the next one. -/
theorem Orderly.stopped (h : x.Orderly devices d₀) (hstage : x.stage = .stopping i) (hi : x.world.stations[i]? = some st)
    (hidle : st.server.call = .idle) : Orderly devices d₀ { x with stage := .calming (i + 1) } := by
  obtain ⟨hroll, hstands⟩ := h.known hstage
  refine ⟨hroll.1, fun j st' hj => ?_, h.kempt⟩
  have hj' := hstands j st' hj
  change Stands st' (if j < i + 1 then .settled else .live)
  rw [Stage.standing] at hj'
  by_cases hlt : j < i
  · rw [if_pos hlt] at hj'
    rw [if_pos (Nat.lt_succ_of_lt hlt)]
    exact hj'
  · rw [if_neg hlt] at hj'
    by_cases hij : j = i
    · subst hij
      cases hi.symm.trans hj
      rw [if_pos rfl] at hj'
      obtain ⟨hsinking | hdown, hrested⟩ := hj'
      · have hstops := hsinking.stops
        rw [hidle] at hstops
        nomatch hstops
      · rw [if_pos (Nat.lt_succ_self j)]
        exact ⟨hdown, hrested⟩
    · rw [if_neg hij] at hj'
      rw [if_neg (by omega)]
      exact hj'

/-- When no server is left to be stopped, the daemon ends. -/
theorem Orderly.dissolve (h : x.Orderly devices d₀) (hstage : x.stage = .calming i) (hi : x.world.stations[i]? = none) :
    Orderly devices d₀ { x with stage := .ended none } := by
  obtain ⟨hroll, hstands⟩ := h.known hstage
  refine ⟨hroll, fun j st (hj : x.world.stations[j]? = some st) => ?_, h.kempt⟩
  have hlt := (List.getElem?_eq_some_iff.1 hj).1
  have hle := List.getElem?_eq_none_iff.1 hi
  have hj' := hstands j st hj
  rwa [Stage.standing, if_pos (by omega)] at hj'

/-- To let go of a server when a launch has failed keeps the daemon in order. -/
theorem Orderly.letGo (h : x.Orderly devices d₀) {failure : Failure} (hstage : x.stage = .abandoning failure i)
    (hi : x.world.stations[i]? = some st) :
    Orderly devices d₀ ⟨.abandoning failure (i + 1), x.world.letGo i st.server⟩ := by
  obtain ⟨hroll, hstands⟩ := h.known hstage
  have hself := hstands i st hi
  have hidle : st.server.call = .idle := by
    rw [Stage.standing, if_neg (Nat.lt_irrefl i)] at hself
    split at hself
    · exact hself.1.call_eq
    · exact Server.Failed.call_eq hself
  refine h.change hi ?_ (Server.socketStep_discard hidle _) hroll ?_ fun j st' hne hj => ?_
  · exact (Server.course_discard st.server x.world.disk).config_eq
  · rw [Stage.standing, if_neg (Nat.lt_irrefl i)] at hself
    rw [Stage.standing, if_pos (Nat.lt_succ_self i)]
    split at hself
    · rw [if_pos ‹_›]
      exact hself.1.discard x.world.disk
    · rw [if_neg ‹_›]
      have hsame := Server.Failed.discard_eq hself x.world.disk
      rw [hsame]
      exact hself
  · have hiff : j < i + 1 ↔ j < i := ⟨fun hlt => by omega, Nat.lt_succ_of_lt⟩
    have hj' := hstands j st' hj
    rw [Stage.standing] at hj'
    rw [Stage.standing]
    simp only [hiff]
    exact hj'

/-- When no server is left to be let go, the daemon ends with the failure. -/
theorem Orderly.withdraw (h : x.Orderly devices d₀) {failure : Failure} (hstage : x.stage = .abandoning failure i)
    (hi : x.world.stations[i]? = none) : Orderly devices d₀ { x with stage := .ended (some failure) } := by
  obtain ⟨hroll, hstands⟩ := h.known hstage
  refine ⟨hroll, fun j st (hj : x.world.stations[j]? = some st) => ?_, h.kempt⟩
  have hlt := (List.getElem?_eq_some_iff.1 hj).1
  have hle := List.getElem?_eq_none_iff.1 hi
  have hj' := hstands j st hj
  rw [Stage.standing, if_pos (Nat.lt_of_lt_of_le hlt hle)] at hj'
  exact hj'

/-! ## What happens meanwhile -/

/-- A signal makes the daemon stop its servers, the first one first. -/
theorem Orderly.signal (h : x.Orderly devices d₀) (hstage : x.stage = .waiting) :
    Orderly devices d₀ { x with stage := .calming 0 } := by
  obtain ⟨hroll, hstands⟩ := h.known hstage
  exact ⟨hroll, hstands, h.kempt⟩

/-- The end of an activity that is told to end keeps the daemon in order. -/
theorem Orderly.obey (h : x.Orderly devices d₀) (hstage : x.stage = .calming i) :
    Orderly devices d₀ { x with world := calm x.world i } := by
  cases hi : x.world.stations[i]? with
  | none =>
    rw [calm_of_none hi]
    exact h
  | some st =>
    have hself := h.stands i st hi
    rw [hstage, Stage.standing, if_neg (Nat.lt_irrefl i)] at hself
    refine h.still hi rfl (.unchanged rfl rfl) ?_
    rw [hstage, Stage.standing, if_neg (Nat.lt_irrefl i)]
    obtain ⟨hup, ⟨a, ha⟩, howned⟩ := hself
    exact ⟨hup, ⟨a.obey x.world.clock .shutdown, by rw [ha]; rfl⟩, howned⟩

/-- A bind that fails keeps the daemon in order. -/
theorem Orderly.refuse (h : x.Orderly devices d₀) (hi : x.world.stations[i]? = some st) (hcall : st.server.call = .binding)
    (fault : IoFault) :
    Orderly devices d₀ { x with
      world := x.world.setServer i (st.server.refuse fault) (x.world.disk.remove st.server.config.socketPath) } := by
  have hst := h.stands i st hi
  obtain ⟨hk, hrising⟩ := hst.binding hcall
  refine h.still hi rfl (Server.socketStep_refuse hcall _ fault) ?_
  rw [hk] at hst ⊢
  exact ⟨Or.inr (Or.inr (hrising.refuse fault)), hst.2⟩

/-- What goes on by itself at a station. -/
theorem Orderly.routine (h : x.Orderly devices d₀) (hcap : ∀ c ∈ devices, c.server.capacity ≤ Server.maxPermits)
    (hi : x.world.stations[i]? = some st) {e : Server.Event} (hroutine : e.isRoutine = true)
    (he : st.server.after? x.world.disk e = some (s', d')) (hg : GoesOn st.activity? activity?)
    (hf : f st = { st with server := s', activity? }) :
    Orderly devices d₀ { x with world := { x.world with disk := d' }.updateStation i f } := by
  have hst := h.stands i st hi
  have hc := h.capacity_le hcap hi
  refine h.still hi ?_ ?_ ?_
  · rw [hf]
    exact (Server.course_after? he).config_eq
  · rw [hf]
    exact Server.socketStep hc hst.quiet hroutine he
  · rw [hf]
    exact hst.routine hc hroutine he hg

/-- The passing of time keeps the daemon in order. -/
theorem Orderly.wait (h : x.Orderly devices d₀) (hcap : ∀ c ∈ devices, c.server.capacity ≤ Server.maxPermits) (ms : Nat) :
    Orderly devices d₀ { x with world := x.world.pass ms } where
  roll := by
    have hsame : served (x.world.pass ms) = served x.world := by simp [served, World.pass, Station.pass]
    rw [hsame]
    exact h.roll
  stands i st' hi := by
    obtain ⟨st, hst, rfl⟩ := Option.map_eq_some_iff.1 (List.getElem?_map.symm.trans hi)
    have hwaits : st.server.after? x.world.disk (.wait ms) = some (_, x.world.disk) := rfl
    have hlength : (x.world.pass ms).stations.length = x.world.stations.length := List.length_map _
    rw [hlength]
    exact (h.stands i st hst).routine (h.capacity_le hcap hst) rfl hwaits (Or.inl rfl)
  kempt := by
    refine h.kempt.congr rfl fun i => ?_
    rw [World.pass, List.getElem?_map, Option.map_map]
    rfl

/-- Every event leaves the daemon in order. -/
theorem Orderly.step (h : x.Orderly devices d₀) (hcap : ∀ c ∈ devices, c.server.capacity ≤ Server.maxPermits)
    (he : x.after? e = some x') : x'.Orderly devices d₀ := by
  cases step_of_after? he with
  | ready hstage => exact h.ready hstage
  | launch hstage => exact h.launch hcap hstage
  | giveUp hstage hi hcause => exact h.giveUp hstage hi hcause
  | animate hstage hi hidle hstarted => exact h.animate hstage hi hidle hstarted
  | stop hstage hi hrested => exact h.stop hcap hstage hi hrested
  | dissolve hstage hi => exact h.dissolve hstage hi
  | stopped hstage hi hidle => exact h.stopped hstage hi hidle
  | letGo hstage hi => exact h.letGo hstage hi
  | withdraw hstage hi => exact h.withdraw hstage hi
  | signal hstage => exact h.signal hstage
  | obey hstage => exact h.obey hstage
  | refuse _ hi hcall => exact h.refuse hi hcall _
  | @server i e _ _ _ htraffic hi hs =>
    have hroutine : e.isRoutine = true := by cases e <;> first | rfl | cases htraffic
    exact h.routine hcap hi hroutine hs (Or.inl rfl) rfl
  | @tick i st a t hi ha ht =>
    obtain ⟨hrests, -⟩ := Option.ite_none_left_eq_some.1 ht
    have hgoes : a.ended = false := (Bool.or_eq_false_iff.1 (Bool.eq_false_iff.2 hrests)).1
    have hticks : st.server.after? x.world.disk (.tick a.rng) = some (_, x.world.disk) := rfl
    exact h.routine hcap hi rfl hticks (Or.inr ⟨a, _, ha, hgoes, rfl⟩) rfl
  | wait => exact h.wait hcap _

/-- At every moment of a run the daemon is in order. -/
theorem orderly_run {s : Settings} {events : List Event} (hcap : ∀ c ∈ s.devices, c.server.capacity ≤ Server.maxPermits)
    (d : Disk) (hr : (start s d).run? events = some x) : x.Orderly s.devices d :=
  run_preserves (P := Orderly s.devices d) (fun h he => h.step hcap he) (orderly_start s d) hr

end Scene

end Peripheral.Daemon
