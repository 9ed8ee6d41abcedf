import Peripheral.Proofs.Daemon.Order

/-!
# The daemon as it is run

What a world does when everything happens in it that can is one of the many orders in which it may happen (`leads_settle`),
and so is what it does while time passes (`leads_await`). Booting the daemon is therefore a run of it, to the end if a device
cannot be served (`boot_leads`), and so is its shutdown if no stop takes longer than until the last instant
(`shutdown_leads`).
-/

namespace Peripheral

/-! ## Clocks -/

namespace Server

variable {δ : Type} {s s' : Server δ} {d d' : Disk}

theorem clock_discard (s : Server δ) (d : Disk) : (s.discard d).1.hub.clock = s.hub.clock := by
  rw [discard]
  split <;> rfl

theorem clock_requestStop (s : Server δ) : s.requestStop.hub.clock = s.hub.clock := by
  rw [requestStop]
  split <;> rfl

theorem clock_advanceGate (hs : s.advanceGate d = some (s', d')) : s'.hub.clock = s.hub.clock := by
  rw [advanceGate] at hs
  split at hs
  · obtain ⟨-, heq⟩ := Option.ite_none_right_eq_some.1 hs
    cases heq
    rfl
  · obtain ⟨s₁, hin, heq⟩ := Option.map_eq_some_iff.1 hs
    cases heq
    rw [letIn] at hin
    split at hin
    · cases hin
    · cases hin
      rfl
  · obtain ⟨-, heq⟩ := Option.ite_none_right_eq_some.1 hs
    cases heq
    rfl
  · cases hs

theorem clock_advanceRelay [Service δ] {order : List Peer} (hs : s.advanceRelay order = some s') :
    s'.hub.clock = s.hub.clock := by
  rw [advanceRelay] at hs
  split at hs
  · obtain ⟨-, htake⟩ := Option.ite_none_right_eq_some.1 hs
    obtain ⟨⟨id, queue⟩, -, heq⟩ := Option.map_eq_some_iff.1 htake
    cases heq
    rfl
  · obtain ⟨-, heq⟩ := Option.ite_none_right_eq_some.1 hs
    cases heq
    rfl
  · cases hs

theorem clock_closeRelay (hs : s.closeRelay = some s') : s'.hub.clock = s.hub.clock := by
  obtain ⟨-, hs⟩ := Option.ite_none_right_eq_some.1 hs
  split at hs
  · cases hs
    rfl
  · cases hs
    rw [Hub.cutShort]
    split <;> rfl
  · cases hs

theorem clock_attend {handler : Nat} (hs : s.attend handler = some s') : s'.hub.clock = s.hub.clock := by
  rw [attend] at hs
  split at hs
  · dsimp only at hs
    split at hs
    · obtain ⟨-, heq⟩ := Option.ite_none_right_eq_some.1 hs
      cases heq
      rfl
    · cases hs
    · cases hs
      rfl
    · cases hs
      rfl
  · cases hs

theorem clock_bind (s : Server δ) (d : Disk) : (s.bind d).1.hub.clock = s.hub.clock := by
  rw [bind]
  split
  · rfl
  · split <;> rfl

theorem clock_advanceCall {order : List Peer} (hs : s.advanceCall d order = some (s', d')) :
    s'.hub.clock = s.hub.clock := by
  rw [advanceCall] at hs
  split at hs
  · cases hs
  · obtain ⟨-, heq⟩ := Option.ite_none_right_eq_some.1 hs
    cases heq
    rfl
  · obtain ⟨-, hs⟩ := Option.ite_none_right_eq_some.1 hs
    split at hs <;> (cases hs; rfl)
  · cases hs
    rfl
  · have hbound : (s.bind d).1 = s' := congrArg Prod.fst (Option.some.inj hs)
    exact hbound ▸ clock_bind s d

variable [Service δ]

/-- Time does not pass while the tasks of a server go on. -/
theorem clock_move {m : Move} (hm : s.move? d m = some (s', d')) : s'.hub.clock = s.hub.clock := by
  cases m with
  | hub m =>
    obtain ⟨hub, hmove, heq⟩ := Option.map_eq_some_iff.1 hm
    cases heq
    obtain ⟨a, b, h, -, hstep, rfl⟩ := Hub.taskStep_of_move? hmove
    exact hstep.clock_eq
  | gate => exact clock_advanceGate hm
  | gateHeeds =>
    obtain ⟨s₁, hclose, heq⟩ := Option.map_eq_some_iff.1 hm
    cases heq
    obtain ⟨-, heq⟩ := Option.ite_none_right_eq_some.1 hclose
    cases heq
    rfl
  | gateFails order =>
    obtain ⟨s₁, hfail, heq⟩ := Option.map_eq_some_iff.1 hm
    cases heq
    obtain ⟨-, heq⟩ := Option.ite_none_right_eq_some.1 hfail
    cases heq
    rfl
  | relay order =>
    obtain ⟨s₁, hrelay, heq⟩ := Option.map_eq_some_iff.1 hm
    cases heq
    exact clock_advanceRelay hrelay
  | relayHeeds =>
    obtain ⟨s₁, hclose, heq⟩ := Option.map_eq_some_iff.1 hm
    cases heq
    exact clock_closeRelay hclose
  | attend handler =>
    obtain ⟨s₁, hattend, heq⟩ := Option.map_eq_some_iff.1 hm
    cases heq
    exact clock_attend hattend
  | caller order => exact clock_advanceCall hm

/-- Time does not pass while a server goes on or its clients act. -/
theorem clock_traffic {e : Event} (htraffic : Daemon.isTraffic e = true) (he : s.after? d e = some (s', d')) :
    s'.hub.clock = s.hub.clock := by
  cases e with
  | move m => exact clock_move he
  | arrive ticket link =>
    obtain ⟨-, heq⟩ := Option.ite_none_right_eq_some.1 he
    cases heq
    rfl
  | client ticket act =>
    cases he
    rw [updateLink]
    split <;> rfl
  | start | stop | discard | trigger | offer | wait | tick | disk => cases htraffic

end Server

namespace World

variable {δ : Type} {w : World δ} {i : Nat} {st : Station δ} {f : Station δ → Station δ}

/-- Everybody has the same time. -/
def Synced (w : World δ) : Prop :=
  ∀ (i : Nat) (st : Station δ), w.stations[i]? = some st → st.server.hub.clock = w.clock

/-- A change of one station that takes no time keeps the clocks together. -/
theorem Synced.update (h : w.Synced) (hi : w.stations[i]? = some st)
    (hclock : (f st).server.hub.clock = st.server.hub.clock) (d : Disk) : ({ w with disk := d }.updateStation i f).Synced := by
  intro j st' hj
  rcases station_cases hi hj with ⟨rfl, rfl⟩ | ⟨-, hj⟩
  · exact hclock.trans (h j st hi)
  · exact h j st' hj

/-- Where everybody has the same time, a later instant is reached by letting time pass for everybody. -/
theorem Synced.moveTo_eq_pass (h : w.Synced) {now : Nat} (hle : w.clock ≤ now) : w.moveTo now = w.pass (now - w.clock) := by
  have hclock : w.clock + (now - w.clock) = now := by omega
  rw [moveTo, pass, hclock]
  congr 1
  refine List.map_congr_left fun st hst => ?_
  obtain ⟨i, hi⟩ := List.getElem?_of_mem hst
  rw [Station.pass, h i st hi, hclock]

end World

namespace Daemon.Scene

variable {x x' x'' : Scene} {i : Nat} {st : Station Model} {e : Event}

/-- Whatever happens, everybody has the same time. -/
theorem synced_after? (h : x.world.Synced) (he : x.after? e = some x') : x'.world.Synced := by
  cases step_of_after? he with
  | ready | giveUp | dissolve | stopped | withdraw | signal => exact h
  | launch =>
    intro j st hj
    rcases World.getElem?_append_cases hj with hj | ⟨-, rfl⟩
    · exact h j st hj
    · rfl
  | animate _ hi | refuse _ hi | tick hi => exact h.update hi rfl _
  | stop _ hi => exact h.update hi (Server.clock_requestStop _) _
  | letGo _ hi => exact h.update hi (Server.clock_discard _ _) _
  | @obey i =>
    cases hi : x.world.stations[i]? with
    | none =>
      rw [calm_of_none hi]
      exact h
    | some st => exact h.update hi rfl _
  | server htraffic hi hs => exact h.update hi (Server.clock_traffic htraffic hs) _
  | wait =>
    intro j st' hj
    obtain ⟨st, hst, rfl⟩ := Option.map_eq_some_iff.1 (List.getElem?_map.symm.trans hj)
    exact congrArg (· + _) (h j st hst)

/-! ## Letting everything happen -/

/-- A run leads from one to the other. -/
def Leads (x x' : Scene) : Prop := ∃ events, x.run? events = some x'

theorem Leads.refl (x : Scene) : x.Leads x := ⟨[], rfl⟩

theorem Leads.trans (h : x.Leads x') (h' : x'.Leads x'') : x.Leads x'' := by
  obtain ⟨events, hr⟩ := h
  obtain ⟨more, hmore⟩ := h'
  exact ⟨events ++ more, run?_append hr hmore⟩

theorem Leads.single (he : x.after? e = some x') : x.Leads x' := ⟨[e], run?_cons he rfl⟩

/-- Whatever happens keeps the clocks together. -/
theorem Leads.synced (h : x.Leads x') (hs : x.world.Synced) : x'.world.Synced := by
  obtain ⟨events, hr⟩ := h
  exact run_preserves (P := fun x => x.world.Synced) synced_after? hs hr

section

variable (stage : Stage) (w : World Model) (before after : List (Station Model))

theorem modify_append_cons {α : Type} (xs : List α) (x : α) (ys : List α) (f : α → α) :
    (xs ++ x :: ys).modify xs.length f = xs ++ f x :: ys := by
  induction xs with
  | nil => rfl
  | cons y xs ih => simp only [List.cons_append, List.length_cons, List.modify_succ_cons, ih]

/-- The tasks of a server go on in whatever order they are tried. -/
theorem leads_settleWithin (st : Station Model) (d : Disk) (n : Nat) (s : Server Model) :
    Leads ⟨stage, { w with stations := before ++ { st with server := s } :: after, disk := d }⟩
      ⟨stage, { w with
        stations := before ++ { st with server := (s.settleWithin n d).1 } :: after, disk := (s.settleWithin n d).2 }⟩ := by
  induction n generalizing s d with
  | zero => exact .refl _
  | succ n ih =>
    rw [Server.settleWithin]
    cases hnext : s.next? d with
    | none => exact .refl _
    | some r =>
      obtain ⟨s', d'⟩ := r
      obtain ⟨m, -, hm⟩ := List.exists_of_findSome?_eq_some hnext
      refine Leads.trans (Leads.single (e := .server before.length (.move m)) ?_) (ih d' s')
      have hm' : s.after? d (.move m) = some (s', d') := hm
      simp [after?, isTraffic, hm', World.setServer, World.updateStation, modify_append_cons]

/-- The ticks that are due are made one after the other. -/
theorem leads_elapseWithin (st : Station Model) (n : Nat) (a : Activity) (s : Server Model) :
    Leads ⟨stage, { w with stations := before ++ { st with server := s, activity? := some a } :: after }⟩
      ⟨stage, { w with stations := before ++ { st with
        activity? := some (a.elapseWithin w.clock n s.hub.device s.queue).1
        server := { s with
          queue := (a.elapseWithin w.clock n s.hub.device s.queue).2.2
          hub := { s.hub with device := (a.elapseWithin w.clock n s.hub.device s.queue).2.1 } } } :: after }⟩ := by
  induction n generalizing a s with
  | zero => exact .refl _
  | succ n ih =>
    rw [Activity.elapseWithin]
    cases hnext : a.nextTick? with
    | none => exact .refl _
    | some t =>
      by_cases hdue : t ≤ w.clock
      · simp only [if_pos hdue]
        refine Leads.trans (Leads.single (e := .tick before.length) ?_)
          (ih (a.tick s.hub.device s.queue).1 { s with
            queue := (a.tick s.hub.device s.queue).2.2
            hub := { s.hub with device := (a.tick s.hub.device s.queue).2.1 } })
        simp [after?, hnext, hdue, World.updateStation, modify_append_cons]
      · simp only [if_neg hdue]
        exact .refl _

/-- A tick of one station that is due is something that can happen. -/
theorem leads_tickAt (st : Station Model) :
    Leads ⟨stage, { w with stations := before ++ st :: after }⟩
      ⟨stage, { w with stations := before ++ st.tickAt w.clock :: after }⟩ := by
  rw [Station.tickAt]
  cases ha : st.activity? with
  | none => exact .refl _
  | some a =>
    have hst : st = { st with server := st.server, activity? := some a } := by rw [← ha]
    have hticks := leads_elapseWithin stage w before after st (w.clock + 1 - a.due) a st.server
    rw [← hst] at hticks
    exact hticks

/-- When the stations settle one after the other, everything that they do can happen. -/
theorem leads_settleStations (d : Disk) :
    Leads ⟨stage, { w with stations := before ++ after, disk := d }⟩
      ⟨stage, { w with
        stations := before ++ (World.settleStations w.clock d after).1
        disk := (World.settleStations w.clock d after).2 }⟩ := by
  induction after generalizing before d with
  | nil => exact .refl _
  | cons st rest ih =>
    have hticks := leads_tickAt stage { w with disk := d } before rest st
    have hmoves := leads_settleWithin stage w before rest (st.tickAt w.clock) d (st.tickAt w.clock).server.effort
      (st.tickAt w.clock).server
    have hrest := ih (before ++ [{ st.tickAt w.clock with server := ((st.tickAt w.clock).server.settle d).1 }])
      ((st.tickAt w.clock).server.settle d).2
    rw [List.append_assoc, List.append_assoc] at hrest
    exact hticks.trans (hmoves.trans hrest)

end

/-- Letting everything happen that can is one of the orders in which it may happen. -/
theorem leads_settle (x : Scene) : x.Leads { x with world := x.world.settle } :=
  leads_settleStations x.stage x.world [] x.world.stations x.world.disk

/-- Letting time pass until something holds is a run. -/
theorem leads_awaitWithin (holds : World Model → Bool) (limit n : Nat) (hs : x.world.Synced) :
    x.Leads { x with world := World.awaitWithin holds limit n x.world } := by
  induction n generalizing x with
  | zero => exact leads_settle x
  | succ n ih =>
    have hsettle := leads_settle x
    rw [World.awaitWithin]
    split
    · exact hsettle
    · split
      · exact hsettle
      · rename_i t _
        split
        · exact hsettle
        · have hsynced := hsettle.synced hs
          have hle : x.world.settle.clock ≤ max t (x.world.settle.clock + 1) := by omega
          have hpass := hsynced.moveTo_eq_pass hle
          have hwait := Leads.single (x := { x with world := x.world.settle })
            (e := .wait (max t (x.world.settle.clock + 1) - x.world.settle.clock)) rfl
          have hon := hsettle.trans hwait
          rw [hpass]
          exact hon.trans (ih (hon.synced hs))

/-- To wait until something holds is something that can happen. -/
theorem leads_await (hs : x.world.Synced) (holds : World Model → Bool) :
    x.Leads { x with world := x.world.await holds } :=
  leads_awaitWithin holds _ _ hs

/-! ## Booting -/

variable {w : World Model}

/-- The server that is being started for a device. -/
def asked (c : DeviceConfig) (w : World Model) : Server Model :=
  { w.newcomer c.server c.model.build with call := .preparing }

/-- To launch a device is to ask for a server and to wait until the request has ended. -/
theorem launch_snd (c : DeviceConfig) (w : World Model) :
    (launch c w).2 = (w.append (asked c w)).await fun w' => (w'.server? w.stations.length).all (·.call == .idle) := by
  have hadd : w.add c.server c.model.build = w.append (w.newcomer c.server c.model.build) := rfl
  have hask : (w.newcomer c.server c.model.build).requestStart = .ok (asked c w) := rfl
  rw [launch, World.startServer, hadd, World.server?_append]
  simp only [hask, World.updateServer_append]
  split <;> rfl

/-- One more device is served, or not. -/
theorem launch_leads (c : DeviceConfig) (left : List DeviceConfig) (hsteady : w.Steady) (hsynced : w.Synced) :
    Leads ⟨.serving (c :: left), w⟩
      (match (launch c w).1 with
      | .error cause => ⟨.abandoning ⟨c.server.socketPath, cause⟩ 0, (launch c w).2⟩
      | .ok () => ⟨.serving left, animate c.activity (launch c w).2 w.stations.length⟩) := by
  have hbegin : Leads ⟨.serving (c :: left), w⟩ ⟨.starting w.stations.length c left, w.append (asked c w)⟩ :=
    .single (e := .advance) rfl
  have hawait := leads_await (hbegin.synced hsynced) fun w' => (w'.server? w.stations.length).all (·.call == .idle)
  refine (hbegin.trans hawait).trans ?_
  rw [← launch_snd]
  obtain ⟨server, hjoined⟩ := hsteady.joined c.server c.model.build
  have hresult : (launch c w).1 = _ := hjoined.result_eq
  obtain ⟨st, hst, howned⟩ := Option.bind_eq_some_iff.1 hjoined.server?_eq
  obtain ⟨-, heq⟩ := Option.ite_none_right_eq_some.1 howned
  have hstation : (launch c w).2.stations[w.stations.length]? = some st := hst
  have hidle : st.server.call = .idle := (hjoined.steady st (List.mem_of_getElem? hst)).call_eq
  cases heq
  cases hfailure : st.server.failure? with
  | none =>
    rw [hresult, hfailure]
    exact .single (e := .advance) (by simp [after?, advance?, hstation, hidle, hfailure])
  | some cause =>
    rw [hresult, hfailure]
    exact .single (e := .advance) (by simp [after?, advance?, hstation, hidle, hfailure])

/-- To launch devices one after the other is something that can happen, up to the first that fails. -/
theorem startAll_leads (cs : List DeviceConfig) (hsteady : w.Steady) (hsynced : w.Synced) :
    Leads ⟨.serving cs, w⟩
      ⟨match (startAll cs w).1 with | none => .waiting | some f => .abandoning f 0, (startAll cs w).2⟩ := by
  induction cs generalizing w with
  | nil => exact .single (e := .advance) rfl
  | cons c rest ih =>
    have hlaunch := launch_leads c rest hsteady hsynced
    obtain ⟨server, hjoined⟩ := hsteady.joined c.server c.model.build
    have hagain : (launch c w).2.Steady := hjoined.steady
    cases hr : launch c w with
    | mk result world =>
      rw [hr] at hlaunch hagain
      rw [launch] at hr
      rw [startAll]
      simp only [hr]
      cases result with
      | error cause => exact hlaunch
      | ok _ => exact hlaunch.trans (ih (steady_animate hagain _ _) (hlaunch.synced hsynced))

theorem length_settle (w : World Model) : w.settle.stations.length = w.stations.length :=
  World.length_settleStations w.clock w.stations

/-- A server is let go of, and then everything happens that can. -/
theorem dropServer_leads {devices : List DeviceConfig} {d₀ : Disk} {f : Failure}
    (h : Orderly devices d₀ ⟨.abandoning f i, w⟩) (hi : w.stations[i]? = some st) :
    Leads ⟨.abandoning f i, w⟩ ⟨.abandoning f (i + 1), w.dropServer i⟩ ∧
      (w.dropServer i).stations.length = w.stations.length := by
  have hletGo : Leads ⟨.abandoning f i, w⟩ ⟨.abandoning f (i + 1), w.letGo i st.server⟩ :=
    .single (e := .advance) (by simp only [after?, advance?, hi])
  rw [World.dropServer, World.server?, hi]
  cases howned : st.isOwned with
  | true =>
    simp only [Option.bind_some, howned, if_true]
    refine ⟨hletGo.trans (leads_settle _), ?_⟩
    rw [length_settle, World.length_updateStation]
  | false =>
    -- Only the server that could not be started may have been let go of, and to let go of it again is no matter.
    have hfailed : st.server.Failed := by
      have hstands : Stands st (Stage.standing w.stations.length (.abandoning f i) i) := h.stands i st hi
      rw [Stage.standing, if_neg (Nat.lt_irrefl i)] at hstands
      split at hstands
      · cases howned.symm.trans hstands.2.2
      · exact hstands
    have hsame : w.letGo i st.server = w := by
      rw [World.letGo, hfailed.discard_eq]
      refine (World.updateStation_congr (w := w) hi (g := id) (by rw [← howned, id])).trans ?_
      rw [World.updateStation, List.modify_id]
    rw [hsame] at hletGo
    simp only [Option.bind_some, howned, Bool.false_eq_true, if_false]
    exact ⟨hletGo, trivial⟩

/-- Letting go of all servers, one after the other, is a run to the end. -/
theorem abandon_leads {devices : List DeviceConfig} {d₀ : Disk} {f : Failure}
    (hcap : ∀ c ∈ devices, c.server.capacity ≤ Server.maxPermits) (h : Orderly devices d₀ ⟨.abandoning f i, w⟩)
    {m : Nat} (hm : i + m = w.stations.length) :
    Leads ⟨.abandoning f i, w⟩ ⟨.ended (some f), (List.range' i m).foldl (·.dropServer ·) w⟩ := by
  induction m generalizing i w with
  | zero =>
    have hnone : w.stations[i]? = none := List.getElem?_eq_none (Nat.le_of_eq hm.symm)
    exact .single (e := .advance) (by simp [after?, advance?, hnone])
  | succ m ih =>
    have hi : w.stations[i]? = some _ := List.getElem?_eq_getElem (by omega)
    obtain ⟨⟨events, hr⟩, hlength⟩ := dropServer_leads h hi
    have hnext := run_preserves (P := Orderly devices d₀) (fun h he => h.step hcap he) h hr
    rw [List.range'_succ]
    exact Leads.trans ⟨events, hr⟩ (ih hnext (by omega))

/-- Booting the daemon is a run of it. -/
theorem boot_leads {s : Settings} (hcap : ∀ c ∈ s.devices, c.server.capacity ≤ Server.maxPermits) (d : Disk) :
    (start s d).Leads
      ⟨match (boot s (.start d)).1 with | .ok () => .waiting | .error f => .ended (some f), (boot s (.start d)).2⟩ := by
  have hsynced : (World.start d : World Model).Synced := fun _ _ hi => nomatch hi
  have hall := startAll_leads s.devices (steady_start d) hsynced
  rw [boot]
  cases hstart : startAll s.devices (.start d) with
  | mk failure? w =>
    rw [hstart] at hall
    cases failure? with
    | none => exact hall.trans (leads_settle _)
    | some f =>
      have habandon : Leads ⟨.abandoning f 0, w⟩ ⟨.ended (some f), abandon w⟩ := by
        obtain ⟨events, hr⟩ := hall
        rw [abandon, List.range_eq_range']
        exact abandon_leads hcap (orderly_run hcap d hr) (Nat.zero_add _)
      exact hall.trans habandon

/-! ## Shutting down -/

/-- Whether every stop comes to its end when servers are stopped one after the other. -/
def StopsEnd (w : World Model) : List Nat → Prop
  | [] => True
  | i :: rest =>
    let w' := (calm w i).stopServer i
    (∃ s, w'.server? i = some s ∧ s.call = .idle) ∧ StopsEnd w' rest

/-- When its activity has been told to end, a device's server is asked to stop at once. -/
theorem after?_calm (hi : w.stations[i]? = some st) :
    after? ⟨.calming i, calm w i⟩ .advance =
      some ⟨.stopping i, (calm w i).setServer i st.server.requestStop (calm w i).disk⟩ := by
  have hcalmed : (calm w i).stations[i]? = some _ := World.getElem?_updateStation_self hi _
  have hrested : (st.activity?.map (·.obey w.clock .shutdown)).all (·.ended) = true := by
    cases st.activity? <;> rfl
  simp [after?, advance?, hcalmed, hrested]

/-- Ending the activity of a device and then stopping its server is a run. -/
theorem stopServer_leads (hsynced : w.Synced) (hi : w.stations[i]? = some st)
    (hends : ∃ s, ((calm w i).stopServer i).server? i = some s ∧ s.call = .idle) :
    Leads ⟨.calming i, w⟩ ⟨.calming (i + 1), (calm w i).stopServer i⟩ := by
  have hobey : Leads ⟨.calming i, w⟩ ⟨.calming i, calm w i⟩ := .single (e := .obey) rfl
  have hsame : (calm w i).setServer i st.server.requestStop (calm w i).disk = (calm w i).updateServer i (·.requestStop) :=
    World.updateStation_congr (w := calm w i) (World.getElem?_updateStation_self hi _) rfl
  have hasked := hobey.trans (.single (after?_calm hi))
  rw [hsame] at hasked
  have hawait := leads_await (hasked.synced hsynced) fun w => (w.server? i).all (·.call == .idle)
  refine (hasked.trans hawait).trans (.single (e := .advance) ?_)
  obtain ⟨s, hs, hidle⟩ := hends
  obtain ⟨st', hst', howned⟩ := Option.bind_eq_some_iff.1 hs
  obtain ⟨-, heq⟩ := Option.ite_none_right_eq_some.1 howned
  cases heq
  have hst'' : ((calm w i).updateServer i (·.requestStop)).await (fun w => (w.server? i).all (·.call == .idle)) =
    (calm w i).stopServer i := rfl
  simp [after?, advance?, hst'', hst', hidle]

theorem length_awaitWithin (holds : World Model → Bool) (limit n : Nat) (w : World Model) :
    (World.awaitWithin holds limit n w).stations.length = w.stations.length := by
  induction n generalizing w with
  | zero => exact length_settle w
  | succ n ih =>
    rw [World.awaitWithin]
    split
    · exact length_settle w
    · split
      · exact length_settle w
      · split
        · exact length_settle w
        · rw [ih, World.moveTo, List.length_map, length_settle]

theorem length_stopServer (w : World Model) (i : Nat) :
    ((calm w i).stopServer i).stations.length = w.stations.length := by
  rw [World.stopServer, World.await, length_awaitWithin, World.updateServer, World.length_updateStation, calm,
    World.length_updateStation]

/-- Ending to serve the devices, one after the other, is a run to the end if every stop comes to its own. -/
theorem stops_lead {m : Nat} (hsynced : w.Synced) (hm : i + m = w.stations.length)
    (hends : StopsEnd w (List.range' i m)) :
    Leads ⟨.calming i, w⟩ ⟨.ended none, (List.range' i m).foldl (fun w i => (calm w i).stopServer i) w⟩ := by
  induction m generalizing i w with
  | zero =>
    have hnone : w.stations[i]? = none := List.getElem?_eq_none (Nat.le_of_eq hm.symm)
    exact .single (e := .advance) (by simp [after?, advance?, hnone])
  | succ m ih =>
    have hi : w.stations[i]? = some _ := List.getElem?_eq_getElem (by omega)
    rw [List.range'_succ] at hends ⊢
    have hstop := stopServer_leads hsynced hi hends.1
    have hlength := length_stopServer w i
    exact hstop.trans (ih (hstop.synced hsynced) (by omega) hends.2)

/-- Shutting the daemon down is a run of it. -/
theorem shutdown_leads (hsynced : w.Synced) (hends : StopsEnd w (List.range w.stations.length)) :
    Leads ⟨.waiting, w⟩ ⟨.ended none, shutdown w⟩ := by
  have hsignal : Leads ⟨.waiting, w⟩ ⟨.calming 0, w⟩ := .single (e := .signal) rfl
  rw [List.range_eq_range'] at hends
  rw [shutdown, List.range_eq_range']
  exact hsignal.trans (stops_lead hsynced (Nat.zero_add _) hends)

end Daemon.Scene

end Peripheral
