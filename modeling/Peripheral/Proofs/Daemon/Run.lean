import Peripheral.Proofs.Daemon.Launch
import Peripheral.Proofs.Server.Standing

/-!
# Runs of the daemon

Everything that can happen to the daemon, as events: the next step of its own, if it waits for nothing (`Scene.advance?`); the
signal that tells it to end; what the servers and the activities of its devices do meanwhile, in any order; what clients do;
the passing of time; and a system that grants no socket. What each of them can do is said once, guards included (`Step`), and
proved of every event (`step_of_after?`). A run goes on after the daemon has ended, for as long as its tasks may still be at
work.
-/

namespace Peripheral

/-- Time passes at a station. -/
def Station.pass {δ : Type} (st : Station δ) (ms : Nat) : Station δ :=
  { st with server := { st.server with hub := { st.server.hub with clock := st.server.hub.clock + ms } } }

namespace World

variable {δ : Type}

/-- Time passes for everybody. -/
def pass (w : World δ) (ms : Nat) : World δ :=
  { w with clock := w.clock + ms, stations := w.stations.map (·.pass ms) }

/-- A station is still there when time has passed, and it has passed for it. -/
theorem getElem?_pass {w : World δ} {i : Nat} {st : Station δ} (h : w.stations[i]? = some st) (ms : Nat) :
    (w.pass ms).stations[i]? = some (st.pass ms) := by
  rw [pass, List.getElem?_map, h, Option.map_some]

/-- A server and the disk have changed. -/
def setServer (w : World δ) (i : Nat) (server : Server δ) (disk : Disk) : World δ :=
  { w with disk }.updateStation i fun st => { st with server }

/-- The owner of a server lets go of it. -/
def letGo (w : World δ) (i : Nat) (s : Server δ) : World δ :=
  { w with disk := (s.discard w.disk).2 }.updateStation i fun st =>
    { st with server := (s.discard w.disk).1, isOwned := false }

/-- A change of a station changes this station. -/
theorem getElem?_updateStation_self {w : World δ} {i : Nat} {st : Station δ} (h : w.stations[i]? = some st)
    (f : Station δ → Station δ) : (w.updateStation i f).stations[i]? = some (f st) := by
  simp [updateStation, h]

/-- A change of a station leaves the others alone. -/
theorem getElem?_updateStation_of_ne (w : World δ) {i j : Nat} (h : j ≠ i) (f : Station δ → Station δ) :
    (w.updateStation i f).stations[j]? = w.stations[j]? := by
  simp [updateStation, h.symm]

/-- Only what a change makes of the station itself matters. -/
theorem updateStation_congr {w : World δ} {i : Nat} {st : Station δ} (h : w.stations[i]? = some st)
    {f g : Station δ → Station δ} (heq : f st = g st) : w.updateStation i f = w.updateStation i g := by
  have hsame : w.stations.modify i f = w.stations.modify i g := by
    refine List.ext_getElem? fun j => ?_
    by_cases hij : i = j
    · subst hij
      simp [h, heq]
    · simp [hij]
  rw [updateStation, updateStation, hsame]

/-- A station of a world that a server was added to was there before, or is the new one. -/
theorem getElem?_append_cases {w : World δ} {server : Server δ} {i : Nat} {st : Station δ}
    (h : (w.append server).stations[i]? = some st) :
    w.stations[i]? = some st ∨ i = w.stations.length ∧ st = ⟨server, none, true⟩ := by
  by_cases hi : i < w.stations.length
  · rw [append, List.getElem?_append_left hi] at h
    exact Or.inl h
  · have hlt := (List.getElem?_eq_some_iff.1 h).1
    have hlast : i = w.stations.length := by
      rw [append, List.length_append, List.length_singleton] at hlt
      omega
    subst hlast
    rw [append, List.getElem?_concat_length] at h
    exact Or.inr ⟨rfl, (Option.some.inj h).symm⟩

theorem length_updateStation (w : World δ) (i : Nat) (f : Station δ → Station δ) :
    (w.updateStation i f).stations.length = w.stations.length := List.length_modify ..

end World

namespace Daemon

/-- How far the daemon has come. -/
inductive Stage
  /-- Some devices are yet to be served. -/
  | serving (left : List DeviceConfig)
  /-- The newest server, which has the given number, is being started for a device, and some devices are left. -/
  | starting (i : Nat) (c : DeviceConfig) (left : List DeviceConfig)
  /-- All devices are served until the signal comes. -/
  | waiting
  /-- The activity of a device is to end. -/
  | calming (i : Nat)
  /-- The server of a device is to stop. -/
  | stopping (i : Nat)
  /-- A device could not be served, and the servers from a number on are yet to be let go of. -/
  | abandoning (f : Failure) (i : Nat)
  | ended (failure? : Option Failure)
  deriving DecidableEq

/-- The daemon and the world that it is in. -/
structure Scene where
  stage : Stage
  world : World Model

/-- Something that happens to the daemon. -/
inductive Event
  /-- The daemon goes on. -/
  | advance
  /-- The daemon is told to end. -/
  | signal
  /-- The activity that is to end is told so. -/
  | obey
  /-- The system grants no socket to the server that is being started. -/
  | refuse (fault : IoFault)
  /-- The tasks of a server go on, or its clients act. -/
  | server (i : Nat) (e : Server.Event)
  /-- The tick of a device is due. -/
  | tick (i : Nat)
  | wait (ms : Nat)

/-- Whether an event of a server is up to its tasks or its clients. -/
def isTraffic : Server.Event → Bool
  | .move _ | .arrive _ _ | .client _ _ => true
  | _ => false

/-- Where there is no station, nobody can be calmed. -/
theorem calm_of_none {w : World Model} {i : Nat} (h : w.stations[i]? = none) : calm w i = w := by
  rw [calm, World.updateStation, List.modify_eq_self (List.getElem?_eq_none_iff.1 h)]

namespace Scene

/-- The daemon before it serves any device. -/
def start (s : Settings) (d : Disk) : Scene := ⟨.serving s.devices, .start d⟩

/-- The daemon goes on, if it waits for nothing. -/
def advance? (x : Scene) : Option Scene :=
  match x.stage with
  | .serving [] => some { x with stage := .waiting }
  | .serving (c :: left) =>
    (x.world.newcomer c.server c.model.build).requestStart.toOption.map fun server =>
      ⟨.starting x.world.stations.length c left, x.world.append server⟩
  | .starting i c left =>
    x.world.stations[i]?.bind fun st =>
      if st.server.call = .idle then
        match st.server.failure? with
        | some cause => some { x with stage := .abandoning ⟨c.server.socketPath, cause⟩ 0 }
        | none => some ⟨.serving left, animate c.activity x.world i⟩
      else none
  | .waiting => none
  | .calming i =>
    match x.world.stations[i]? with
    | some st =>
      if st.activity?.all (·.ended) then some ⟨.stopping i, x.world.setServer i st.server.requestStop x.world.disk⟩ else none
    | none => some { x with stage := .ended none }
  | .stopping i =>
    x.world.stations[i]?.bind fun st => if st.server.call = .idle then some { x with stage := .calming (i + 1) } else none
  | .abandoning f i =>
    match x.world.stations[i]? with
    | some st => some ⟨.abandoning f (i + 1), x.world.letGo i st.server⟩
    | none => some { x with stage := .ended (some f) }
  | .ended _ => none

/-- The daemon after an event, if the event is possible. -/
def after? (x : Scene) : Event → Option Scene
  | .advance => x.advance?
  | .signal => if x.stage = .waiting then some { x with stage := .calming 0 } else none
  | .obey =>
    match x.stage with
    | .calming i => some { x with world := calm x.world i }
    | _ => none
  | .refuse fault =>
    match x.stage with
    | .starting i _ _ =>
      x.world.stations[i]?.bind fun st =>
        let disk := x.world.disk.remove st.server.config.socketPath
        if st.server.call = .binding then some { x with world := x.world.setServer i (st.server.refuse fault) disk } else none
    | _ => none
  | .server i e =>
    if isTraffic e then
      x.world.stations[i]?.bind fun st => (st.server.after? x.world.disk e).map fun (server, disk) =>
        { x with world := x.world.setServer i server disk }
    else none
  | .tick i =>
    x.world.stations[i]?.bind fun st => st.activity?.bind fun a => a.nextTick?.bind fun t =>
      if t ≤ x.world.clock then
        let (a, device, queue) := a.tick st.server.hub.device st.server.queue
        some { x with world := x.world.updateStation i fun st =>
          { st with activity? := some a, server := { st.server with queue, hub := { st.server.hub with device } } } }
      else none
  | .wait ms => some { x with world := x.world.pass ms }

/-- The daemon after events, if they are possible one after the other. -/
def run? (x : Scene) : List Event → Option Scene
  | [] => some x
  | e :: rest => (x.after? e).bind (·.run? rest)

/-- What an event can do. -/
inductive Step (x : Scene) : Event → Scene → Prop
  /-- All devices are served. -/
  | ready : x.stage = .serving [] → Step x .advance { x with stage := .waiting }
  | launch {c : DeviceConfig} {left : List DeviceConfig} : x.stage = .serving (c :: left) →
      Step x .advance ⟨.starting x.world.stations.length c left,
        x.world.append { x.world.newcomer c.server c.model.build with call := .preparing }⟩
  /-- The start of a server has failed. -/
  | giveUp {i : Nat} {c : DeviceConfig} {left : List DeviceConfig} {st : Station Model} {cause : StartError} :
      x.stage = .starting i c left → x.world.stations[i]? = some st → st.server.failure? = some cause →
      Step x .advance { x with stage := .abandoning ⟨c.server.socketPath, cause⟩ 0 }
  /-- A server was started, and the activity of its device begins. -/
  | animate {i : Nat} {c : DeviceConfig} {left : List DeviceConfig} {st : Station Model} :
      x.stage = .starting i c left → x.world.stations[i]? = some st → st.server.call = .idle →
      st.server.failure? = none → Step x .advance ⟨.serving left, animate c.activity x.world i⟩
  | stop {i : Nat} {st : Station Model} : x.stage = .calming i → x.world.stations[i]? = some st →
      st.activity?.all (·.ended) = true →
      Step x .advance ⟨.stopping i, x.world.setServer i st.server.requestStop x.world.disk⟩
  /-- All devices have come to their end. -/
  | dissolve {i : Nat} : x.stage = .calming i → x.world.stations[i]? = none →
      Step x .advance { x with stage := .ended none }
  | stopped {i : Nat} {st : Station Model} : x.stage = .stopping i → x.world.stations[i]? = some st →
      st.server.call = .idle → Step x .advance { x with stage := .calming (i + 1) }
  | letGo {f : Failure} {i : Nat} {st : Station Model} : x.stage = .abandoning f i → x.world.stations[i]? = some st →
      Step x .advance ⟨.abandoning f (i + 1), x.world.letGo i st.server⟩
  /-- All servers were let go of. -/
  | withdraw {f : Failure} {i : Nat} : x.stage = .abandoning f i → x.world.stations[i]? = none →
      Step x .advance { x with stage := .ended (some f) }
  | signal : x.stage = .waiting → Step x .signal { x with stage := .calming 0 }
  | obey {i : Nat} : x.stage = .calming i → Step x .obey { x with world := calm x.world i }
  | refuse {i : Nat} {c : DeviceConfig} {left : List DeviceConfig} {st : Station Model} {fault : IoFault} :
      x.stage = .starting i c left → x.world.stations[i]? = some st → st.server.call = .binding →
      Step x (.refuse fault) { x with
        world := x.world.setServer i (st.server.refuse fault) (x.world.disk.remove st.server.config.socketPath) }
  | server {i : Nat} {e : Server.Event} {st : Station Model} {s : Server Model} {d : Disk} : isTraffic e = true →
      x.world.stations[i]? = some st → st.server.after? x.world.disk e = some (s, d) →
      Step x (.server i e) { x with world := x.world.setServer i s d }
  | tick {i : Nat} {st : Station Model} {a : Activity} {t : Nat} : x.world.stations[i]? = some st →
      st.activity? = some a → a.nextTick? = some t → t ≤ x.world.clock →
      Step x (.tick i) { x with world := x.world.updateStation i fun st' => { st' with
        activity? := some (a.tick st.server.hub.device st.server.queue).1
        server := { st'.server with
          queue := (a.tick st.server.hub.device st.server.queue).2.2
          hub := { st'.server.hub with device := (a.tick st.server.hub.device st.server.queue).2.1 } } } }
  | wait {ms : Nat} : Step x (.wait ms) { x with world := x.world.pass ms }

variable {x x' x'' : Scene} {e : Event} {events more : List Event}

/-- What the daemon does next is one of the steps that it can make. -/
theorem step_of_advance? (he : x.advance? = some x') : x.Step .advance x' := by
  rw [advance?] at he
  cases hstage : x.stage with
  | serving left =>
    rw [hstage] at he
    cases left with
    | nil =>
      cases he
      exact .ready hstage
    | cons c left =>
      cases he
      exact .launch hstage
  | starting i c left =>
    rw [hstage] at he
    obtain ⟨st, hi, he⟩ := Option.bind_eq_some_iff.1 he
    obtain ⟨hidle, he⟩ := Option.ite_none_right_eq_some.1 he
    cases hfailure : st.server.failure? with
    | some cause =>
      rw [hfailure] at he
      cases he
      exact .giveUp hstage hi hfailure
    | none =>
      rw [hfailure] at he
      cases he
      exact .animate hstage hi hidle hfailure
  | calming i =>
    rw [hstage] at he
    cases hi : x.world.stations[i]? with
    | some st =>
      simp only [hi] at he
      obtain ⟨hrested, heq⟩ := Option.ite_none_right_eq_some.1 he
      cases heq
      exact .stop hstage hi hrested
    | none =>
      simp only [hi] at he
      cases he
      exact .dissolve hstage hi
  | stopping i =>
    rw [hstage] at he
    obtain ⟨st, hi, he⟩ := Option.bind_eq_some_iff.1 he
    obtain ⟨hidle, heq⟩ := Option.ite_none_right_eq_some.1 he
    cases heq
    exact .stopped hstage hi hidle
  | abandoning f i =>
    rw [hstage] at he
    cases hi : x.world.stations[i]? with
    | some st =>
      simp only [hi] at he
      cases he
      exact .letGo hstage hi
    | none =>
      simp only [hi] at he
      cases he
      exact .withdraw hstage hi
  | waiting | ended =>
    rw [hstage] at he
    cases he

/-- An event does nothing else. -/
theorem step_of_after? (he : x.after? e = some x') : x.Step e x' := by
  cases e with
  | advance => exact step_of_advance? he
  | signal =>
    obtain ⟨hstage, heq⟩ := Option.ite_none_right_eq_some.1 he
    cases heq
    exact .signal hstage
  | obey =>
    rw [after?] at he
    split at he
    · cases he
      exact .obey ‹_›
    · cases he
  | refuse fault =>
    rw [after?] at he
    split at he
    · obtain ⟨st, hi, he⟩ := Option.bind_eq_some_iff.1 he
      obtain ⟨hcall, heq⟩ := Option.ite_none_right_eq_some.1 he
      cases heq
      exact .refuse ‹_› hi hcall
    · cases he
  | server i e =>
    obtain ⟨htraffic, he⟩ := Option.ite_none_right_eq_some.1 he
    obtain ⟨st, hi, he⟩ := Option.bind_eq_some_iff.1 he
    obtain ⟨⟨s, d⟩, hs, heq⟩ := Option.map_eq_some_iff.1 he
    cases heq
    exact .server htraffic hi hs
  | tick i =>
    obtain ⟨st, hi, he⟩ := Option.bind_eq_some_iff.1 he
    obtain ⟨a, ha, he⟩ := Option.bind_eq_some_iff.1 he
    obtain ⟨t, ht, he⟩ := Option.bind_eq_some_iff.1 he
    obtain ⟨hdue, heq⟩ := Option.ite_none_right_eq_some.1 he
    cases heq
    exact .tick hi ha ht hdue
  | wait ms =>
    cases he
    exact .wait

/-- An event and a run from there are a run. -/
theorem run?_cons (he : x.after? e = some x') (hrest : x'.run? events = some x'') : x.run? (e :: events) = some x'' := by
  rw [run?, he, Option.bind_some, hrest]

/-- Runs that follow on each other are one run. -/
theorem run?_append (hr : x.run? events = some x') (hmore : x'.run? more = some x'') :
    x.run? (events ++ more) = some x'' := by
  induction events generalizing x with
  | nil =>
    cases hr
    exact hmore
  | cons e rest ih =>
    obtain ⟨x₁, he, hrest⟩ := Option.bind_eq_some_iff.1 hr
    exact run?_cons he (ih hrest)

/-- What every event preserves holds to the end of a run. -/
theorem run_preserves {P : Scene → Prop} (step : ∀ {x x' : Scene} {e : Event}, P x → x.after? e = some x' → P x')
    (h : P x) (hr : x.run? events = some x') : P x' := by
  induction events generalizing x with
  | nil =>
    cases hr
    exact h
  | cons e rest ih =>
    obtain ⟨x₁, he, hrest⟩ := Option.bind_eq_some_iff.1 hr
    exact ih (step h he) hrest

end Scene

end Daemon

end Peripheral
