import Peripheral.Daemon
import Peripheral.Proofs.Hub.Step
import Peripheral.Proofs.Settings.Loading

/-!
# What it comes to that a device is launched

A start of the server of a device ends at once, whatever else goes on in the world: in a run if the socket can be bound, in a
server that is stopped if not. Only a start that asks for more permits than can be counted breaks off, with the socket bound
and the phase already that of a run (`launched`). The rest of what a device is set up from is brought into the range that is
asked for, whatever was written: the interval of its ticks and the patience with its peers are positive, and the chance of a
byte is no less than zero and no more than one.
-/

namespace Peripheral

namespace Server

variable {δ : Type} [Service δ] {s s' : Server δ} {d d' : Disk}

/-! ## Servers that nobody wants anything of -/

omit [Service δ] in
/-- Nobody wants anything of a server, and its gate has ended or is open in a run that was not told to end. -/
structure Steady (s : Server δ) : Prop where
  call_eq : s.call = .idle
  gate : s.gate = .ended ∨ (s.gate = .seeking ∨ s.gate = .listening) ∧ s.isTold = false

omit [Service δ] in
/-- What a server that nobody wants anything of keeps while its tasks go on. -/
structure Abides (s s' : Server δ) : Prop where
  steady : s'.Steady
  number_eq : s'.number = s.number
  config_eq : s'.config = s.config
  phase_eq : s'.phase = s.phase
  engaged_eq : s'.engaged = s.engaged
  runs_eq : s'.runs = s.runs
  failure?_eq : s'.failure? = s.failure?

omit [Service δ] in
/-- A steady server abides as it is. -/
theorem Steady.abides (hs : s.Steady) : s.Abides s := ⟨hs, rfl, rfl, rfl, rfl, rfl, rfl⟩

omit [Service δ] in
theorem Abides.trans {s'' : Server δ} (h : s.Abides s') (h' : s'.Abides s'') : s.Abides s'' where
  steady := h'.steady
  number_eq := h'.number_eq.trans h.number_eq
  config_eq := h'.config_eq.trans h.config_eq
  phase_eq := h'.phase_eq.trans h.phase_eq
  engaged_eq := h'.engaged_eq.trans h.engaged_eq
  runs_eq := h'.runs_eq.trans h.runs_eq
  failure?_eq := h'.failure?_eq.trans h.failure?_eq

omit [Service δ] in
/-- What goes on in the hub, in the queue and at the relay, and who attends to whom, is no matter. -/
theorem Steady.aside (hs : s.Steady) {hub : Hub δ} {queue : IrqQueue} {relay : Relay} {attendants : List Attendant}
    (hhalted : hub.halted = s.hub.halted) : s.Abides { s with hub, queue, relay, attendants } where
  steady := by
    refine ⟨hs.call_eq, hs.gate.imp_right fun h => ⟨h.1, ?_⟩⟩
    have htold := h.2
    rw [isTold] at htold ⊢
    dsimp only
    rw [hhalted]
    exact htold
  number_eq := rfl
  config_eq := rfl
  phase_eq := rfl
  engaged_eq := rfl
  runs_eq := rfl
  failure?_eq := rfl

omit [Service δ] in
/-- An open gate gets a permit, or lets a client in. -/
theorem Steady.gate_open (hs : s.Steady) (hopen : s.gate = .seeking ∨ s.gate = .listening) {hub : Hub δ} {gate : Gate}
    {attendants : List Attendant} {backlog : List (Nat × Link)} {admitted : List (Nat × Peer)}
    (hhalted : hub.halted = s.hub.halted) (hgate : gate = .seeking ∨ gate = .listening) :
    s.Abides { s with hub, gate, attendants, backlog, admitted } where
  steady := by
    refine ⟨hs.call_eq, Or.inr ⟨hgate, ?_⟩⟩
    rcases hs.gate with hended | ⟨-, htold⟩
    · rcases hopen with hopen | hopen <;> nomatch hended.symm.trans hopen
    · rw [isTold] at htold ⊢
      dsimp only
      rw [hhalted]
      exact htold
  number_eq := rfl
  config_eq := rfl
  phase_eq := rfl
  engaged_eq := rfl
  runs_eq := rfl
  failure?_eq := rfl

/-- A move of the hub ends no run. -/
theorem halted_move {hub : Hub δ} {m : Hub.Move} (hm : s.hub.move? m = some hub) : hub.halted = s.hub.halted := by
  obtain ⟨a, b, h, -, hstep, rfl⟩ := Hub.taskStep_of_move? hm
  exact hstep.halted_eq

omit [Service δ] in
/-- To break a task off ends no run. -/
theorem halted_cutShort (h : Hub δ) (t : Nat) : (h.cutShort t).halted = h.halted := by
  rw [Hub.cutShort]
  split <;> rfl

/-- A move that may be possible without anything going wrong leaves the server and the disk as they are for everybody who
asks how the server does. -/
theorem Steady.move (hs : s.Steady) {m : Move} (hin : m ∈ s.candidates) (hm : s.move? d m = some (s', d')) :
    s.Abides s' ∧ d' = d := by
  cases m with
  | hub m =>
    obtain ⟨hub, hmove, heq⟩ := Option.map_eq_some_iff.1 hm
    cases heq
    exact ⟨hs.aside (halted_move hmove), rfl⟩
  | gate =>
    rw [move?, advanceGate] at hm
    cases hg : s.gate with
    | seeking =>
      rw [hg] at hm
      obtain ⟨-, heq⟩ := Option.ite_none_right_eq_some.1 hm
      cases heq
      exact ⟨hs.gate_open (Or.inl hg) rfl (Or.inr rfl), rfl⟩
    | listening =>
      rw [hg] at hm
      obtain ⟨s₁, hin, heq⟩ := Option.map_eq_some_iff.1 hm
      cases heq
      rw [letIn] at hin
      cases hb : s.backlog with
      | nil =>
        rw [hb] at hin
        nomatch hin
      | cons x rest =>
        rw [hb] at hin
        cases hin
        exact ⟨hs.gate_open (Or.inr hg) rfl (Or.inl rfl), rfl⟩
    | failing t => rcases hs.gate with h | ⟨h | h, -⟩ <;> nomatch hg.symm.trans h
    | ended =>
      rw [hg] at hm
      nomatch hm
  | gateHeeds =>
    obtain ⟨s₁, hclose, -⟩ := Option.map_eq_some_iff.1 hm
    obtain ⟨hcond, -⟩ := Option.ite_none_right_eq_some.1 hclose
    obtain ⟨htold, hopen⟩ := Bool.and_eq_true_iff.1 hcond
    rcases hs.gate with hended | ⟨-, huntold⟩
    · rw [hended] at hopen
      nomatch hopen
    · nomatch huntold.symm.trans htold
  | gateFails order => simp [candidates] at hin
  | relay order =>
    obtain ⟨s₁, hrelay, heq⟩ := Option.map_eq_some_iff.1 hm
    cases heq
    rw [advanceRelay] at hrelay
    cases hr : s.relay with
    | waiting =>
      rw [hr] at hrelay
      obtain ⟨-, htake⟩ := Option.ite_none_right_eq_some.1 hrelay
      obtain ⟨⟨id, queue⟩, -, heq⟩ := Option.map_eq_some_iff.1 htake
      cases heq
      exact ⟨hs.aside rfl, rfl⟩
    | pushing t =>
      rw [hr] at hrelay
      obtain ⟨-, heq⟩ := Option.ite_none_right_eq_some.1 hrelay
      cases heq
      exact ⟨hs.aside rfl, rfl⟩
    | ended =>
      rw [hr] at hrelay
      nomatch hrelay
  | relayHeeds =>
    obtain ⟨s₁, hclose, heq⟩ := Option.map_eq_some_iff.1 hm
    cases heq
    obtain ⟨-, hclose⟩ := Option.ite_none_right_eq_some.1 hclose
    cases hr : s.relay with
    | waiting =>
      rw [hr] at hclose
      cases hclose
      exact ⟨hs.aside rfl, rfl⟩
    | pushing t =>
      rw [hr] at hclose
      cases hclose
      exact ⟨hs.aside (halted_cutShort _ _), rfl⟩
    | ended =>
      rw [hr] at hclose
      nomatch hclose
  | attend handler =>
    obtain ⟨s₁, hattend, heq⟩ := Option.map_eq_some_iff.1 hm
    cases heq
    rw [attend] at hattend
    split at hattend
    · dsimp only at hattend
      split at hattend
      · obtain ⟨-, heq⟩ := Option.ite_none_right_eq_some.1 hattend
        cases heq
        exact ⟨hs.aside rfl, rfl⟩
      · nomatch hattend
      · cases hattend
        exact ⟨hs.aside rfl, rfl⟩
      · cases hattend
        exact ⟨hs.aside rfl, rfl⟩
    · nomatch hattend
  | caller order =>
    rw [move?, advanceCall, hs.call_eq] at hm
    nomatch hm

/-- A steady server is left alone when it settles. -/
theorem Steady.settleWithin (hs : s.Steady) (n : Nat) (d : Disk) :
    s.Abides (s.settleWithin n d).1 ∧ (s.settleWithin n d).2 = d := by
  induction n generalizing s with
  | zero => exact ⟨hs.abides, rfl⟩
  | succ n ih =>
    rw [Server.settleWithin]
    cases hnext : s.next? d with
    | none => exact ⟨hs.abides, rfl⟩
    | some r =>
      obtain ⟨s', d'⟩ := r
      obtain ⟨m, hin, hm⟩ := List.exists_of_findSome?_eq_some hnext
      obtain ⟨habides, rfl⟩ := hs.move hin hm
      obtain ⟨hmore, hdisk⟩ := ih habides.steady
      exact ⟨habides.trans hmore, hdisk⟩

/-! ## The start of a new server -/

omit [Service δ] in
/-- A server that was never started. -/
structure Fresh (s : Server δ) : Prop where
  gate_eq : s.gate = .ended
  relay_eq : s.relay = .ended
  attendants_eq : s.attendants = []
  failure?_eq : s.failure? = none

/-- Whoever starts a new server is the only one who can do anything with it. -/
theorem Fresh.next? (hs : s.Fresh) {s' : Server δ} {d' : Disk} (hcall : s.advanceCall d s.hub.members = some (s', d')) :
    s.next? d = some (s', d') := by
  have hheeds : s.move? d .gateHeeds = none := by simp [move?, closeGate, hs.gate_eq]
  have hrelay : s.move? d .relayHeeds = none := by
    rw [move?, closeRelay, hs.relay_eq]
    split <;> rfl
  have hgate : s.move? d .gate = none := by rw [move?, advanceGate, hs.gate_eq]
  have hpass : s.move? d (.relay s.hub.members) = none := by
    rw [move?, advanceRelay, hs.relay_eq]
    rfl
  have hcaller : s.move? d (.caller s.hub.members) = some (s', d') := hcall
  simp [Server.next?, candidates, hs.attendants_eq, hheeds, hrelay, hgate, hpass, hcaller]

omit [Service δ] in
/-- What it comes to that a server is started whose socket is to be made, where nothing else has a say. -/
inductive Launched (config : ServerConfig) (l : Listener) (d : Disk) : Option StartError → Phase → Disk → Prop
  | running {d' : Disk} : (d.remove config.socketPath).bind config.socketPath l = .ok d' → config.capacity ≤ maxPermits →
      Launched config l d none .running d'
  | unbound {f : IoFault} : (d.remove config.socketPath).bind config.socketPath l = .error f →
      Launched config l d (some (.unbindable config.socketPath f)) .stopped (d.remove config.socketPath)
  /-- The start breaks off after the socket was bound. -/
  | overload {d' : Disk} : (d.remove config.socketPath).bind config.socketPath l = .ok d' → maxPermits < config.capacity →
      Launched config l d (some .overload) .running (d'.release l)

omit [Service δ] in
/-- What binding comes to for a new server, which is steady afterwards. -/
theorem launched_bind (hs : s.Fresh) (hruns : s.hub.halted ≤ s.runs) (d : Disk) :
    (s.bind d).1.Steady ∧ Launched s.config s.listener d (s.bind d).1.failure? (s.bind d).1.phase (s.bind d).2 := by
  rw [bind]
  cases hbind : (d.remove s.config.socketPath).bind s.config.socketPath s.listener with
  | error f => exact ⟨⟨rfl, Or.inl hs.gate_eq⟩, .unbound hbind⟩
  | ok d' =>
    dsimp only
    by_cases hcap : s.config.capacity ≤ maxPermits
    · rw [if_pos hcap]
      refine ⟨⟨rfl, Or.inr ⟨Or.inl rfl, ?_⟩⟩, ?_⟩
      · exact decide_eq_false (Nat.not_le_of_lt (Nat.lt_succ_of_le hruns))
      · dsimp only
        rw [hs.failure?_eq]
        exact .running hbind hcap
    · rw [if_neg hcap]
      exact ⟨⟨rfl, Or.inl hs.gate_eq⟩, .overload hbind (Nat.lt_of_not_le hcap)⟩

/-- A new server that somebody has begun to start is started, or not, before anything else can happen. -/
theorem launched_settle (hs : s.Fresh) (hcall : s.call = .preparing) (hruns : s.hub.halted ≤ s.runs) (d : Disk) :
    (s.settle d).1.Steady ∧
      Launched s.config s.listener d (s.settle d).1.failure? (s.settle d).1.phase (s.settle d).2 := by
  have heffort : ∃ n, s.effort = n + 2 := ⟨s.effort - 2, by simp [effort]; omega⟩
  obtain ⟨n, hn⟩ := heffort
  let poised : Server δ := { s with phase := .starting, failure? := none, call := .binding }
  have hpoised : poised.Fresh := ⟨hs.gate_eq, hs.relay_eq, hs.attendants_eq, rfl⟩
  have hprepare : s.next? d = some (poised, d) := hs.next? (by rw [advanceCall, hcall])
  have hbinds : poised.next? d = some (poised.bind d) := hpoised.next? rfl
  have hsettle : s.settle d = (poised.bind d).1.settleWithin n (poised.bind d).2 := by
    rw [settle, hn, settleWithin, hprepare]
    dsimp only
    rw [settleWithin, hbinds]
  obtain ⟨hsteady, hlaunched⟩ := launched_bind hpoised hruns d
  obtain ⟨habides, hdisk⟩ := hsteady.settleWithin n (poised.bind d).2
  rw [hsettle]
  refine ⟨habides.steady, ?_⟩
  rw [habides.failure?_eq, habides.phase_eq, hdisk]
  exact hlaunched

end Server

/-! ## Worlds in which nobody wants anything -/

namespace World

variable {δ : Type} [Service δ] {w : World δ} {d : Disk}

omit [Service δ] in
/-- Nobody wants anything of any server. -/
def Steady (w : World δ) : Prop := ∀ s ∈ w.stations, s.server.Steady

/-- A steady server abides while the activity of its device ticks. -/
theorem abides_tickAt {s : Station δ} (hs : s.server.Steady) (now : Nat) :
    s.server.Abides (s.tickAt now).server ∧ (s.tickAt now).isOwned = s.isOwned := by
  rw [Station.tickAt]
  cases s.activity? with
  | none => exact ⟨hs.abides, rfl⟩
  | some a => exact ⟨hs.aside rfl, rfl⟩

/-- Letting everything happen leaves servers that nobody wants anything of as they are, and the disk. -/
theorem settleStations_steady (now : Nat) {stations : List (Station δ)} (h : ∀ s ∈ stations, s.server.Steady) :
    (settleStations now d stations).2 = d ∧ ∀ s ∈ (settleStations now d stations).1, s.server.Steady := by
  induction stations with
  | nil => exact ⟨rfl, List.forall_mem_nil _⟩
  | cons s rest ih =>
    obtain ⟨hs, hrest⟩ := List.forall_mem_cons.1 h
    obtain ⟨hdisk, hall⟩ := ih hrest
    obtain ⟨hsettled, hd⟩ := (abides_tickAt hs now).1.steady.settleWithin (s.tickAt now).server.effort d
    simp only [settleStations, Server.settle, hd]
    exact ⟨hdisk, List.forall_mem_cons.2 ⟨hsettled.steady, hall⟩⟩

/-- Stations settle one after the other, and the later ones find the disk as the earlier ones left it. -/
theorem settleStations_append (now : Nat) (xs ys : List (Station δ)) :
    settleStations now d (xs ++ ys) =
      ((settleStations now d xs).1 ++ (settleStations now (settleStations now d xs).2 ys).1,
        (settleStations now (settleStations now d xs).2 ys).2) := by
  induction xs generalizing d with
  | nil => rfl
  | cons x rest ih => simp only [List.cons_append, settleStations, ih]

theorem length_settleStations (now : Nat) (xs : List (Station δ)) : (settleStations now d xs).1.length = xs.length := by
  induction xs generalizing d with
  | nil => rfl
  | cons x rest ih => simp only [settleStations, List.length_cons, ih]

/-- What holds once the world has settled is not waited for. -/
theorem await_of_holds {holds : World δ → Bool} (h : holds w.settle = true) : w.await holds = w.settle := by
  rw [await]
  cases lastInstant - w.clock with
  | zero => rfl
  | succ n => rw [awaitWithin, if_pos h]

/-! ## A new server in a world -/

omit [Service δ] in
/-- The server that is added for a device. -/
def newcomer (w : World δ) (config : ServerConfig) (device : δ) : Server δ :=
  let server := Server.create w.stations.length config device
  { server with hub := { server.hub with clock := w.clock } }

omit [Service δ] in
/-- A world with one more server. -/
def append (w : World δ) (server : Server δ) : World δ := { w with stations := w.stations ++ [⟨server, none, true⟩] }

omit [Service δ] in
theorem modify_concat {α : Type} (xs : List α) (x : α) (f : α → α) : (xs ++ [x]).modify xs.length f = xs ++ [f x] := by
  induction xs with
  | nil => rfl
  | cons y ys ih => simp only [List.cons_append, List.length_cons, List.modify_succ_cons, ih]

omit [Service δ] in
/-- The server that is added last is the one at the end. -/
theorem server?_append (w : World δ) (server : Server δ) : (w.append server).server? w.stations.length = some server := by
  simp [server?, append]

omit [Service δ] in
theorem updateServer_append (w : World δ) (server : Server δ) (f : Server δ → Server δ) :
    (w.append server).updateServer w.stations.length f = w.append (f server) := by
  simp only [updateServer, updateStation, append, modify_concat]

/-- Where nobody wants anything, all that happens when a server is added is what happens to that server. -/
theorem Steady.settle_append (hw : w.Steady) (server : Server δ) :
    (w.append server).settle =
      { w with
        stations := (settleStations w.clock w.disk w.stations).1 ++ [⟨(server.settle w.disk).1, none, true⟩]
        disk := (server.settle w.disk).2 } := by
  obtain ⟨hdisk, -⟩ := settleStations_steady (d := w.disk) w.clock hw
  simp only [settle, append, settleStations_append, hdisk, settleStations, Station.tickAt]

/-- What a world is like after the server of a new device was started in it. -/
structure Joined (w : World δ) (config : ServerConfig) (r : Except StartError Unit × World δ) (server : Server δ) : Prop where
  result_eq : r.1 = (match server.failure? with | some e => .error e | none => .ok ())
  server?_eq : r.2.server? w.stations.length = some server
  launched : Server.Launched config ⟨w.stations.length, 0⟩ w.disk server.failure? server.phase r.2.disk
  length_eq : r.2.stations.length = w.stations.length + 1
  steady : r.2.Steady

/-- In a world in which nobody wants anything a new server is started, or not, before anything else can happen. -/
theorem Steady.joined (hw : w.Steady) (config : ServerConfig) (device : δ) :
    ∃ server, w.Joined config ((w.add config device).startServer w.stations.length) server := by
  let asked : Server δ := { w.newcomer config device with call := .preparing }
  have hfresh : asked.Fresh := ⟨rfl, rfl, rfl, rfl⟩
  have hask : (w.newcomer config device).requestStart = .ok asked := rfl
  obtain ⟨hsteady, hlaunched⟩ := Server.launched_settle hfresh rfl (Nat.le_refl 0) w.disk
  have hsettle := hw.settle_append asked
  have hat : (w.append asked).settle.server? w.stations.length = some (asked.settle w.disk).1 := by
    have hlast := Nat.le_of_eq (length_settleStations (d := w.disk) w.clock w.stations)
    rw [hsettle, server?]
    dsimp only
    rw [List.getElem?_append_right hlast, length_settleStations, Nat.sub_self]
    rfl
  -- The server is idle again as soon as everything has happened that can, so that no time passes.
  have hidle : ((w.append asked).settle.server? w.stations.length).all (·.call == .idle) = true := by
    rw [hat, Option.all_some, hsteady.call_eq]
    rfl
  have hawait : (w.append asked).await (fun w' => (w'.server? w.stations.length).all (·.call == .idle)) =
      (w.append asked).settle := await_of_holds hidle
  have hstart : (w.add config device).startServer w.stations.length =
      ((match (asked.settle w.disk).1.failure? with | some e => .error e | none => .ok ()), (w.append asked).settle) := by
    have hadd : w.add config device = w.append (w.newcomer config device) := rfl
    rw [startServer, hadd, server?_append]
    simp only [hask, updateServer_append, hawait, hat, Option.bind_some]
    cases (asked.settle w.disk).1.failure? <;> rfl
  refine ⟨(asked.settle w.disk).1, ?_⟩
  rw [hstart]
  refine ⟨rfl, hat, ?_, ?_, ?_⟩
  · rw [hsettle]
    exact hlaunched
  · rw [hsettle]
    simp [length_settleStations]
  · rw [hsettle]
    intro s hs
    rcases List.mem_append.1 hs with hs | hs
    · exact (settleStations_steady w.clock hw).2 s hs
    · rw [List.mem_singleton.1 hs]
      exact hsteady

end World

/-- The chance that a byte arrives lies between zero and one, unless it is not a number. -/
theorem Uart.clampUnit_range (x : Float) : ¬ clampUnit x < 0 ∧ ¬ 1 < clampUnit x := by
  rw [clampUnit]
  by_cases hlow : x < 0
  · rw [if_pos hlow]
    decide +kernel
  · rw [if_neg hlow]
    by_cases hhigh : 1 < x
    · rw [if_pos hhigh]
      decide +kernel
    · rw [if_neg hhigh]
      exact ⟨hlow, hhigh⟩

/-! ## The devices of a daemon -/

namespace Daemon

variable {w w' : World Model}

/-- What comes of binding the socket of one more device. -/
def bound (c : DeviceConfig) (w : World Model) : Except IoFault Disk :=
  (w.disk.remove c.server.socketPath).bind c.server.socketPath ⟨w.stations.length, 0⟩

/-- One more device is built, and its server is started. -/
def launch (c : DeviceConfig) (w : World Model) : Except StartError Unit × World Model :=
  (w.add c.server c.model.build).startServer w.stations.length

/-- The phase that the server of a device is in after it was launched. -/
def phase? (c : DeviceConfig) (w : World Model) : Option Phase :=
  ((launch c w).2.server? w.stations.length).map (·.phase)

/-- The activity of a device that was launched. -/
def activity? (c : DeviceConfig) (w : World Model) : Option Activity :=
  (animate c.activity (launch c w).2 w.stations.length).stations[w.stations.length]?.bind (·.activity?)

/-- What it comes to that a device is launched. -/
structure Launch (c : DeviceConfig) (w : World Model) : Prop where
  running : (∃ d, bound c w = .ok d) → c.server.capacity ≤ Server.maxPermits →
    (launch c w).1 = .ok () ∧ phase? c w = some .running
  stopped : ∀ fault, bound c w = .error fault →
    (launch c w).1 = .error (.unbindable c.server.socketPath fault) ∧ phase? c w = some .stopped
  /-- Only asking for too many permits breaks a start off. -/
  breaksOff : (launch c w).1 = .error .overload ↔ (∃ d, bound c w = .ok d) ∧ Server.maxPermits < c.server.capacity
  permits : 0 < c.server.capacity
  patience : 0 < c.server.patience
  activity : ∃ a, activity? c w = some a ∧ 0 < a.period
  chance : ∀ u, c.model.build = .uart u → ¬ u.chance < 0 ∧ ¬ 1 < u.chance

/-- There is nobody in a world at its start who could be unsteady. -/
theorem steady_start (d : Disk) : (World.start d : World Model).Steady := List.forall_mem_nil _

/-- To begin an activity is no matter to any server. -/
theorem steady_animate (hw : w.Steady) (c : ActivityConfig) (i : Nat) : (animate c w i).Steady := by
  intro s hs
  obtain ⟨j, hj, rfl⟩ := List.mem_iff_getElem.1 hs
  have hj' : j < w.stations.length := by
    rw [animate, World.updateStation, List.length_modify] at hj
    exact hj
  have hserver : (animate c w i).stations[j].server = w.stations[j].server := by
    simp only [animate, World.updateStation, List.getElem_modify]
    split <;> rfl
  rw [hserver]
  exact hw _ (List.getElem_mem hj')

/-- While one device after the other is served, nobody wants anything of the ones before. -/
theorem steady_startAll {cs : List DeviceConfig} (hw : w.Steady) (h : startAll cs w = (none, w')) : w'.Steady := by
  induction cs generalizing w with
  | nil =>
    cases h
    exact hw
  | cons c rest ih =>
    obtain ⟨server, hjoined⟩ := hw.joined c.server c.model.build
    rw [startAll] at h
    cases hlaunch : launch c w with
    | mk result world =>
      have hsteady : world.Steady := by
        have := hjoined.steady
        rw [launch] at hlaunch
        rwa [hlaunch] at this
      rw [launch] at hlaunch
      simp only [hlaunch] at h
      cases result with
      | error e => nomatch h
      | ok _ => exact ih (steady_animate hsteady _ _) h

/-- What a launch comes to in a world that is steady. -/
theorem launch_of_steady (hw : w.Steady) (c : DeviceConfig) : Launch c w := by
  obtain ⟨server, hjoined⟩ := hw.joined c.server c.model.build
  have hresult : (launch c w).1 = (match server.failure? with | some e => .error e | none => .ok ()) := hjoined.result_eq
  have hphase : phase? c w = some server.phase := by
    rw [phase?, launch, hjoined.server?_eq]
    rfl
  have hactivity : ∃ a, activity? c w = some a ∧ 0 < a.period := by
    obtain ⟨s, hs, -⟩ := Option.bind_eq_some_iff.1 hjoined.server?_eq
    refine ⟨Activity.start c.activity (launch c w).2.clock, ?_, Nat.lt_of_lt_of_le Nat.zero_lt_one (Nat.le_max_right _ _)⟩
    simp [activity?, animate, World.updateStation, launch, hs]
  have hchance : ∀ u, c.model.build = .uart u → ¬ u.chance < 0 ∧ ¬ 1 < u.chance := by
    intro u hu
    cases hmodel : c.model with
    | registers id =>
      rw [hmodel] at hu
      nomatch hu
    | uart config =>
      rw [hmodel] at hu
      cases hu
      exact Uart.clampUnit_range config.rxProbability
  have hpositive : ∀ n, 0 < max n 1 := fun n => Nat.lt_of_lt_of_le Nat.zero_lt_one (Nat.le_max_right n 1)
  have hlaunched := hjoined.launched
  generalize hfailure : server.failure? = failure at hlaunched
  generalize hreached : server.phase = phase at hlaunched
  generalize ((w.add c.server c.model.build).startServer w.stations.length).2.disk = disk at hlaunched
  rw [hfailure] at hresult
  rw [hreached] at hphase
  cases hlaunched with
  | running hbind hcap =>
    have hbound : bound c w = .ok _ := hbind
    refine ⟨fun _ _ => ⟨hresult, hphase⟩, ?_, ?_, hpositive _, hpositive _, hactivity, hchance⟩
    · intro fault hfault
      nomatch hbound.symm.trans hfault
    · rw [hresult]
      refine iff_of_false (fun h => nomatch h) (fun h => absurd h.2 (Nat.not_lt_of_le hcap))
  | unbound hbind =>
    have hbound : bound c w = .error _ := hbind
    refine ⟨?_, ?_, ?_, hpositive _, hpositive _, hactivity, hchance⟩
    · rintro ⟨d, hd⟩
      nomatch hbound.symm.trans hd
    · intro fault hfault
      cases hbound.symm.trans hfault
      exact ⟨hresult, hphase⟩
    · rw [hresult]
      refine iff_of_false (fun h => nomatch h) ?_
      rintro ⟨⟨d, hd⟩, -⟩
      nomatch hbound.symm.trans hd
  | overload hbind hcap =>
    have hbound : bound c w = .ok _ := hbind
    refine ⟨fun _ h => absurd hcap (Nat.not_lt_of_le h), ?_, ?_, hpositive _, hpositive _, hactivity, hchance⟩
    · intro fault hfault
      nomatch hbound.symm.trans hfault
    · rw [hresult]
      exact iff_of_true rfl ⟨⟨_, hbound⟩, hcap⟩

/-- However many devices are served already, launching one more ends, in a run or with the server stopped, whatever the
settings say. Only a start that may bind its socket, and is to serve more connections at once than permits can be counted,
breaks off. -/
theorem launches_end {before : List DeviceConfig} {d : Disk} (h : startAll before (.start d) = (none, w)) (c : DeviceConfig) :
    Launch c w :=
  launch_of_steady (steady_startAll (steady_start d) h) c

/-- A device that is served on a socket of the given name. -/
def sample (name : String) (maxConnections : UInt64) : DeviceConfig where
  server := { socketPath := name, maxConnections, sendTimeout := 0 }
  model := .registers 1
  activity := { tickInterval := 0, startupDelay := 18446744073709551615, seed := none }

/-- The second of two devices is launched, although the first one is served already. -/
theorem launches_end_second :
    startAll [sample "/a" 1] (.start .empty) = (none, (startAll [sample "/a" 1] (.start .empty)).2) ∧
      Launch (sample "/b" 0) (startAll [sample "/a" 1] (.start .empty)).2 := by
  have h : startAll [sample "/a" 1] (.start .empty) = (none, (startAll [sample "/a" 1] (.start .empty)).2) :=
    Prod.ext (by decide +kernel) rfl
  exact ⟨h, launches_end h _⟩

/-- The file system of settings that ask for one connection more than permits can be counted for. -/
def greedy : Files where
  exists? _ := true
  read _ := .ok ("\x7b\"devices\": [\x7b\"server\": \x7b\"socket_path\": \"/s\", \"max_connections\": ".toUTF8.toList ++
    "2305843009213693952\x7d\x7d]\x7d".toUTF8.toList)

/-- The device that such settings are for. -/
def greedyDevice : DeviceConfig := { (default : DeviceConfig) with server := ⟨"/s", 2305843009213693952, 1000⟩ }

/-- Settings that are fit for use may break a start off, although the socket can be bound, and leave the server running. -/
theorem start_breaks_off :
    Settings.loadFrom greedy (.ofString "/settings.json") = .ok ⟨[greedyDevice]⟩ ∧
      (∃ d, bound greedyDevice (.start .empty) = .ok d) ∧
      (launch greedyDevice (.start .empty)).1 = .error .overload ∧
      phase? greedyDevice (.start .empty) = some .running ∧
      (startAll [greedyDevice] (.start .empty)).1 = some ⟨"/s", .overload⟩ := by
  have hload : Settings.loadFrom greedy (.ofString "/settings.json") = .ok ⟨[greedyDevice]⟩ :=
    eq_ok_of_toOption (by decide +kernel)
  have hbind : bound greedyDevice (.start .empty) = .ok (Disk.empty.put [['s']] (.socket ⟨0, 0⟩)) :=
    eq_ok_of_toOption (by decide +kernel)
  have hresult : (launch greedyDevice (.start .empty)).1 = .error .overload :=
    (launch_of_steady (steady_start _) greedyDevice).breaksOff.2 ⟨⟨_, hbind⟩, by decide⟩
  have hphase : phase? greedyDevice (.start .empty) = some .running := by decide +kernel
  exact ⟨hload, ⟨_, hbind⟩, hresult, hphase, by decide +kernel⟩

end Daemon

end Peripheral
