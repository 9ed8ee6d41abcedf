import Peripheral.Proofs.Hub.Linear
import Peripheral.Proofs.Server.Run

/-!
# One order of everything that a server does

Whatever the clients of a server do, whatever its gate, its relay and its attendants do in between, and however often it
is started and stopped: there is one order of executions and ticks that explains what every client gets, since what happens
to the server is a run of its hub.
-/

namespace Peripheral

namespace Hub

section

variable {δ : Type}

/-- How many bytes a client has sent, and the command and the address in them. -/
def asked (l : Link) : Nat × Command × UInt32 :=
  let request := Frame.ofBytes (l.inbound.stream.take Frame.size)
  (l.inbound.stream.length, request.command, request.address)

/-- A client whose first bytes are so many, with this command and this address, asks this. -/
theorem asks_of_asked {h : Hub δ} {p : Peer} {c : Command} {a : UInt32}
    (hp : h.links[p]?.map asked = some (Frame.size, c, a)) :
    ∃ request, h.Asks p request ∧ request.command = c ∧ request.address = a := by
  obtain ⟨l, hl, heq⟩ := Option.map_eq_some_iff.1 hp
  obtain ⟨hlen, hc⟩ := Prod.mk.inj heq
  obtain ⟨rfl, rfl⟩ := Prod.mk.inj hc
  have hsize : Frame.size = (l.inbound.stream.take Frame.size).length := by rw [List.length_take, hlen, Nat.min_self]
  exact ⟨_, ⟨l, hl, Frame.decode_of_le (Nat.le_of_eq hsize)⟩, rfl, rfl⟩

/-- A client that has read enough bytes of its handler has received a response. -/
theorem received_of_length {h : Hub δ} {log : List Mark} {t : Nat} {p : Peer}
    (hserves : h.tasks[t]?.map (·.serves p) = some true) (hlen : Frame.size ≤ (h.collectedFrom log t p).length) :
    h.Received log p (.ofBytes (h.collectedFrom log t p)) := by
  obtain ⟨a, ha, hp⟩ := Option.map_eq_some_iff.1 hserves
  exact ⟨t, ⟨a, ha, hp⟩, Frame.decode_of_le hlen⟩

end

end Hub

namespace Server

/-- A run of a server is a run of its hub, up to every moment of it, and every run of a hub is explained by one order of
executions and ticks, whatever the device is; on a register file a client reads the latest value that was written. -/
theorem linearizable :
    (∀ {δ : Type} [Service δ] (device : δ) (number : Nat) (config : ServerConfig) (events past : List Event)
      (disk disk' disk₁ : Disk) (s s₁ : Server δ) (es es₁ : List Hub.Event),
      (create number config device).run? disk events = some (s, disk', es) → past <+: events →
      (create number config device).run? disk past = some (s₁, disk₁, es₁) →
      es₁ <+: es ∧ ∃ log, (Hub.start device config.patience).run? es₁ = some (s₁.hub, log)) ∧
    (∀ {δ : Type} [Service δ] (device : δ) (patience : Nat) (es : List Hub.Event) (h : Hub δ) (log : List Mark),
      (Hub.start device patience).run? es = some (h, log) → Hub.Linearized device patience es (turns log)) ∧
    ∀ (device : RegisterFile) (patience : Nat) (es : List Hub.Event) (h : Hub RegisterFile) (log : List Mark),
      (Hub.start device patience).run? es = some (h, log) → Hub.ReadsLatest device patience es h log (turns log) :=
  ⟨fun _ _ _ _ _ _ _ _ _ _ _ _ hr hp h₁ => ⟨hub_moment hr hp h₁, hub_run h₁⟩, fun _ _ _ _ _ hr => Hub.linearized_run hr,
    fun _ _ _ _ _ hr => Hub.readsLatest_run hr⟩

/-- Two clients at once, on a socket at the root. -/
def twoAtOnce : ServerConfig := { socketPath := "/s", maxConnections := 2, sendTimeout := 1000 }

/-- A server is started and lets two clients in, the first of which has already sent its request. It writes a register
and takes its answer; then the device ticks, an interrupt is announced to the other client, and this one reads the
register. -/
def writeThenRead : List Event :=
  let step (t : Nat) : Event := .move (.hub (.advance t Frame.size))
  [.start, .move (.caller []), .move (.caller []), .move .gate, .arrive 0 (.fresh 4096),
    .client 0 (.feed (Frame.write 1 64 7).encode), .move .gate, .move .gate, .arrive 1 (.fresh 4096), .move .gate,
    step 0, step 0, step 0, step 0, step 0, .client 0 (.collect 276), step 0, step 0, step 0, .move (.attend 0),
    .tick (.ofSeed 5), .offer [9], .move (.relay [1]), .client 1 (.feed (Frame.read 1 64).encode), step 2, step 2,
    .move (.relay []), step 1, step 1, step 1, step 1, step 1, .client 1 (.collect 552)]

/-- What the one client reads was written to this register, the other client's turn was first, and the one client finds
its answer in what it has read, behind the announcement. -/
theorem linearizable_writeThenRead :
    ∃ s disk es log r f, (create 0 twoAtOnce (RegisterFile.empty 1)).run? .empty writeThenRead = some (s, disk, es) ∧
      (Hub.start (RegisterFile.empty 1) 1000).run? es = some (s.hub, log) ∧ s.hub.Received log 1 r ∧
      (∃ v : Frame, v.Writes 64 ∧ r.value = v.value) ∧ Precedes (turns log) 0 1 ∧
      s.hub.device = (turns log).foldl Turn.perform (RegisterFile.empty 1) ∧
      (∃ j, FrameBuffer.frameAt (s.hub.collected 1) j = .ok r) ∧ FrameBuffer.frameAt (s.hub.collected 1) 0 = .ok f ∧
      ((∃ g, Hub.Pushed es 1 g ∧ Frame.decode g.encode = .ok f) ∨ s.hub.Received log 1 f) := by
  have hmoment : ((create 0 twoAtOnce (RegisterFile.empty 1)).run? .empty (writeThenRead.take 16)).bind (fun x =>
      ((Hub.start (RegisterFile.empty 1) 1000).run? x.2.2).map fun y =>
        (y.1.tasks[0]?.map (·.serves 0), (y.1.collectedFrom y.2 0 0).length, y.1.sentBy 1)) =
          some (some true, Frame.size, []) := by
    decide +kernel
  have hend : ((create 0 twoAtOnce (RegisterFile.empty 1)).run? .empty writeThenRead).bind (fun x =>
      ((Hub.start (RegisterFile.empty 1) 1000).run? x.2.2).map fun y =>
        (y.1.tasks[1]?.map (·.serves 1), (y.1.collectedFrom y.2 1 1).length, (y.1.collected 1).length)) =
          some (some true, Frame.size, 2 * Frame.size) := by
    decide +kernel
  have hasks : ((create 0 twoAtOnce (RegisterFile.empty 1)).run? .empty writeThenRead).map (fun x =>
      (x.1.hub.links[0]?.map Hub.asked, x.1.hub.links[1]?.map Hub.asked)) =
        some (some (Frame.size, .write, 64), some (Frame.size, .read, 64)) := by
    decide +kernel
  have hwhole : ((create 0 twoAtOnce (RegisterFile.empty 1)).run? .empty writeThenRead).map (fun x =>
      (Hub.start (RegisterFile.empty 1) 1000).sendsWhole 1 x.2.2) = some true := by
    decide +kernel
  obtain ⟨⟨s₁, disk₁, es₁⟩, hs₁, heq₁⟩ := Option.bind_eq_some_iff.1 hmoment
  obtain ⟨⟨s, disk, es⟩, hs, heq⟩ := Option.bind_eq_some_iff.1 hend
  obtain ⟨hearly, log₁, hr₁⟩ :=
    linearizable.1 (RegisterFile.empty 1) 0 twoAtOnce _ _ _ _ _ _ _ _ _ hs (List.take_prefix 16 _) hs₁
  obtain ⟨-, log, hr⟩ := linearizable.1 (RegisterFile.empty 1) 0 twoAtOnce _ _ _ _ _ _ _ _ _ hs (List.prefix_refl _) hs
  have hpatience : twoAtOnce.patience = 1000 := rfl
  rw [hpatience] at hr₁ hr
  rw [hs] at hasks hwhole
  simp only [hr₁, hr, Option.map_some, Option.some.injEq, Prod.mk.injEq] at heq₁ heq hasks hwhole
  obtain ⟨hserves₁, hlen₁, hsent⟩ := heq₁
  obtain ⟨hserves, hlen, hall⟩ := heq
  have hpasses : Hub.Passes (RegisterFile.empty 1) 1000 es s₁.hub log₁ := ⟨_, hearly, hr₁⟩
  have hhere : Hub.Passes (RegisterFile.empty 1) 1000 es s.hub log := ⟨_, List.prefix_refl _, hr⟩
  have hack := Hub.received_of_length hserves₁ (Nat.le_of_eq hlen₁.symm)
  have hrec := Hub.received_of_length hserves (Nat.le_of_eq hlen.symm)
  obtain ⟨w, hw, hwrite, hwa⟩ := Hub.asks_of_asked hasks.1
  obtain ⟨fetch, hfetch, hread, hfa⟩ := Hub.asks_of_asked hasks.2
  have hlong : Frame.size ≤ (((s.hub.collected 1).drop (276 * 0)).take 276).length := by
    rw [List.length_take, List.length_drop, hall]
    decide
  have hf := Frame.decode_of_le hlong
  have hlinear := linearizable.2.1 (RegisterFile.empty 1) 1000 es s.hub log hr
  obtain ⟨_, _, _, _, v, _, _, _, _, _, hv, _, _, hvalue⟩ :=
    linearizable.2.2 (RegisterFile.empty 1) 1000 es s.hub log hr s₁.hub log₁ 0 1 w _ fetch _ hpasses hack hsent hw
      hwrite hfetch hread (hfa.trans hwa.symm) hrec
  exact ⟨s, disk, es, log, _, _, hs, hr, hrec, ⟨v, hwa ▸ hv, hvalue⟩,
    hlinear.in_time s₁.hub log₁ 0 1 _ hpasses hack hsent, (hlinear.state s.hub log hhere).2,
    (hlinear.found s.hub log 1 _ hhere hwhole).2 hrec, hf, (hlinear.found s.hub log 1 _ hhere hwhole).1 ⟨0, hf⟩⟩

end Server

end Peripheral
