import Peripheral.Activity
import Peripheral.Client
import Peripheral.Server.Move

/-!
# Worlds

A world holds servers with the activities of their devices, the disk that their sockets are on, and the clients that have
connected to them. Between two instants everything happens that can; then time goes on to the next deadline or tick.
-/

namespace Peripheral

/-- A server and the activity of its device. -/
structure Station (δ : Type) where
  server : Server δ
  activity? : Option Activity
  /-- Whether somebody still owns the server. -/
  isOwned : Bool

/-- Servers, their clients, and the disk, at one instant. -/
structure World (δ : Type) where
  disk : Disk
  clock : Nat
  stations : List (Station δ)
  /-- The station of each client, by tickets. -/
  clients : List Nat

namespace Station

variable {δ : Type} [Service δ]

/-- The next instant at which something happens by itself. -/
def deadline? (s : Station δ) : Option Nat :=
  match s.server.hub.deadline?, s.activity?.bind (·.nextTick?) with
  | some a, some b => some (min a b)
  | some a, none => some a
  | none, b => b

/-- Makes the ticks that are due at an instant. -/
def tickAt (s : Station δ) (now : Nat) : Station δ :=
  match s.activity? with
  | none => s
  | some a =>
    let (a, device, queue) := a.elapse now s.server.hub.device s.server.queue
    { s with activity? := some a, server := { s.server with queue, hub := { s.server.hub with device } } }

end Station

namespace World

variable {δ : Type} [Service δ]

/-- A world without servers. -/
def start (disk : Disk) : World δ := ⟨disk, 0, [], []⟩

/-- Adds a server for a device. -/
def add (w : World δ) (config : ServerConfig) (device : δ) : World δ :=
  let server := Server.create w.stations.length config device
  { w with stations := w.stations ++ [⟨{ server with hub := { server.hub with clock := w.clock } }, none, true⟩] }

/-- Changes a station. -/
def updateStation (w : World δ) (i : Nat) (f : Station δ → Station δ) : World δ :=
  { w with stations := w.stations.modify i f }

/-- Changes a server. -/
def updateServer (w : World δ) (i : Nat) (f : Server δ → Server δ) : World δ :=
  w.updateStation i fun s => { s with server := f s.server }

/-- A server that somebody owns. -/
def server? (w : World δ) (i : Nat) : Option (Server δ) :=
  w.stations[i]?.bind fun s => if s.isOwned then some s.server else none

/-- Lets everything happen at stations that can happen at the present instant. -/
def settleStations (now : Nat) (d : Disk) : List (Station δ) → List (Station δ) × Disk
  | [] => ([], d)
  | s :: rest =>
    let s := s.tickAt now
    let (server, d) := s.server.settle d
    let (rest, d) := settleStations now d rest
    ({ s with server } :: rest, d)

/-- Lets everything happen that can happen at the present instant. -/
def settle (w : World δ) : World δ :=
  let (stations, disk) := settleStations w.clock w.disk w.stations
  { w with stations, disk }

/-- The next instant at which something happens by itself. -/
def deadline? (w : World δ) : Option Nat := (w.stations.filterMap (·.deadline?)).min?

/-- The world at a later instant, before anything happens there. -/
def moveTo (w : World δ) (now : Nat) : World δ :=
  { w with
    clock := now
    stations := w.stations.map fun s => { s with server := { s.server with hub := { s.server.hub with clock := now } } } }

/-- Lets time pass until something holds or an instant is reached, in at most the given number of instants. -/
def awaitWithin (holds : World δ → Bool) (limit : Nat) : Nat → World δ → World δ
  | 0, w => w.settle
  | n + 1, w =>
    let w := w.settle
    if holds w then w
    else
      match w.deadline? with
      | none => w
      | some t =>
        if limit < t then w else awaitWithin holds limit n (w.moveTo (max t (w.clock + 1)))

/-- The last instant. -/
def lastInstant : Nat := 18446744073709551616

/-- Lets time pass until something holds. -/
def await (w : World δ) (holds : World δ → Bool) : World δ :=
  awaitWithin holds lastInstant (lastInstant - w.clock) w

/-- Lets time pass until something holds, but not for longer than the given span. -/
def awaitFor (w : World δ) (ms : Nat) (holds : World δ → Bool) : World δ :=
  let limit := w.clock + ms
  let w := awaitWithin holds limit (ms + 1) w
  if holds w then w else (w.moveTo limit).settle

/-- Starts a server, and waits until it was started or not. -/
def startServer (w : World δ) (i : Nat) : Except StartError Unit × World δ :=
  match w.server? i with
  | none => (.ok (), w)
  | some s =>
    match s.requestStart with
    | .error e => (.error e, w)
    | .ok s =>
      let w := (w.updateServer i fun _ => s).await fun w => (w.server? i).all (·.call == .idle)
      match (w.server? i).bind (·.failure?) with
      | some e => (.error e, w)
      | none => (.ok (), w)

/-- Stops a server, and waits until it is stopped. -/
def stopServer (w : World δ) (i : Nat) : World δ :=
  (w.updateServer i (·.requestStop)).await fun w => (w.server? i).all (·.call == .idle)

/-- Lets go of a server. -/
def dropServer (w : World δ) (i : Nat) : World δ :=
  match w.server? i with
  | none => w
  | some s =>
    let (server, disk) := s.discard w.disk
    { w with disk }.updateStation i (fun s => { s with server, isOwned := false }) |>.settle

/-- Sends an interrupt to all peers of a server, and waits until that is done; tells how many got it. -/
def trigger (w : World δ) (i : Nat) (id : UInt32) : Nat × World δ :=
  match w.server? i with
  | none => (0, w)
  | some s =>
    let t := s.hub.tasks.length
    let w := (w.updateServer i fun s => { s with hub := s.hub.broadcast (s.hub.notice id) }).await fun w =>
      (w.server? i).all (·.hub.isFinished t)
    ((((w.server? i).bind (·.hub.courier? t)).map (·.reached.length)).getD 0, w)

/-- Offers interrupts to the queue of a server; tells how many it took. -/
def offer (w : World δ) (i : Nat) (ids : List UInt32) : Nat × World δ :=
  match w.server? i with
  | none => (0, w)
  | some s =>
    let (n, queue) := s.queue.offerAll ids
    (n, (w.updateServer i fun s => { s with queue }).settle)

/-- How many bytes a socket holds in each direction. -/
def socketCapacity : Nat := 212992

/-- A client connects to a socket; its ticket is the number of clients before it. -/
def connect (w : World δ) (path : String) : Except IoFault (World δ) := do
  let l ← w.disk.listener path
  match w.stations[l.server]? with
  | some s =>
    if s.server.listens l.run then
      let ticket := w.clients.length
      .ok ({ w with clients := w.clients ++ [l.server] }.updateServer l.server (·.arrive ticket (.fresh socketCapacity)))
    else .error .connectionRefused
  | none => .error .connectionRefused

/-- A client connects to a server, and accepting it fails. -/
def connectInVain (w : World δ) (path : String) : Except IoFault (World δ) := do
  let l ← w.disk.listener path
  let w ← w.connect path
  match w.stations[l.server]?.bind fun s => s.server.move? w.disk (.gateFails s.server.hub.members) with
  | some (server, disk) => .ok ({ w with disk }.updateServer l.server fun _ => server)
  | none => .ok w

/-- The server of a client. -/
def serverOf? (w : World δ) (ticket : Nat) : Option (Server δ) :=
  w.clients[ticket]?.bind fun i => w.stations[i]?.map (·.server)

/-- Changes the link of a client. -/
def updateLink (w : World δ) (ticket : Nat) (f : Link → Link) : World δ :=
  match w.clients[ticket]? with
  | some i => w.updateServer i (·.updateLink ticket f)
  | none => w

/-- Whether a client will get nothing beyond what waits for it. -/
def isOver (w : World δ) (ticket : Nat) : Bool := (w.serverOf? ticket).all (·.isOver ticket)

/-- A client writes, at most so many times; each time as much is taken as there is room for. -/
def feedWithin (ticket : Nat) : Nat → Bytes → Nat → World δ → Except IoFault Nat × World δ
  | 0, _, sent, w => (.ok sent, w)
  | n + 1, bytes, sent, w =>
    match bytes, w.serverOf? ticket with
    | [], _ | _, none => (.ok sent, w)
    | bytes, some s =>
      match s.link? ticket with
      | none => (.error .brokenPipe, w)
      | some l =>
        if l.inbound.isBroken || s.isGone ticket then (.error .brokenPipe, w)
        else
          let k := (l.feed bytes).1
          if k = 0 then (.ok sent, w)
          else feedWithin ticket n (bytes.drop k) (sent + k) (w.updateLink ticket fun l => (l.feed bytes).2).settle

/-- A client writes as much as is taken without time passing. -/
def feed (w : World δ) (ticket : Nat) (bytes : Bytes) : Except IoFault Nat × World δ :=
  feedWithin ticket (bytes.length + 1) bytes 0 w

/-- A client reads what is there and what comes in its place, at most so many times. -/
def collectWithin (ticket : Nat) : Nat → Bytes → World δ → Bytes × World δ
  | 0, got, w => (got, w)
  | n + 1, got, w =>
    match (w.serverOf? ticket).bind (·.link? ticket) with
    | none => (got, w)
    | some l =>
      match l.collect.1 with
      | [] => (got, w)
      | b :: more => collectWithin ticket n (got ++ b :: more) (w.updateLink ticket fun l => l.collect.2).settle

/-- A client reads all that comes without time passing. -/
def collect (w : World δ) (ticket : Nat) : Bytes × World δ :=
  collectWithin ticket (((w.serverOf? ticket).map (·.effort)).getD 0 + 1) [] w

/-- How long a client waits for an answer. -/
def callPatience : Nat := 60000

/-- A client that has sent its request waits for the answer, at most for so many instants. -/
def answerWithin (ticket limit : Nat) : Nat → Client.Waiting → World δ →
    Option (Except ExchangeError Client.Answer) × World δ
  | 0, _, w => (none, w)
  | n + 1, c, w =>
    let (bytes, w) := w.settle.collect ticket
    match c.receive bytes with
    | .ok a => (some (.ok a), w)
    | .error c =>
      if w.isOver ticket then (some (.error c.ended), w)
      else
        match w.deadline? with
        | none => (none, (w.moveTo limit).settle)
        | some t =>
          if limit < t then (none, (w.moveTo limit).settle)
          else answerWithin ticket limit n c (w.moveTo (max t (w.clock + 1)))

/-- A client connects to a socket, sends a request and waits for the answer; there is none if it waits too long. -/
def call (w : World δ) (path : String) (request : Frame) : Option (Except ExchangeError Client.Answer) × World δ :=
  match w.connect path with
  | .error f => (some (.error (.io f)), w)
  | .ok w =>
    let ticket := w.clients.length - 1
    match w.settle.feed ticket request.encode with
    | (.error f, w) => (some (.error (.io f)), w)
    | (.ok _, w) =>
      let (answer, w) := answerWithin ticket (w.clock + callPatience) (callPatience + 1) (.start request) w
      (answer, (w.updateLink ticket (·.hangUp)).settle)

end World

end Peripheral
