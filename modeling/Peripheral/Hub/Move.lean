import Peripheral.Hub.Basic

/-!
# The moves of a hub

Every task makes one move at a time, and which task moves next is left open. A move reads or writes some bytes, starts on a
job, executes a request, gives up something whose time is over, or ends a handler whose run was told to end.
-/

namespace Peripheral

/-- A move of a task. A grant is the number of bytes that the system is willing to move at once. -/
inductive Hub.Move
  | advance (task grant : Nat)
  | heed (task : Nat)
  | expire (task : Nat)
  deriving DecidableEq, Repr

namespace Hub

variable {δ : Type}

/-- Starts on a job. -/
def begin (h : Hub δ) (t : Nat) (c : Courier) (jobs : List Job) : Job → Courier × Hub δ
  | .reach p f =>
    if h.members.contains p then ({ c with jobs := .send p f :: jobs }, h)
    else ({ c with jobs, failure? := some (.peerGone p.number) }, h)
  | .send p f =>
    ({ c with work := .sending p f.encode (h.clock + h.patience), jobs }, h.updateLink p (·.join t))
  | .dismiss p =>
    if h.members.contains p then
      ({ c with work := .shutting p (h.clock + h.patience), jobs },
        { h with members := h.members.erase p }.updateLink p (·.join t))
    else ({ c with jobs }, h)
  | .shut p =>
    ({ c with work := .shutting p (h.clock + h.patience), jobs }, h.updateLink p (·.join t))

/-- Writes some of the rest of a frame to a peer, if there is room and it is the task's turn. -/
def write (h : Hub δ) (t : Nat) (c : Courier) (p : Peer) (rest : Bytes) (deadline grant : Nat) (l : Link) :
    Option (Courier × Hub δ) :=
  if !l.isHeldBy t then none
  else if l.outbound.isBroken then some (c.giveUp p (.io .brokenPipe), h.updateLink p (·.leave t))
  else
    let n := min (min grant l.outbound.room) rest.length
    let put (l : Link) : Link := { l with outbound := l.outbound.append (rest.take n) }
    if n = 0 then none
    else if n = rest.length then
      some ({ c with work := .idle, reached := c.reached ++ [p] }, h.updateLink p fun l => (put l).leave t)
    else some ({ c with work := .sending p (rest.drop n) deadline }, h.updateLink p put)

/-- A courier goes on with what it does. -/
def advanceCourier (h : Hub δ) (t : Nat) (c : Courier) (grant : Nat) : Option (Courier × Hub δ) :=
  match c.work with
  | .idle =>
    match c.jobs with
    | [] => none
    | j :: jobs => some (h.begin t c jobs j)
  | .sending p rest d => h.links[p]?.bind (h.write t c p rest d grant)
  | .shutting p _ =>
    match h.links[p]? with
    | none => none
    | some l =>
      if l.isHeldBy t then
        some ({ c with work := .idle }, h.updateLink p fun l => { l with outbound := l.outbound.finish }.leave t)
      else none

/-- A courier gives up what it does, if the time for it is over. -/
def expireCourier (h : Hub δ) (t : Nat) (c : Courier) : Option (Courier × Hub δ) :=
  match c.work with
  | .idle => none
  | .sending p _ d =>
    if d ≤ h.clock then some (c.giveUp p (.tooSlow h.patience), h.updateLink p (·.leave t)) else none
  | .shutting p d => if d ≤ h.clock then some ({ c with work := .idle }, h.updateLink p (·.leave t)) else none

/-- A handler that waits for its request reads some more of it. -/
def receive (h : Hub δ) (x : Handler) (got : Bytes) (grant : Nat) (l : Link) : Option (Handler.Stage × Hub δ) :=
  match l.inbound.held with
  | [] =>
    match l.inbound.ending with
    | .more => none
    | .ended => some (.refusing x.peer (.framing ⟨got.length⟩), h)
    | .failed f => some (.refusing x.peer (.io f), h)
  | _ :: _ =>
    match l.inbound.read (min grant (Frame.size - got.length)) with
    | ([], _) => none
    | (b :: more, inbound) =>
      some (.received (got ++ b :: more), h.updateLink x.peer fun l => { l with inbound })

/-- A handler has its request executed. -/
def executeFor [Service δ] (h : Hub δ) (x : Handler) (request : Frame) : Handler.Stage × Hub δ :=
  match Service.execute h.device request with
  | (some response, device) => (.responding x.peer response, { h with device })
  | (none, device) => (.ended .crashed, { h with device })

/-- A handler goes on with its exchange. -/
def advanceHandler [Service δ] (h : Hub δ) (t : Nat) (x : Handler) (grant : Nat) : Option (Handler.Stage × Hub δ) :=
  match x.stage with
  | .receiving got => h.links[x.peer]?.bind (h.receive x got grant)
  | .holding request => some (h.executeFor x request)
  | .parting result c =>
    if c.isFinished then some (.ended (.of result c.failure?), h)
    else (h.advanceCourier t c grant).map fun (c, h) => (.parting result c, h)
  | .ended _ => none

/-- Makes a move, if it is possible. -/
def move? [Service δ] (h : Hub δ) : Move → Option (Hub δ)
  | .advance t grant =>
    match h.tasks[t]? with
    | none => none
    | some (.handler x) =>
      (h.advanceHandler t x grant).map fun (stage, h) => h.setTask t (.handler { x with stage })
    | some (.errand c) => (h.advanceCourier t c grant).map fun (c, h) => h.setTask t (.errand c)
  | .heed t =>
    match h.tasks[t]? with
    | some (.handler ⟨peer, run, .receiving _⟩) =>
      if run < h.halted then some (h.setTask t (.handler ⟨peer, run, .refusing peer .stopping⟩)) else none
    | _ => none
  | .expire t =>
    match h.tasks[t]? with
    | some (.handler ⟨peer, run, .parting result c⟩) =>
      (h.expireCourier t c).map fun (c, h) => h.setTask t (.handler ⟨peer, run, .parting result c⟩)
    | some (.errand c) => (h.expireCourier t c).map fun (c, h) => h.setTask t (.errand c)
    | _ => none

end Hub

end Peripheral
