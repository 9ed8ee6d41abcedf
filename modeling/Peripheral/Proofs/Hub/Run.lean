import Peripheral.Proofs.Hub.Step

/-!
# Runs of a hub

Everything that can happen to a hub, as events: the moves of its tasks, in any order; clients that arrive, write, read, stop
writing, go away or are cut off; what others begin to send or close; the end of runs, the passing of time and the ticks of the
device. A run is any list of events that are possible one after the other. It leaves a log of what an outsider could note:
the requests executed and refused, the bytes written and the ticks. The log tells the truth: the device is what the
executions and ticks make of it (`device_replay`), and a client's pipe carries exactly the bytes written to it
(`stream_eq_writtenTo`).
-/

namespace Peripheral

/-- What a client can do to its end of a link. -/
inductive Link.Act
  | feed (bytes : Bytes)
  | collect (most : Nat)
  | halfClose
  | hangUp
  /-- The connection fails under the client's hands. -/
  | breakOff (fault : IoFault)

namespace Link

/-- The link after an act of its client. -/
def act (l : Link) : Act → Link
  | .feed bytes => (l.feed bytes).2
  | .collect most => { l with outbound := (l.outbound.read most).2 }
  | .halfClose => l.halfClose
  | .hangUp => l.hangUp
  | .breakOff fault => { l with inbound := l.inbound.fail fault }

/-- Whether nobody but the client has used the link. -/
def isFresh (l : Link) : Bool := l.line.isEmpty && l.inbound.position == 0 && l.outbound.stream.isEmpty

/-- A fresh link has nobody in line, and nothing was read from it or written to it. -/
theorem isFresh_iff {l : Link} : l.isFresh = true ↔ l.line = [] ∧ l.inbound.position = 0 ∧ l.outbound.stream = [] := by
  simp only [isFresh, Bool.and_eq_true, List.isEmpty_iff, beq_iff_eq, and_assoc]

/-- A client can do nothing that makes a fresh link an old one. -/
theorem isFresh_act {l : Link} (hl : l.isFresh = true) (act : Act) : (l.act act).isFresh = true := by
  obtain ⟨hline, hposition, hstream⟩ := isFresh_iff.1 hl
  rw [isFresh_iff]
  cases act <;> exact ⟨hline, hposition, hstream⟩

end Link

/-- Whether a task conducts the exchange with a peer. -/
def Task.serves (p : Peer) : Task → Bool
  | handler x => x.peer == p
  | errand _ => false

/-- The peer to which a frame is being written. -/
def Work.addressee? : Work → Option Peer
  | sending p _ _ => some p
  | _ => none

/-- Something that happens to a hub. Where all peers are addressed, the event carries their order. -/
inductive Hub.Event
  | move (m : Hub.Move)
  | attach (link : Link)
  | serve (p : Peer) (run : Nat)
  | broadcast (order : List Peer) (f : Frame)
  | sendTo (p : Peer) (f : Frame)
  | close (p : Peer)
  | closeAll (order : List Peer)
  | cutShort (t : Nat)
  | halt (runs : Nat)
  | client (p : Peer) (act : Link.Act)
  | wait (ms : Nat)
  | tick (g : Rng)

/-- Something that an outsider could note. -/
inductive Mark
  /-- The request of a peer was executed; there is no response if the device broke down. -/
  | executed (peer : Peer) (request : Frame) (response? : Option Frame)
  /-- A handler gave up on receiving the request of its peer. -/
  | refused (peer : Peer) (error : ExchangeError)
  /-- A task that sends a frame to a peer wrote so many bytes, perhaps none. -/
  | wrote (task : Nat) (peer : Peer) (bytes : Bytes)
  /-- The device acted by itself. -/
  | ticked (g : Rng)
  deriving DecidableEq

namespace Mark

/-- The request of a peer and the response to it, if this is their execution. -/
def execution? (p : Peer) : Mark → Option (Frame × Option Frame)
  | executed q request response? => if q = p then some (request, response?) else none
  | _ => none

/-- Why the request of a peer was given up, if it was. -/
def refusal? (p : Peer) : Mark → Option ExchangeError
  | refused q e => if q = p then some e else none
  | _ => none

/-- The bytes that a task wrote to a peer. -/
def bytes (t : Nat) (p : Peer) : Mark → Bytes
  | wrote s q bytes => if s = t ∧ q = p then bytes else []
  | _ => []

/-- The bytes that anybody wrote to a peer. -/
def bytesTo (p : Peer) : Mark → Bytes
  | wrote _ q bytes => if q = p then bytes else []
  | _ => []

/-- The device after what was noted. -/
def replay {δ : Type} [Service δ] (d : δ) : Mark → δ
  | executed _ request _ => (Service.execute d request).2
  | ticked g => (Service.tick d g).2.1
  | _ => d

end Mark

/-- The executions of requests of a peer, with their responses. -/
def executions (p : Peer) (log : List Mark) : List (Frame × Option Frame) := log.filterMap (Mark.execution? p)

/-- Why handlers gave up on the request of a peer. -/
def refusals (p : Peer) (log : List Mark) : List ExchangeError := log.filterMap (Mark.refusal? p)

/-- All bytes that a task wrote to a peer. -/
def written (t : Nat) (p : Peer) (log : List Mark) : Bytes := log.flatMap (Mark.bytes t p)

/-- All bytes that were written to a peer. -/
def writtenTo (p : Peer) (log : List Mark) : Bytes := log.flatMap (Mark.bytesTo p)

/-- What executions and ticks make of a device. -/
def replay {δ : Type} [Service δ] (d : δ) (log : List Mark) : δ := log.foldl Mark.replay d

namespace Hub

variable {δ : Type} [Service δ]

/-- Every byte that was put into the pipe to a client. -/
def stream (h : Hub δ) (p : Peer) : Bytes := (h.links[p]?.map (·.outbound.stream)).getD []

/-- The hub after an event, if the event is possible. An exchange is conducted once with every peer. -/
def after? (h : Hub δ) : Event → Option (Hub δ)
  | .move m => h.move? m
  | .attach link => if link.isFresh then some (h.register link) else none
  | .serve p run => if p < h.links.length ∧ ¬h.tasks.any (·.serves p) then some (h.serve p run) else none
  | .broadcast order f => if order.isPerm h.members then some (h.broadcastIn order f) else none
  | .sendTo p f => some (h.sendTo p f)
  | .close p => some (h.close p)
  | .closeAll order => if order.isPerm h.members then some (h.closeAllIn order) else none
  | .cutShort t => some (h.cutShort t)
  | .halt runs => some (h.halt runs)
  | .client p act => some (h.updateLink p (·.act act))
  | .wait ms => some { h with clock := h.clock + ms }
  | .tick g => some { h with device := (Service.tick h.device g).2.1 }

/-- What a courier writes in a step of task `t`. -/
def delivery (h : Hub δ) (t : Nat) (c : Courier) (h' : Hub δ) : List Mark :=
  match c.work.addressee? with
  | some p => [.wrote t p ((h'.stream p).drop (h.stream p).length)]
  | none => []

/-- What the step of a task from one thing to another shows. -/
def shown (h : Hub δ) (t : Nat) (a b : Task) (h' : Hub δ) : List Mark :=
  match a, b with
  | .handler ⟨p, _, .holding request⟩, _ => [.executed p request (Service.execute h.device request).1]
  | .handler ⟨p, _, .receiving _⟩, .handler ⟨_, _, .parting (.error e) _⟩ => [.refused p e]
  | a, _ =>
    match a.courier? with
    | some c => h.delivery t c h'
    | none => []

/-- What an event shows. -/
def marks (h : Hub δ) (e : Event) (h' : Hub δ) : List Mark :=
  match e with
  | .move m =>
    match h.tasks[m.task]?, h'.tasks[m.task]? with
    | some a, some b => h.shown m.task a b h'
    | _, _ => []
  | .tick g => [.ticked g]
  | _ => []

/-- The hub after events, with the log of them, if they are possible one after the other. -/
def run? (h : Hub δ) : List Event → Option (Hub δ × List Mark)
  | [] => some (h, [])
  | e :: rest => do
    let h' ← h.after? e
    let (h'', log) ← h'.run? rest
    return (h'', h.marks e h' ++ log)

/-- What an event can do, and the hub after it. -/
inductive EventStep (h : Hub δ) : Event → Hub δ → Prop
  | move {m : Move} {a b : Task} {h' : Hub δ} : h.tasks[m.task]? = some a → TaskStep h m.task a b h' →
      EventStep h (.move m) (h'.setTask m.task b)
  | attach {link : Link} : link.isFresh = true → EventStep h (.attach link) (h.register link)
  | serve {p : Peer} {run : Nat} : p < h.links.length → (∀ a ∈ h.tasks, ¬a.serves p = true) →
      EventStep h (.serve p run) (h.serve p run)
  | broadcast {order : List Peer} {f : Frame} : order.isPerm h.members = true →
      EventStep h (.broadcast order f) (h.broadcastIn order f)
  | sendTo {p : Peer} {f : Frame} : EventStep h (.sendTo p f) (h.sendTo p f)
  | close {p : Peer} : EventStep h (.close p) (h.close p)
  | closeAll {order : List Peer} : order.isPerm h.members = true → EventStep h (.closeAll order) (h.closeAllIn order)
  | cutShort {t : Nat} : EventStep h (.cutShort t) (h.cutShort t)
  | halt {runs : Nat} : EventStep h (.halt runs) (h.halt runs)
  | client {p : Peer} {act : Link.Act} : EventStep h (.client p act) (h.updateLink p (·.act act))
  | wait {ms : Nat} : EventStep h (.wait ms) { h with clock := h.clock + ms }
  | tick {g : Rng} : EventStep h (.tick g) { h with device := (Service.tick h.device g).2.1 }

/-- What an event does to a hub is one of the steps of hubs. -/
theorem eventStep_of_after? {h h' : Hub δ} {e : Event} (he : h.after? e = some h') : EventStep h e h' := by
  cases e with
  | move m =>
    obtain ⟨a, b, h₁, ha, hs, rfl⟩ := taskStep_of_move? he
    exact .move ha hs
  | attach link =>
    obtain ⟨hf, heq⟩ := Option.ite_none_right_eq_some.1 he
    cases heq
    exact .attach hf
  | serve p run =>
    obtain ⟨⟨hp, hany⟩, heq⟩ := Option.ite_none_right_eq_some.1 he
    cases heq
    exact .serve hp fun a ha hs => hany (List.any_eq_true.2 ⟨a, ha, hs⟩)
  | broadcast order f =>
    obtain ⟨ho, heq⟩ := Option.ite_none_right_eq_some.1 he
    cases heq
    exact .broadcast ho
  | closeAll order =>
    obtain ⟨ho, heq⟩ := Option.ite_none_right_eq_some.1 he
    cases heq
    exact .closeAll ho
  | sendTo p f => cases he; exact .sendTo
  | close p => cases he; exact .close
  | cutShort t => cases he; exact .cutShort
  | halt runs => cases he; exact .halt
  | client p act => cases he; exact .client
  | wait ms => cases he; exact .wait
  | tick g => cases he; exact .tick

/-- What is preserved by every event is preserved by every run. -/
theorem run?_preserves {P : Hub δ → List Mark → Prop} {h h' : Hub δ} {es : List Event} {log more : List Mark}
    (step : ∀ h e h' log, P h log → h.after? e = some h' → P h' (log ++ h.marks e h'))
    (hp : P h log) (hr : h.run? es = some (h', more)) : P h' (log ++ more) := by
  induction es generalizing h log more with
  | nil =>
    obtain ⟨rfl, rfl⟩ := Prod.mk.inj (Option.some.inj hr)
    rw [List.append_nil]
    exact hp
  | cons e rest ih =>
    obtain ⟨h₁, he, hr⟩ := Option.bind_eq_some_iff.1 hr
    obtain ⟨⟨h₂, log₂⟩, hr₂, heq⟩ := Option.bind_eq_some_iff.1 hr
    obtain ⟨rfl, rfl⟩ := Prod.mk.inj (Option.some.inj heq)
    rw [← List.append_assoc]
    exact ih (step h e h₁ log hp he) hr₂

/-- What holds in the beginning and is preserved by every event holds after every run. -/
theorem run?_induction {P : Hub δ → List Mark → Prop} {d : δ} {patience : Nat} {h : Hub δ} {es : List Event}
    {log : List Mark} (base : P (start d patience) [])
    (step : ∀ h e h' log, P h log → h.after? e = some h' → P h' (log ++ h.marks e h'))
    (hr : (start d patience).run? es = some (h, log)) : P h log :=
  run?_preserves step base hr

/-- A run is a run up to any moment of it, and one from there on. -/
theorem run?_append {h h'' : Hub δ} {es more : List Event} {log : List Mark}
    (hr : h.run? (es ++ more) = some (h'', log)) :
    ∃ h' log₁ log₂, h.run? es = some (h', log₁) ∧ h'.run? more = some (h'', log₂) ∧ log = log₁ ++ log₂ := by
  induction es generalizing h log with
  | nil => exact ⟨h, [], log, rfl, hr, rfl⟩
  | cons e rest ih =>
    obtain ⟨h₁, he, hr⟩ := Option.bind_eq_some_iff.1 hr
    obtain ⟨⟨h₂, log'⟩, hr', heq⟩ := Option.bind_eq_some_iff.1 hr
    obtain ⟨rfl, rfl⟩ := Prod.mk.inj (Option.some.inj heq)
    obtain ⟨h', log₁, log₂, hpast, hmore, rfl⟩ := ih hr'
    refine ⟨h', h.marks e h₁ ++ log₁, log₂, ?_, hmore, (List.append_assoc _ _ _).symm⟩
    rw [run?, he]
    simp only [Option.bind_eq_bind, Option.bind_some, hpast, Option.pure_def]

/-- A run up to some moment, and one from there on, are a run. -/
theorem run?_trans {h h' h'' : Hub δ} {es more : List Event} {log₁ log₂ : List Mark} (hr : h.run? es = some (h', log₁))
    (hm : h'.run? more = some (h'', log₂)) : h.run? (es ++ more) = some (h'', log₁ ++ log₂) := by
  induction es generalizing h log₁ with
  | nil =>
    cases hr
    exact hm
  | cons e rest ih =>
    obtain ⟨h₁, he, hr⟩ := Option.bind_eq_some_iff.1 hr
    obtain ⟨⟨h₂, log'⟩, hr', heq⟩ := Option.bind_eq_some_iff.1 hr
    cases heq
    rw [List.cons_append, run?, he]
    simp only [Option.bind_eq_bind, Option.bind_some, ih hr', Option.pure_def, List.append_assoc]

/-- Events that lead a hub to another one. -/
def Leads (h : Hub δ) (es : List Event) (h' : Hub δ) : Prop := ∃ log, h.run? es = some (h', log)

theorem Leads.refl (h : Hub δ) : h.Leads [] h := ⟨[], rfl⟩

theorem Leads.append {h h' h'' : Hub δ} {es more : List Event} (hl : h.Leads es h') (hm : h'.Leads more h'') :
    h.Leads (es ++ more) h'' := by
  obtain ⟨log₁, hr₁⟩ := hl
  obtain ⟨log₂, hr₂⟩ := hm
  exact ⟨log₁ ++ log₂, run?_trans hr₁ hr₂⟩

theorem Leads.single {h h' : Hub δ} {e : Event} (he : h.after? e = some h') : h.Leads [e] h' := by
  refine ⟨h.marks e h' ++ [], ?_⟩
  rw [run?, he]
  rfl

/-- A run that ends with an event is a run and this event. -/
theorem run?_concat {h h'' : Hub δ} {es : List Event} {e : Event} {log : List Mark}
    (hr : h.run? (es ++ [e]) = some (h'', log)) :
    ∃ h' log₁, h.run? es = some (h', log₁) ∧ h'.after? e = some h'' ∧ log = log₁ ++ h'.marks e h'' := by
  obtain ⟨h', log₁, log₂, hpast, hlast, rfl⟩ := run?_append hr
  obtain ⟨h₁, he, hlast⟩ := Option.bind_eq_some_iff.1 hlast
  obtain ⟨⟨h₂, log₃⟩, hnil, heq⟩ := Option.bind_eq_some_iff.1 hlast
  obtain ⟨rfl, rfl⟩ := Prod.mk.inj (Option.some.inj heq)
  obtain ⟨rfl, rfl⟩ := Prod.mk.inj (Option.some.inj hnil)
  exact ⟨h', log₁, hpast, he, by rw [List.append_nil]⟩

/-- What holds in the beginning and is carried on by the last event of every run holds after every run. Other than in
`run?_induction`, the events may be spoken of. -/
theorem run?_moments {P : List Event → Hub δ → List Mark → Prop} {d : δ} {patience : Nat} {h : Hub δ} {es : List Event}
    {log : List Mark} (base : P [] (start d patience) [])
    (step : ∀ es h e h' log, (start d patience).run? es = some (h, log) → P es h log → h.after? e = some h' →
      P (es ++ [e]) h' (log ++ h.marks e h'))
    (hr : (start d patience).run? es = some (h, log)) : P es h log := by
  induction hn : es.length generalizing es h log with
  | zero =>
    obtain rfl := List.eq_nil_of_length_eq_zero hn
    obtain ⟨rfl, rfl⟩ := Prod.mk.inj (Option.some.inj hr)
    exact base
  | succ n ih =>
    obtain ⟨past, e, rfl⟩ := (List.eq_nil_or_concat es).resolve_left (List.ne_nil_of_length_eq_add_one hn)
    rw [List.concat_eq_append] at hr hn ⊢
    obtain ⟨h', log₁, hpast, he, rfl⟩ := run?_concat hr
    rw [List.length_append] at hn
    exact step past h' e h log₁ hpast (ih hpast (Nat.succ.inj hn)) he

/-! ## What a step shows -/

/-- What is noted of a handler that sends its response is what its courier writes. -/
theorem shown_convey {h h' : Hub δ} {t run : Nat} {p : Peer} {result : Except ExchangeError Frame} {c : Courier}
    {b : Task} : h.shown t (.handler ⟨p, run, .parting result c⟩) b h' = h.delivery t c h' := rfl

/-- Nothing is noted of a handler that reads. -/
theorem shown_read {h h' : Hub δ} {t run : Nat} {p : Peer} {got more : Bytes} :
    h.shown t (.handler ⟨p, run, .receiving got⟩) (.handler ⟨p, run, .received more⟩) h' = [] := by
  unfold Handler.Stage.received
  split
  · rfl
  · rfl

/-- What is noted of a move is what is noted of the step of its task. -/
theorem marks_move {h h' : Hub δ} {m : Move} {a b : Task} (ha : h.tasks[m.task]? = some a)
    (hs : TaskStep h m.task a b h') :
    h.marks (.move m) (h'.setTask m.task b) = h.shown m.task a b h' := by
  have hb : (h'.setTask m.task b).tasks[m.task]? = some b := tasks_setTask_self b (hs.tasks_eq ▸ ha)
  simp only [marks, ha, hb]
  rfl

omit [Service δ] in
/-- A courier that sends nothing is noted for nothing. -/
theorem delivery_of_none {h h' : Hub δ} {t : Nat} {c : Courier} (hw : c.work.addressee? = none) :
    h.delivery t c h' = [] := by
  rw [delivery, hw]

omit [Service δ] in
/-- A courier that sends a frame is noted for what is added to the stream of the peer. -/
theorem delivery_of_sending {h h' : Hub δ} {t d : Nat} {c : Courier} {p : Peer} {rest bytes : Bytes}
    (hw : c.work = .sending p rest d) (hs : h'.stream p = h.stream p ++ bytes) :
    h.delivery t c h' = [.wrote t p bytes] := by
  rw [delivery, hw]
  simp only [Work.addressee?]
  rw [hs, List.drop_left]

omit [Service δ] in
/-- A courier that could write nothing is noted for writing nothing. -/
theorem delivery_of_unchanged {h h' : Hub δ} {t d : Nat} {c : Courier} {p : Peer} {rest : Bytes}
    (hw : c.work = .sending p rest d) (hs : h'.stream p = h.stream p) : h.delivery t c h' = [.wrote t p []] :=
  delivery_of_sending hw (hs.trans (List.append_nil _).symm)

/-! ## Streams -/

omit [Service δ] in
/-- The stream to a peer is what was put into the pipe of its link. -/
theorem stream_of_link {h : Hub δ} {p : Peer} {l : Link} (hl : h.links[p]? = some l) :
    h.stream p = l.outbound.stream := by
  rw [stream, hl]
  rfl

omit [Service δ] in
/-- A change of a link that adds nothing to the pipe leaves all streams as they are. -/
theorem stream_updateLink {h : Hub δ} {p : Peer} {f : Link → Link}
    (hf : ∀ l : Link, (f l).outbound.stream = l.outbound.stream) (q : Peer) : (h.updateLink p f).stream q = h.stream q := by
  rw [stream, stream, links_updateLink]
  cases h.links[q]? with
  | none => rfl
  | some l =>
    by_cases hpq : p = q
    · simp only [if_pos hpq, Option.map_some, hf]
    · simp only [if_neg hpq, Option.map_some, id]

omit [Service δ] in
/-- A change of a link that adds bytes to the pipe adds them to the stream of its peer only. -/
theorem stream_updateLink_put {h : Hub δ} {p : Peer} {l : Link} {bytes : Bytes} {f : Link → Link}
    (hl : h.links[p]? = some l) (hf : (f l).outbound.stream = l.outbound.stream ++ bytes) (q : Peer) :
    (h.updateLink p f).stream q = h.stream q ++ if p = q then bytes else [] := by
  by_cases hpq : p = q
  · subst hpq
    rw [stream_of_link (links_updateLink_self f hl), stream_of_link hl, hf, if_pos rfl]
  · rw [if_neg hpq, List.append_nil, stream, links_updateLink_of_ne f hpq]
    rfl

omit [Service δ] in
/-- A courier's step makes a pipe longer by what it writes to that client. -/
theorem CourierStep.stream_eq {h h' : Hub δ} {t : Nat} {c c' : Courier} (hs : CourierStep h t c c' h') (q : Peer) :
    h'.stream q = h.stream q ++ writtenTo q (h.delivery t c h') := by
  have quiet : ∀ {h' : Hub δ}, c.work.addressee? = none → h'.stream q = h.stream q →
      h'.stream q = h.stream q ++ writtenTo q (h.delivery t c h') := by
    intro h' hw hsame
    rw [delivery_of_none hw, hsame]
    exact (List.append_nil _).symm
  cases hs with
  | find hw => exact quiet (by rw [hw]; rfl) rfl
  | miss hw => exact quiet (by rw [hw]; rfl) rfl
  | skip hw => exact quiet (by rw [hw]; rfl) rfl
  | queue hw => exact quiet (by rw [hw]; rfl) (stream_updateLink (by intro; rfl) q)
  | dismiss hw => exact quiet (by rw [hw]; rfl) (stream_updateLink (by intro; rfl) q)
  | approach hw => exact quiet (by rw [hw]; rfl) (stream_updateLink (by intro; rfl) q)
  | shut hw => exact quiet (by rw [hw]; rfl) (stream_updateLink (by intro; rfl) q)
  | lapse hw => exact quiet (by rw [hw]; rfl) (stream_updateLink (by intro; rfl) q)
  | @put p rest d n l hw hl =>
    have hput := stream_updateLink_put (f := (·.put (rest.take n))) hl rfl
    rw [delivery_of_sending hw (by rw [hput p, if_pos rfl]), hput q]
    simp only [writtenTo, List.flatMap_cons, List.flatMap_nil, List.append_nil, Mark.bytesTo]
  | @complete p rest d l hw hl =>
    have hput := stream_updateLink_put (f := fun l => (l.put rest).leave t) hl rfl
    rw [delivery_of_sending hw (by rw [hput p, if_pos rfl]), hput q]
    simp only [writtenTo, List.flatMap_cons, List.flatMap_nil, List.append_nil, Mark.bytesTo]
  | @snap p rest d l hw =>
    have hleave := stream_updateLink (h := h) (p := p) (f := (·.leave t)) fun _ => rfl
    rw [delivery_of_unchanged hw (hleave p), hleave]
    simp only [writtenTo, List.flatMap_cons, List.flatMap_nil, List.append_nil, Mark.bytesTo, ite_self]
  | @late p rest d hw =>
    have hleave := stream_updateLink (h := h) (p := p) (f := (·.leave t)) fun _ => rfl
    rw [delivery_of_unchanged hw (hleave p), hleave]
    simp only [writtenTo, List.flatMap_cons, List.flatMap_nil, List.append_nil, Mark.bytesTo, ite_self]

/-- What a step of a task adds to the stream of a peer is what is noted as written to it. -/
theorem TaskStep.stream_eq {h h' : Hub δ} {t : Nat} {a b : Task} (hs : TaskStep h t a b h') (q : Peer) :
    h'.stream q = h.stream q ++ writtenTo q (h.shown t a b h') := by
  cases hs with
  | read =>
    rw [shown_read, stream_updateLink (f := (·.advance _)) fun _ => rfl]
    exact (List.append_nil _).symm
  | convey hc => exact hc.stream_eq q
  | errand hc => exact hc.stream_eq q
  | finish hw =>
    rw [shown_convey, delivery_of_none (by rw [hw]; rfl)]
    exact (List.append_nil _).symm
  | _ => exact (List.append_nil _).symm

omit [Service δ] in
/-- The stream to a peer that arrives is empty, as it was. -/
theorem stream_register {h : Hub δ} {link : Link} (hf : link.isFresh = true) (q : Peer) :
    (h.register link).stream q = h.stream q := by
  obtain ⟨_, _, hs⟩ := Link.isFresh_iff.1 hf
  rw [stream, stream, register]
  rcases Nat.lt_trichotomy q h.links.length with hq | rfl | hq
  · rw [List.getElem?_append_left hq]
  · rw [List.getElem?_concat_length, List.getElem?_eq_none (Nat.le_refl _)]
    exact hs
  · rw [List.getElem?_eq_none (by rw [List.length_append]; exact hq), List.getElem?_eq_none (Nat.le_of_lt hq)]

omit [Service δ] in
/-- To break a task off makes it leave the line of a link, at the most. -/
theorem links_cutShort (h : Hub δ) (t : Nat) (q : Peer) :
    (h.cutShort t).links[q]? = h.links[q]? ∨ (h.cutShort t).links[q]? = (h.links[q]?).map (·.leave t) := by
  unfold cutShort
  split
  · exact Or.inr List.getElem?_map
  · exact Or.inl rfl

omit [Service δ] in
/-- To break a task off adds nothing to any stream. -/
theorem stream_cutShort (h : Hub δ) (t : Nat) (q : Peer) : (h.cutShort t).stream q = h.stream q := by
  rw [stream, stream]
  rcases links_cutShort h t q with hl | hl
  · rw [hl]
  · rw [hl]
    cases h.links[q]? <;> rfl

/-- What an event adds to the stream of a peer is what is noted as written to it. -/
theorem stream_after? {h h' : Hub δ} {e : Event} (he : h.after? e = some h') (q : Peer) :
    h'.stream q = h.stream q ++ writtenTo q (h.marks e h') := by
  have quiet : ∀ {h' : Hub δ}, h'.stream q = h.stream q → h'.stream q = h.stream q ++ writtenTo q [] := by
    intro h' hsame
    rw [hsame]
    exact (List.append_nil _).symm
  cases eventStep_of_after? he with
  | move ha hs =>
    rw [marks_move ha hs]
    exact hs.stream_eq q
  | attach hf => exact quiet (stream_register hf q)
  | cutShort => exact quiet (stream_cutShort h _ q)
  | @client p act => exact quiet (stream_updateLink (by intro l; cases act <;> rfl) q)
  | tick => exact (List.append_nil _).symm
  | serve | broadcast | closeAll | sendTo | close | halt | wait => exact quiet rfl

/-- A client's pipe carries exactly the bytes that were written to it, in the order in which they were written. -/
theorem stream_eq_writtenTo {d : δ} {patience : Nat} {es : List Event} {h : Hub δ} {log : List Mark}
    (hr : (start d patience).run? es = some (h, log)) (p : Peer) : h.stream p = writtenTo p log := by
  refine run?_induction (P := fun h log => h.stream p = writtenTo p log) rfl ?_ hr
  intro h e h' log ih he
  rw [stream_after? he, ih, writtenTo, writtenTo, writtenTo, List.flatMap_append]

/-! ## The device -/

/-- What a step of a task makes of the device is what the executions noted of it make of it. -/
theorem TaskStep.device_eq {h h' : Hub δ} {t : Nat} {a b : Task} (hs : TaskStep h t a b h') :
    h'.device = replay h.device (h.shown t a b h') := by
  have courier : ∀ {c c' : Courier} {h' : Hub δ}, CourierStep h t c c' h' →
      h'.device = replay h.device (h.delivery t c h') := by
    intro c c' h' hc
    rw [hc.device_eq]
    unfold delivery
    cases c.work.addressee? <;> rfl
  cases hs with
  | read => rw [shown_read]; rfl
  | convey hc => exact courier hc
  | errand hc => exact courier hc
  | finish hw => rw [shown_convey, delivery_of_none (by rw [hw]; rfl)]; rfl
  | execute hx => exact (congrArg Prod.snd hx).symm
  | crash hx => exact (congrArg Prod.snd hx).symm
  | _ => rfl

/-- What an event makes of the device is what the executions noted of it make of it. -/
theorem device_after? {h h' : Hub δ} {e : Event} (he : h.after? e = some h') :
    h'.device = replay h.device (h.marks e h') := by
  cases eventStep_of_after? he with
  | move ha hs =>
    rw [marks_move ha hs]
    exact hs.device_eq
  | @cutShort t =>
    show (h.cutShort t).device = h.device
    unfold cutShort
    split <;> rfl
  | _ => rfl

/-- The device is what the executions and ticks that were noted make of it, one after the other. -/
theorem device_replay {d : δ} {patience : Nat} {es : List Event} {h : Hub δ} {log : List Mark}
    (hr : (start d patience).run? es = some (h, log)) : h.device = replay d log := by
  refine run?_induction (P := fun h log => h.device = replay d log) rfl ?_ hr
  intro h e h' log ih he
  rw [device_after? he, ih, replay, replay, replay, List.foldl_append]

end Hub

end Peripheral
