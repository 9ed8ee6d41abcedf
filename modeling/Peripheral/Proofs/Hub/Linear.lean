import Peripheral.Proofs.Device.Registers
import Peripheral.Proofs.Hub.Frames
import Peripheral.Proofs.Hub.Outcome

/-!
# One order of everything

Whatever clients and the device do at the same time, there is one sequence of turns of the device, each the execution of a
request or a tick, that explains all of it (`Linearized`): at every moment the device is what the turns so far have made of it,
every response that a client has received is the one that the device gives at that client's turn, and a client that has its
response before another has sent anything has its turn before it. On a register file a client therefore never reads anything
older than what was written before it began (`ReadsLatest`).
-/

namespace Peripheral

/-- A turn of the device: a request of a peer is executed, or the device acts by itself. -/
inductive Turn
  | request (peer : Peer) (request : Frame)
  | tick (g : Rng)

/-- The device after a turn. -/
def Turn.perform {δ : Type} [Service δ] (d : δ) : Turn → δ
  | request _ r => (Service.execute d r).2
  | tick g => (Service.tick d g).2.1

namespace Mark

/-- The turn of the device that a mark is about. -/
def turn? : Mark → Option Turn
  | executed p r _ => some (.request p r)
  | ticked g => some (.tick g)
  | _ => none

/-- A mark that is true of the device at its place: the response is the one that the device gives. -/
def IsTrue {δ : Type} [Service δ] (d : δ) : Mark → Prop
  | executed _ r response? => response? = (Service.execute d r).1
  | _ => True

end Mark

/-- The turns of the device, in the order in which they were noted. -/
def turns (log : List Mark) : List Turn := log.filterMap Mark.turn?

/-- Every mark is true of what the marks before it have made of a device. -/
def Truthful {δ : Type} [Service δ] (d : δ) : List Mark → Prop
  | [] => True
  | m :: log => m.IsTrue d ∧ Truthful (m.replay d) log

/-- Whenever two peers both have a turn, the first one has it before the second. -/
def Precedes (order : List Turn) (p q : Peer) : Prop :=
  ∀ (i j : Nat) (a b : Frame), order[i]? = some (.request p a) → order[j]? = some (.request q b) → i < j

section

variable {δ : Type} [Service δ]

theorem turns_append (log more : List Mark) : turns (log ++ more) = turns log ++ turns more :=
  List.filterMap_append

/-- The turns make of a device what the log makes of it. -/
theorem foldl_turns (d : δ) (log : List Mark) : (turns log).foldl Turn.perform d = replay d log := by
  induction log generalizing d with
  | nil => rfl
  | cons m log ih =>
    rw [replay, List.foldl_cons, ← replay, ← ih]
    cases m <;> rfl

/-- Marks are true one after the other if the first ones are, and the others are of what those have made of the device. -/
theorem truthful_append {d : δ} {log more : List Mark} :
    Truthful d (log ++ more) ↔ Truthful d log ∧ Truthful (replay d log) more := by
  induction log generalizing d with
  | nil => exact ⟨fun h => ⟨trivial, h⟩, And.right⟩
  | cons m log ih =>
    rw [List.cons_append, Truthful, Truthful, ih, and_assoc]
    rfl

/-- Who has a turn has had a request executed. -/
theorem executions_of_turn {log : List Mark} {p : Peer} {request : Frame} {i : Nat}
    (hi : (turns log)[i]? = some (.request p request)) : ∃ response?, (request, response?) ∈ executions p log := by
  obtain ⟨m, hm, hturn⟩ := List.mem_filterMap.1 (List.mem_of_getElem? hi)
  cases m with
  | executed q r response? =>
    cases hturn
    exact ⟨response?, List.mem_filterMap.2 ⟨_, hm, if_pos rfl⟩⟩
  | refused | wrote => nomatch hturn
  | ticked => cases hturn

/-- Who has had no request executed has no turn. -/
theorem turn_ne_of_executions {log : List Mark} {p : Peer} (h : executions p log = []) (request : Frame) (i : Nat) :
    (turns log)[i]? ≠ some (.request p request) := by
  intro hi
  obtain ⟨response?, hx⟩ := executions_of_turn hi
  rw [h] at hx
  nomatch hx

/-- The one turn of a peer, in the log and in the order of turns. -/
theorem turn_of_executions {log : List Mark} {p : Peer} {request response : Frame}
    (h : executions p log = [(request, some response)]) :
    ∃ before after, log = before ++ .executed p request (some response) :: after ∧ executions p before = [] ∧
      executions p after = [] ∧ turns log = turns before ++ .request p request :: turns after := by
  obtain ⟨before, m, after, rfl, hbefore, hm, hafter⟩ := List.filterMap_eq_cons_iff.1 h
  cases m with
  | executed q r response? =>
    obtain ⟨rfl, heq⟩ := Option.ite_none_right_eq_some.1 hm
    cases heq
    exact ⟨before, after, rfl, List.filterMap_eq_nil_iff.2 hbefore, hafter, turns_append _ _⟩
  | refused | wrote | ticked => nomatch hm

/-- The turn of a peer has a place of its own if the peer had no turn before it and none after it. -/
theorem index_of_turn {before after : List Mark} {p : Peer} {request other : Frame} {j : Nat}
    (hbefore : executions p before = []) (hafter : executions p after = [])
    (hj : (turns before ++ .request p request :: turns after)[j]? = some (.request p other)) :
    j = (turns before).length := by
  rcases Nat.lt_trichotomy j (turns before).length with hlt | heq | hgt
  · rw [List.getElem?_append_left hlt] at hj
    exact absurd hj (turn_ne_of_executions hbefore other j)
  · exact heq
  · obtain ⟨n, rfl⟩ := Nat.exists_eq_add_of_lt hgt
    rw [List.getElem?_append_right (by omega), Nat.add_assoc, Nat.add_sub_cancel_left, List.getElem?_cons_succ] at hj
    exact absurd hj (turn_ne_of_executions hafter other n)

/-- A peer whose turn was noted by a moment precedes a peer whose turn was not. -/
theorem precedes_of_executions {log more : List Mark} {p q : Peer} (hp : executions p more = [])
    (hq : executions q log = []) : Precedes (turns (log ++ more)) p q := by
  intro i j a b hi hj
  rw [turns_append] at hi hj
  by_cases hi' : i < (turns log).length
  · by_cases hj' : j < (turns log).length
    · rw [List.getElem?_append_left hj'] at hj
      exact absurd hj (turn_ne_of_executions hq b j)
    · omega
  · rw [List.getElem?_append_right (Nat.not_lt.1 hi')] at hi
    exact absurd hi (turn_ne_of_executions hp a _)

end

namespace Hub

variable {δ : Type} [Service δ]

/-- A run passes through a hub, with the log up to there. -/
def Passes (d : δ) (patience : Nat) (es : List Event) (h : Hub δ) (log : List Mark) : Prop :=
  ∃ past, past <+: es ∧ (start d patience).run? past = some (h, log)

omit [Service δ] in
/-- Every byte that a client has sent. -/
def sentBy (h : Hub δ) (p : Peer) : Bytes := (h.links[p]?.map (·.inbound.stream)).getD []

omit [Service δ] in
/-- What a client has sent begins with a request. -/
def Asks (h : Hub δ) (p : Peer) (request : Frame) : Prop := ∃ l, h.links[p]? = some l ∧ l.Requests request

/-- An order of turns explains a run of a hub from a device. -/
structure Linearized (d : δ) (patience : Nat) (es : List Event) (order : List Turn) : Prop where
  /-- At every moment the device is what the turns so far have made of it. -/
  state : ∀ h log, Passes d patience es h log → turns log <+: order ∧ h.device = (turns log).foldl Turn.perform d
  /-- A client that has received a response has one turn, for the request that it has sent, and the response is the one that
  the device gives at this turn. -/
  answered : ∀ h log p r, Passes d patience es h log → h.Received log p r → ∃ i request response,
    order[i]? = some (.request p request) ∧ (∀ j other, order[j]? = some (.request p other) → j = i) ∧
      h.Asks p request ∧ (Service.execute ((order.take i).foldl Turn.perform d) request).1 = some response ∧
      Frame.decode response.encode = .ok r
  /-- As long as no send to a client breaks off, the client finds the response that it has received in what it has read, and
  nothing but this and what was pushed to it. -/
  found : ∀ h log p f, Passes d patience es h log → (start d patience).sendsWhole p es = true →
    ((∃ j, FrameBuffer.frameAt (h.collected p) j = .ok f) →
      (∃ g, Pushed es p g ∧ Frame.decode g.encode = .ok f) ∨ h.Received log p f) ∧
    (h.Received log p f → ∃ j, FrameBuffer.frameAt (h.collected p) j = .ok f)
  /-- A client that has its response before another has sent anything has its turn before it. -/
  in_time : ∀ h log p q r, Passes d patience es h log → h.Received log p r → h.sentBy q = [] → Precedes order p q

/-! ## The log of a run -/

/-- What is noted of a step of a task is true of the device. -/
theorem TaskStep.truthful {h h' : Hub δ} {t : Nat} {a b : Task} (hs : TaskStep h t a b h') :
    Truthful h.device (h.shown t a b h') := by
  have courier : ∀ {c : Courier} {h' : Hub δ}, Truthful h.device (h.delivery t c h') := by
    intro c h'
    unfold delivery
    split
    · exact ⟨trivial, trivial⟩
    · exact trivial
  cases hs with
  | read => rw [shown_read]; exact trivial
  | convey | errand | finish => exact courier
  | execute | crash => exact ⟨rfl, trivial⟩
  | curtail | lose | heed => exact ⟨trivial, trivial⟩

/-- What is noted of an event is true of the device. -/
theorem truthful_after? {h h' : Hub δ} {e : Event} (he : h.after? e = some h') :
    Truthful h.device (h.marks e h') := by
  cases eventStep_of_after? he with
  | move ha hs =>
    rw [marks_move ha hs]
    exact hs.truthful
  | tick => exact ⟨trivial, trivial⟩
  | _ => exact trivial

section

variable {d : δ} {patience : Nat} {es : List Event} {h : Hub δ} {log : List Mark} {p : Peer}

/-- Everything that is noted in a run is true of the device it began with. -/
theorem truthful_run (hr : (start d patience).run? es = some (h, log)) : Truthful d log := by
  refine run?_moments (P := fun _ _ log => Truthful d log) trivial ?_ hr
  intro es h e h' log hr ih he
  refine truthful_append.2 ⟨ih, ?_⟩
  rw [← device_replay hr]
  exact truthful_after? he

omit [Service δ] in
/-- What was executed in an exchange is the request of the client. -/
theorem requests_of_progress {members : List Peer} {t : Nat} {l : Link} {done : List (Frame × Option Frame)}
    {given : List ExchangeError} {sent : Bytes} {stage : Handler.Stage} {x : Frame × Option Frame}
    (hp : Progress members t p l done given sent stage) (hx : x ∈ done) : l.Requests x.1 := by
  have none : done = [] → l.Requests x.1 := by
    rintro rfl
    nomatch hx
  have one : ∀ {request response?}, l.Requests request → done = [(request, response?)] → l.Requests x.1 := by
    rintro request response? hreq rfl
    rw [List.mem_singleton.1 hx]
    exact hreq
  cases hp with
  | receiving _ _ _ hd => exact none hd
  | holding _ hd => exact none hd
  | refusing _ _ _ hd => exact none hd
  | refused _ hd => exact none hd
  | responding hreq hd => exact one hreq hd
  | answered hreq hd => exact one hreq hd
  | undelivered hreq hd => exact one hreq hd
  | crashed hreq hd => exact one hreq hd

/-- A request that was executed is the one that the client has sent. -/
theorem asks_of_executions {x : Frame × Option Frame} (hr : (start d patience).run? es = some (h, log))
    (hx : x ∈ executions p log) : h.Asks p x.1 := by
  obtain ⟨m, hm, hmx⟩ := List.mem_filterMap.1 hx
  obtain ⟨t, a, ha, hserves⟩ : ∃ t, h.Conducts t p := by
    refine (orderly_run hr).exchange_conducted m hm p ?_
    cases m with
    | executed q r response? =>
      obtain ⟨rfl, -⟩ := Option.ite_none_right_eq_some.1 hmx
      rfl
    | refused | wrote | ticked => nomatch hmx
  cases a with
  | errand c => nomatch hserves
  | handler x' =>
    obtain rfl : x'.peer = p := eq_of_beq hserves
    obtain ⟨l, hl, hprog, -⟩ := exchanging_run hr t x' ha
    exact ⟨l, hl, requests_of_progress hprog hx⟩

/-- The request of a client that has sent nothing was not executed. -/
theorem executions_of_unsent (hr : (start d patience).run? es = some (h, log)) (hs : h.sentBy p = []) :
    executions p log = [] := by
  refine List.eq_nil_iff_forall_not_mem.2 ?_
  intro x hx
  obtain ⟨l, hl, hreq⟩ := asks_of_executions hr hx
  rw [sentBy, hl, Option.map_some, Option.getD_some] at hs
  have hlen := (Frame.decode_eq_ok_iff.1 hreq).1
  rw [hs, List.take_nil] at hlen
  exact absurd hlen (by decide)

omit [Service δ] in
/-- A client asks one thing only. -/
theorem Asks.unique {a b : Frame} (ha : h.Asks p a) (hb : h.Asks p b) : a = b := by
  obtain ⟨l, hl, ha⟩ := ha
  obtain ⟨l', hl', hb⟩ := hb
  rw [hl] at hl'
  cases hl'
  exact Except.ok.inj (ha.symm.trans hb)

/-- What was noted up to a moment of a run, and what was noted afterwards. -/
theorem Passes.split {h₁ : Hub δ} {log₁ : List Mark} (hp : Passes d patience es h₁ log₁)
    (hr : (start d patience).run? es = some (h, log)) :
    ∃ past log₂, past <+: es ∧ (start d patience).run? past = some (h₁, log₁) ∧ log = log₁ ++ log₂ := by
  obtain ⟨past, ⟨more, rfl⟩, hpast⟩ := hp
  obtain ⟨h', log', log₂, hpast', -, rfl⟩ := run?_append hr
  rw [hpast] at hpast'
  obtain ⟨-, rfl⟩ := Prod.mk.inj (Option.some.inj hpast')
  exact ⟨past, log₂, List.prefix_append _ _, hpast, rfl⟩

/-- A request that was executed by some moment is not executed afterwards. -/
theorem executions_afterwards {log₁ log₂ : List Mark} {x : Frame × Option Frame}
    (hr : (start d patience).run? es = some (h, log₁ ++ log₂)) (hx : executions p log₁ = [x]) :
    executions p log₂ = [] := by
  have hle := executions_length_le_one hr p
  rw [executions_append, hx, List.length_append, List.length_singleton] at hle
  exact List.eq_nil_of_length_eq_zero (by omega)

/-- A response that was received is the one that the device gives at the one turn of the client. -/
theorem answered_run {h₁ : Hub δ} {log₁ : List Mark} {r : Frame} (hr : (start d patience).run? es = some (h, log))
    (hp : Passes d patience es h₁ log₁) (hrec : h₁.Received log₁ p r) :
    ∃ i request response, (turns log)[i]? = some (.request p request) ∧
      (∀ j other, (turns log)[j]? = some (.request p other) → j = i) ∧ h₁.Asks p request ∧
      (Service.execute (((turns log).take i).foldl Turn.perform d) request).1 = some response ∧
      Frame.decode response.encode = .ok r := by
  obtain ⟨past, log₂, -, hpast, rfl⟩ := hp.split hr
  obtain ⟨l, request, response, hl, hreq, hdone, hdec⟩ := Received.response hpast hrec
  have hdone' : executions p (log₁ ++ log₂) = [(request, some response)] := by
    rw [executions_append, hdone, executions_afterwards hr hdone, List.append_nil]
  obtain ⟨before, after, hlog, hbefore, hafter, horder⟩ := turn_of_executions hdone'
  have htrue := truthful_run hr
  rw [hlog] at htrue
  obtain ⟨hresponse, -⟩ := (truthful_append.1 htrue).2
  refine ⟨(turns before).length, request, response, ?_, ?_, ⟨l, hl, hreq⟩, ?_, hdec⟩
  · rw [horder, List.getElem?_append_right (Nat.le_refl _), Nat.sub_self]
    rfl
  · intro j other hj
    rw [horder] at hj
    exact index_of_turn hbefore hafter hj
  · rw [horder, List.take_left, foldl_turns]
    exact hresponse.symm

/-- The turns that were noted in a run explain it. -/
theorem linearized_run (hr : (start d patience).run? es = some (h, log)) :
    Linearized d patience es (turns log) where
  state h₁ log₁ hp := by
    obtain ⟨past, log₂, -, hpast, rfl⟩ := hp.split hr
    rw [turns_append, foldl_turns]
    exact ⟨List.prefix_append _ _, device_replay hpast⟩
  answered h₁ log₁ p r hp hrec := answered_run hr hp hrec
  found h₁ log₁ p f hp hwhole := by
    obtain ⟨past, ⟨more, rfl⟩, hpast⟩ := hp
    refine ⟨?_, Received.found hpast (sendsWhole_append hwhole)⟩
    rintro ⟨j, hf⟩
    rcases frame_cases hpast (sendsWhole_append hwhole) hf with ⟨g, hg, hdec⟩ | hrec
    · exact Or.inl ⟨g, hg.mono more, hdec⟩
    · exact Or.inr hrec
  in_time h₁ log₁ p q r hp hrec hsent := by
    obtain ⟨past, log₂, -, hpast, rfl⟩ := hp.split hr
    obtain ⟨l, request, response, -, -, hdone, -⟩ := Received.response hpast hrec
    exact precedes_of_executions (executions_afterwards hr hdone) (executions_of_unsent hpast hsent)

end

/-! ## Register files -/

/-- A client that reads an address after a write to it was answered gets the value of this write, or that of a later one: the
last one before its own turn. -/
def ReadsLatest (d : RegisterFile) (patience : Nat) (es : List Event) (h : Hub RegisterFile) (log : List Mark)
    (order : List Turn) : Prop :=
  ∀ h₁ log₁ p q w ack fetch r, Passes d patience es h₁ log₁ → h₁.Received log₁ p ack → h₁.sentBy q = [] →
    h.Asks p w → w.command = .write → h.Asks q fetch → fetch.command = .read → fetch.address = w.address →
    h.Received log q r → ∃ (i j k : Nat) (s : Peer) (v : Frame), order[i]? = some (.request p w) ∧
      order[j]? = some (.request q fetch) ∧ i ≤ k ∧ k < j ∧ order[k]? = some (.request s v) ∧ v.Writes w.address ∧
      (∀ (m : Nat) (x : Peer) (u : Frame), k < m → m < j → order[m]? = some (.request x u) → ¬u.Writes w.address) ∧
      r.outcome = .success ∧ r.value = v.value

/-- Turns that write nothing at an address change nothing there. -/
theorem get_foldl_of_unwritten (d : RegisterFile) {order : List Turn} {a : UInt32}
    (h : ∀ p w, .request p w ∈ order → ¬w.Writes a) : (order.foldl Turn.perform d).get a = d.get a := by
  induction order generalizing d with
  | nil => rfl
  | cons turn order ih =>
    rw [List.foldl_cons, ih _ fun p w hw => h p w (List.mem_cons_of_mem _ hw)]
    cases turn with
    | request p w => exact RegisterFile.get_execute_of_not_writes d (h p w List.mem_cons_self)
    | tick g => rfl

/-- After turns of which one writes an address, the value there is that of the last one. -/
theorem latest_write (d : RegisterFile) {order : List Turn} {a : UInt32} {i : Nat} {p : Peer} {w : Frame}
    (hi : order[i]? = some (.request p w)) (hw : w.Writes a) :
    ∃ k s v, i ≤ k ∧ order[k]? = some (.request s v) ∧ v.Writes a ∧ (order.foldl Turn.perform d).get a = v.value ∧
      ∀ m x u, k < m → order[m]? = some (.request x u) → ¬u.Writes a := by
  induction order generalizing d i p w with
  | nil => nomatch hi
  | cons turn order ih =>
    rw [List.foldl_cons]
    by_cases hlater : ∃ i' p' w', order[i']? = some (.request p' w') ∧ w'.Writes a ∧ i ≤ i' + 1
    · obtain ⟨i', p', w', hi', hw', hle⟩ := hlater
      obtain ⟨k, s, v, hik, hk, hv, hget, hlast⟩ := ih (turn.perform d) hi' hw'
      refine ⟨k + 1, s, v, by omega, hk, hv, hget, ?_⟩
      intro m x u hkm hm
      obtain ⟨n, rfl⟩ := Nat.exists_eq_succ_of_ne_zero (Nat.ne_zero_of_lt hkm)
      exact hlast n x u (by omega) hm
    · -- Nothing is written behind the first turn, so it is the one that writes.
      obtain rfl : i = 0 := by
        by_cases h0 : i = 0
        · exact h0
        · obtain ⟨n, rfl⟩ := Nat.exists_eq_succ_of_ne_zero h0
          exact absurd ⟨n, p, w, hi, hw, Nat.le_refl _⟩ hlater
      have hnone : ∀ (m : Nat) (x : Peer) (u : Frame), order[m]? = some (.request x u) → ¬u.Writes a :=
        fun m x u hm hu => hlater ⟨m, x, u, hm, hu, Nat.zero_le _⟩
      refine ⟨0, p, w, Nat.le_refl _, hi, hw, ?_, ?_⟩
      · rw [get_foldl_of_unwritten]
        · obtain rfl : turn = .request p w := Option.some.inj hi
          exact RegisterFile.get_execute_of_writes d hw
        · intro x u hu
          obtain ⟨m, hm⟩ := List.getElem?_of_mem hu
          exact hnone m x u hm
      · intro m x u hm hu
        obtain ⟨n, rfl⟩ := Nat.exists_eq_succ_of_ne_zero (Nat.ne_zero_of_lt hm)
        exact hnone n x u hu

/-- In every run a client that reads after a write was answered gets a value that is not older. -/
theorem readsLatest_run {d : RegisterFile} {patience : Nat} {es : List Event} {h : Hub RegisterFile} {log : List Mark}
    (hr : (start d patience).run? es = some (h, log)) : ReadsLatest d patience es h log (turns log) := by
  intro h₁ log₁ p q w ack fetch r hp hack hsent hw hwrite hfetch hread haddress hrec
  have hhere : Passes d patience es h log := ⟨es, List.prefix_refl _, hr⟩
  obtain ⟨i, w', _, hi, -, -, -, -⟩ := answered_run hr hp hack
  obtain ⟨j, fetch', response, hj, -, hasks, hexec, hdec⟩ := answered_run hr hhere hrec
  obtain rfl : fetch' = fetch := hasks.unique hfetch
  obtain ⟨response?, hx⟩ := executions_of_turn hi
  obtain rfl : w' = w := (asks_of_executions hr hx).unique hw
  have hij : i < j := (linearized_run hr).in_time h₁ log₁ p q ack hp hack hsent i j _ _ hi hj
  have hi' : ((turns log).take j)[i]? = some (.request p w') := (List.getElem?_take_of_lt hij).trans hi
  obtain ⟨k, s, v, hik, hk, hv, hget, hlast⟩ := latest_write d hi' ⟨hwrite, rfl⟩
  have hkj : k < j := by
    have hlt := (List.getElem?_eq_some_iff.1 hk).1
    rw [List.length_take] at hlt
    omega
  have hresponse : (fetch'.reply .success).withValue v.value = response := by
    rw [← hget, ← haddress, ← Option.some.inj hexec, RegisterFile.execute_read _ hread]
  have hr' : response.canonical = r := Except.ok.inj ((Frame.decode_encode response).symm.trans hdec)
  refine ⟨i, j, k, s, v, hi, hj, hik, hkj, (List.getElem?_take_of_lt hkj).symm.trans hk, hv, ?_, ?_, ?_⟩
  · intro m x u hkm hmj hm
    exact hlast m x u hkm ((List.getElem?_take_of_lt hmj).trans hm)
  · rw [← hr', ← hresponse]
    rfl
  · rw [← hr', ← hresponse]
    exact Frame.value_withValue _ _

end Hub

end Peripheral
