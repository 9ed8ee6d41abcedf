import Peripheral.Proofs.Hub.Exchange
import Peripheral.Device.RegisterFile

/-!
# Outcomes

How exchanges end, in every run of a hub with any number of clients: no client's request is executed twice; it is executed
once, whole, when the handler has answered or could not deliver the response, and not at all when the handler gave up on the
request; a response that counts as answered is in the client's pipe in one piece; and a handler that has ended has left no
peer behind.
-/

namespace Peripheral

namespace Handler.Ending

/-- The response that was sent, if the handler has answered. -/
def response? : Ending → Option Frame
  | answered response => some response
  | _ => none

/-- Only an exchange that was answered has a response. -/
theorem eq_of_response? {ending : Ending} {response : Frame} (h : ending.response? = some response) :
    ending = .answered response := by
  cases ending with
  | answered r =>
    cases h
    rfl
  | failed | crashed => nomatch h

end Handler.Ending

namespace Hub

/-- The request of a peer was received whole and executed once, with a response. -/
def ExecutedOnce (log : List Mark) (p : Peer) (l : Link) (response : Frame) : Prop :=
  refusals p log = [] ∧ ∃ request, l.Requests request ∧ executions p log = [(request, some response)]

/-- Task `t` gave up on the request of a peer: nothing was executed, and nothing was written to anybody. -/
def GivenUp (log : List Mark) (t : Nat) (p : Peer) (e : ExchangeError) : Prop :=
  e.isOfReception = true ∧ refusals p log = [e] ∧ executions p log = [] ∧ ∀ q, written t q log = []

/-- The response of task `t` was not written whole to the peer, for a failure that only sending has. -/
def Undelivered (log : List Mark) (t : Nat) (p : Peer) (response : Frame) (e : ExchangeError) : Prop :=
  e.isOfDelivery = true ∧ ∃ rest, rest ≠ [] ∧ written t p log ++ rest = response.encode

variable {δ : Type}

/-- The peer of a handler that has ended, and how it has. -/
def ending? (h : Hub δ) (t : Nat) : Option (Peer × Handler.Ending) :=
  match h.tasks[t]? with
  | some (.handler x) => x.ending?.map (x.peer, ·)
  | _ => none

/-- The exchange that has ended is that of a handler. -/
theorem handler_of_ending? {h : Hub δ} {t : Nat} {p : Peer} {ending : Handler.Ending}
    (he : h.ending? t = some (p, ending)) : ∃ run, h.tasks[t]? = some (.handler ⟨p, run, .ended ending⟩) := by
  unfold ending? at he
  split at he
  · rename_i x hx
    obtain ⟨q, run, stage⟩ := x
    cases stage with
    | ended ending' =>
      cases he
      exact ⟨run, hx⟩
    | _ => nomatch he
  · nomatch he

variable [Service δ]

/-- At no stage of an exchange was its request executed twice. -/
theorem length_le_one_of_progress {members : List Peer} {t : Nat} {p : Peer} {l : Link}
    {done : List (Frame × Option Frame)} {given : List ExchangeError} {sent : Bytes} {stage : Handler.Stage}
    (hp : Progress members t p l done given sent stage) : done.length ≤ 1 := by
  cases hp with
  | receiving _ _ _ hd => rw [hd]; exact Nat.zero_le _
  | holding _ hd => rw [hd]; exact Nat.zero_le _
  | refusing _ _ _ hd => rw [hd]; exact Nat.zero_le _
  | refused _ hd => rw [hd]; exact Nat.zero_le _
  | responding _ hd => rw [hd]; exact Nat.le_refl _
  | answered _ hd => rw [hd]; exact Nat.le_refl _
  | undelivered _ hd => rw [hd]; exact Nat.le_refl _
  | crashed _ hd => rw [hd]; exact Nat.le_refl _

/-- No request is executed twice. -/
theorem executions_length_le_one {d : δ} {patience : Nat} {es : List Event} {h : Hub δ} {log : List Mark}
    (hr : (start d patience).run? es = some (h, log)) (p : Peer) : (executions p log).length ≤ 1 := by
  by_cases hc : ∃ t, h.Conducts t p
  · obtain ⟨t, a, ha, hserves⟩ := hc
    cases a with
    | errand c => nomatch hserves
    | handler x =>
      obtain ⟨l, _, hprog, _⟩ := exchanging_run hr t x ha
      rw [← show x.peer = p from eq_of_beq hserves]
      exact length_le_one_of_progress hprog
  · rw [(exchange_of_forall fun m hm hmp => hc ((orderly_run hr).exchange_conducted m hm p hmp)).1]
    exact Nat.zero_le _

/-- How exchanges end. The log leaves nothing out: the device is what the executions and ticks in it make of the first one,
and a client's pipe carries what is written in it. -/
theorem exchange_outcome {d : δ} {patience : Nat} {es : List Event} {h : Hub δ} {log : List Mark}
    (hr : (start d patience).run? es = some (h, log)) :
    h.device = replay d log ∧ (∀ p, h.stream p = writtenTo p log) ∧ (∀ p, (executions p log).length ≤ 1) ∧
      (∀ t p response, h.ending? t = some (p, .answered response) → p ∉ h.members ∧
        (∃ l, h.links[p]? = some l ∧ ExecutedOnce log p l response ∧ response.encode <:+: l.outbound.stream) ∧
          written t p log = response.encode ∧ ∀ q, q ≠ p → written t q log = []) ∧
      ∀ t p e, h.ending? t = some (p, .failed e) → p ∉ h.members ∧
        (GivenUp log t p e ∨ ∃ l response, h.links[p]? = some l ∧ ExecutedOnce log p l response ∧
          Undelivered log t p response e) := by
  refine ⟨device_replay hr, stream_eq_writtenTo hr, executions_length_le_one hr, ?_, ?_⟩
  · intro t p response he
    obtain ⟨run, ht⟩ := handler_of_ending? he
    obtain ⟨l, hl, hprog, helse⟩ := exchanging_run hr t _ ht
    cases hprog with
    | answered hreq hdone hgiven hsent hin hout =>
      exact ⟨hout, ⟨l, hl, ⟨hgiven, _, hreq, hdone⟩, hsent ▸ hin⟩, hsent, helse⟩
  · intro t p e he
    obtain ⟨run, ht⟩ := handler_of_ending? he
    obtain ⟨l, hl, hprog, helse⟩ := exchanging_run hr t _ ht
    cases hprog with
    | refused he hdone hgiven hsent hout =>
      refine ⟨hout, Or.inl ⟨he, hgiven, hdone, ?_⟩⟩
      intro q
      by_cases hq : q = p
      · rw [hq]
        exact hsent
      · exact helse q hq
    | undelivered hreq hdone hgiven he hrest hsum hout =>
      exact ⟨hout, Or.inr ⟨l, _, hl, ⟨hgiven, _, hreq, hdone⟩, he, _, hrest, hsum⟩⟩

/-- Two clients, of which the first sends a byte behind its request and the second stops writing too early; then their run
of the server is told to end. -/
def twoClients : List Event :=
  let step (t : Nat) : Event := .move (.advance t Frame.size)
  [.attach (.fresh 4096), .serve 0 0, .attach (.fresh 4096), .serve 1 0,
    .client 0 (.feed ((Frame.write 1 0 7).encode ++ [1])), .client 1 (.feed [2, 3]), .client 1 .halfClose,
    .move (.advance 0 100), step 1, step 0, step 1, .tick (.ofSeed 5), step 0, step 0, step 0, .move (.advance 0 100),
    .halt 1, step 0, step 1, step 0, step 0, step 0, step 1, step 1]

/-- Say, the client whose request was whole is answered, and the other is not. -/
theorem exchange_outcome_twoClients :
    ∃ h log, (start (RegisterFile.empty 1) 1000).run? twoClients = some (h, log) ∧
      (∃ l response, response.outcome = .success ∧ ExecutedOnce log 0 l response) ∧ 0 ∉ h.members ∧
      GivenUp log 1 1 (.framing ⟨2⟩) ∧ 1 ∉ h.members := by
  have hends : ((start (RegisterFile.empty 1) 1000).run? twoClients).map (fun r =>
      ((r.1.ending? 0).map fun e => (e.1, e.2.response?.map (·.outcome)), r.1.ending? 1)) =
        some (some (0, some .success), some (1, .failed (.framing ⟨2⟩))) := by
    decide +kernel
  obtain ⟨⟨h, log⟩, hr, heq⟩ := Option.map_eq_some_iff.1 hends
  obtain ⟨h₀, h₁⟩ := Prod.mk.inj heq
  obtain ⟨⟨p, ending⟩, h₀, heq⟩ := Option.map_eq_some_iff.1 h₀
  obtain ⟨rfl, hresponse⟩ := Prod.mk.inj heq
  obtain ⟨response, hresponse, hsuccess⟩ := Option.map_eq_some_iff.1 hresponse
  obtain rfl : ending = .answered response := Handler.Ending.eq_of_response? hresponse
  obtain ⟨-, -, -, hanswered, hfailed⟩ := exchange_outcome hr
  obtain ⟨hgone, ⟨l, -, honce, -⟩, -⟩ := hanswered 0 0 response h₀
  obtain ⟨hgone', hgiven | ⟨_, _, -, -, he, -⟩⟩ := hfailed 1 1 _ h₁
  · exact ⟨h, log, hr, ⟨l, response, hsuccess, honce⟩, hgone, hgiven, hgone'⟩
  · nomatch he

end Hub

end Peripheral
