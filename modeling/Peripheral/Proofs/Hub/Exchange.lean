import Peripheral.Proofs.Hub.Order

/-!
# Exchanges

What becomes of the exchange with one peer, in every run of a hub. A handler is followed from stage to stage (`Progress`): how
much of the request it has, whether the request was executed, how much of the response is written, and what its courier has
still to do until the peer is dismissed. Its own moves carry it on (`progress_step`), and nothing else touches it
(`Progress.spared`).
-/

namespace Peripheral

/-- Whether an exchange can fail in this way before its request is complete. -/
def ExchangeError.isOfReception : ExchangeError → Bool
  | framing _ => true
  | io _ => true
  | stopping => true
  | _ => false

/-- Whether an exchange can fail in this way when its response is sent. -/
def ExchangeError.isOfDelivery : ExchangeError → Bool
  | io _ => true
  | tooSlow _ => true
  | peerGone _ => true
  | _ => false

/-- A frame has bytes. -/
theorem Frame.encode_ne_nil (f : Frame) : f.encode ≠ [] :=
  List.ne_nil_of_length_pos (by rw [Frame.length_encode]; decide)

/-- The request of a client: the frame that its first bytes make, as many as a frame has. -/
def Link.Requests (l : Link) (request : Frame) : Prop :=
  Frame.decode (l.inbound.stream.take Frame.size) = .ok request

/-- Bytes that were received are not changed by those behind them. -/
theorem take_of_isPrefix {a b : Bytes} {n : Nat} (hp : a <+: b) (hn : n ≤ a.length) : b.take n = a.take n := by
  obtain ⟨more, rfl⟩ := hp
  exact List.take_append_of_le_length hn

theorem Link.Requests.mono {l l' : Link} {request : Frame} (hr : l.Requests request)
    (hp : l.inbound.stream <+: l'.inbound.stream) : l'.Requests request := by
  unfold Requests at hr ⊢
  rw [← hr]
  by_cases hlen : Frame.size ≤ l.inbound.stream.length
  · rw [take_of_isPrefix hp hlen]
  · unfold Frame.decode at hr
    rw [if_pos (by rw [List.length_take]; omega)] at hr
    nomatch hr

/-! ## What a log says of one exchange -/

theorem executions_append (p : Peer) (log more : List Mark) :
    executions p (log ++ more) = executions p log ++ executions p more :=
  List.filterMap_append

theorem refusals_append (p : Peer) (log more : List Mark) :
    refusals p (log ++ more) = refusals p log ++ refusals p more :=
  List.filterMap_append

theorem written_append (t : Nat) (p : Peer) (log more : List Mark) :
    written t p (log ++ more) = written t p log ++ written t p more :=
  List.flatMap_append

/-- A log in which nothing is about an exchange has neither an execution nor a refusal of it. -/
theorem exchange_of_forall {p : Peer} {log : List Mark} (h : ∀ m ∈ log, m.exchange? ≠ some p) :
    executions p log = [] ∧ refusals p log = [] := by
  constructor
  · refine List.filterMap_eq_nil_iff.2 ?_
    intro m hm
    have hne := h m hm
    cases m with
    | executed q r o => exact if_neg fun hq => hne (congrArg some hq)
    | _ => rfl
  · refine List.filterMap_eq_nil_iff.2 ?_
    intro m hm
    have hne := h m hm
    cases m with
    | refused q e => exact if_neg fun hq => hne (congrArg some hq)
    | _ => rfl

/-- A task that is not in the log has written nothing. -/
theorem written_of_forall {t : Nat} {p : Peer} {log : List Mark} (h : ∀ bytes, .wrote t p bytes ∉ log) :
    written t p log = [] := by
  refine List.flatMap_eq_nil_iff.2 ?_
  intro m hm
  cases m with
  | wrote s q bytes =>
    refine if_neg ?_
    rintro ⟨rfl, rfl⟩
    exact h bytes hm
  | _ => rfl

theorem written_wrote_self (t : Nat) (p : Peer) (bytes : Bytes) : written t p [.wrote t p bytes] = bytes := by
  simp only [written, List.flatMap_cons, List.flatMap_nil, List.append_nil, Mark.bytes, and_self, if_true]

/-! ## The stages of an exchange -/

/-- A courier that has nothing left to do but to dismiss a peer. -/
structure Leaving (members : List Peer) (p : Peer) (c : Courier) : Prop where
  jobs_eq : ∀ j ∈ c.jobs, j = .dismiss p
  work_eq : c.work = .idle ∨ ∃ d, c.work = .shutting p d
  /-- As long as the peer is connected, its dismissal is still to come. -/
  to_come : p ∈ members → c.work = .idle ∧ c.jobs ≠ []

/-- How far task `t` has come with sending a response, and how much of it is sent. -/
inductive Delivery (members : List Peer) (t : Nat) (p : Peer) (l : Link) (response : Frame) (sent : Bytes)
    (c : Courier) : Prop
  | seeking : c.work = .idle → c.jobs = [.reach p response, .dismiss p] → c.failure? = none → sent = [] →
      Delivery members t p l response sent c
  | ready : c.work = .idle → c.jobs = [.send p response, .dismiss p] → c.failure? = none → sent = [] →
      Delivery members t p l response sent c
  | sending {rest : Bytes} {d : Nat} : c.work = .sending p rest d → c.jobs = [.dismiss p] → c.failure? = none →
      rest ≠ [] → sent ++ rest = response.encode →
      (sent ≠ [] → l.line.head? = some t ∧ sent <:+ l.outbound.stream) → Delivery members t p l response sent c
  | complete : Leaving members p c → c.failure? = none → sent = response.encode → sent <:+: l.outbound.stream →
      Delivery members t p l response sent c
  | failed {e : ExchangeError} {rest : Bytes} : Leaving members p c → c.failure? = some e → e.isOfDelivery = true →
      rest ≠ [] → sent ++ rest = response.encode → Delivery members t p l response sent c

/-- What is known of the exchange that task `t` conducts with a peer, at each stage of it: the executions and refusals of the
request that were noted, and the bytes that were written. -/
inductive Progress (members : List Peer) (t : Nat) (p : Peer) (l : Link) (done : List (Frame × Option Frame))
    (given : List ExchangeError) (sent : Bytes) : Handler.Stage → Prop
  | receiving {got : Bytes} : got.length < Frame.size → got <+: l.inbound.stream → l.inbound.position = got.length →
      done = [] → given = [] → sent = [] → Progress members t p l done given sent (.receiving got)
  | holding {request : Frame} : l.Requests request → done = [] → given = [] → sent = [] →
      Progress members t p l done given sent (.holding request)
  | refusing {e : ExchangeError} {c : Courier} : Leaving members p c → c.failure? = none → e.isOfReception = true →
      done = [] → given = [e] → sent = [] → Progress members t p l done given sent (.parting (.error e) c)
  | responding {request response : Frame} {c : Courier} : l.Requests request → done = [(request, some response)] →
      given = [] → Delivery members t p l response sent c →
      Progress members t p l done given sent (.parting (.ok response) c)
  | answered {request response : Frame} : l.Requests request → done = [(request, some response)] → given = [] →
      sent = response.encode → sent <:+: l.outbound.stream → p ∉ members →
      Progress members t p l done given sent (.ended (.answered response))
  | refused {e : ExchangeError} : e.isOfReception = true → done = [] → given = [e] → sent = [] → p ∉ members →
      Progress members t p l done given sent (.ended (.failed e))
  | undelivered {request response : Frame} {e : ExchangeError} {rest : Bytes} : l.Requests request →
      done = [(request, some response)] → given = [] → e.isOfDelivery = true → rest ≠ [] →
      sent ++ rest = response.encode → p ∉ members → Progress members t p l done given sent (.ended (.failed e))
  | crashed {request : Frame} : l.Requests request → done = [(request, none)] → given = [] → sent = [] →
      Progress members t p l done given sent (.ended .crashed)

/-! ## What others do -/

section

variable {members members' : List Peer} {t : Nat} {p : Peer} {l l' : Link} {sent : Bytes}

/-- A courier that is to dismiss a peer is so whoever else is out. -/
theorem Leaving.mono {c : Courier} (hl : Leaving members p c) (hm : p ∉ members → p ∉ members') :
    Leaving members' p c where
  jobs_eq := hl.jobs_eq
  work_eq := hl.work_eq
  to_come hp := hl.to_come (Decidable.byContradiction fun hn => hm hn hp)

/-- The sending of a response is as far as it was, when others have used the link. -/
theorem Delivery.spared {response : Frame} {c : Courier} (hd : Delivery members t p l response sent c)
    (hk : l.Kept t l') (hm : p ∉ members → p ∉ members') : Delivery members' t p l' response sent c := by
  cases hd with
  | seeking hw hj hf hs => exact .seeking hw hj hf hs
  | ready hw hj hf hs => exact .ready hw hj hf hs
  | sending hw hj hf hr hs hhead =>
    refine .sending hw hj hf hr hs ?_
    intro hne
    obtain ⟨hfirst, hsuffix⟩ := hhead hne
    rw [hk.stream_eq hfirst]
    exact ⟨hk.head_eq hfirst, hsuffix⟩
  | complete hl hf hs hin => exact .complete (hl.mono hm) hf hs (hin.trans hk.sent.isInfix)
  | failed hl hf he hr hs => exact .failed (hl.mono hm) hf he hr hs

/-- An exchange is as far as it was, when others have used the link. -/
theorem Progress.spared {done : List (Frame × Option Frame)} {given : List ExchangeError} {stage : Handler.Stage}
    (hp : Progress members t p l done given sent stage) (hk : l.Kept t l') (hm : p ∉ members → p ∉ members') :
    Progress members' t p l' done given sent stage := by
  cases hp with
  | receiving hlt hgot hpos hd hg hs =>
    exact .receiving hlt (hgot.trans hk.received) (hk.position_eq.trans hpos) hd hg hs
  | holding hr hd hg hs => exact .holding (hr.mono hk.received) hd hg hs
  | refusing hl hf he hd hg hs => exact .refusing (hl.mono hm) hf he hd hg hs
  | responding hr hd hg hdel => exact .responding (hr.mono hk.received) hd hg (hdel.spared hk hm)
  | answered hr hd hg hs hin hn =>
    exact .answered (hr.mono hk.received) hd hg hs (hin.trans hk.sent.isInfix) (hm hn)
  | refused he hd hg hs hn => exact .refused he hd hg hs (hm hn)
  | undelivered hr hd hg he hrest hs hn => exact .undelivered (hr.mono hk.received) hd hg he hrest hs (hm hn)
  | crashed hr hd hg hs => exact .crashed (hr.mono hk.received) hd hg hs

end

/-! ## What the handler does -/

namespace Hub

variable {δ : Type} {h h' : Hub δ} {t : Nat} {p : Peer} {c c' : Courier}

/-- A courier that is to dismiss a peer goes on with it, and nothing more goes wrong. -/
theorem leaving_step (hn : h.members.Nodup) (hl : Leaving h.members p c) (hs : CourierStep h t c c' h') :
    Leaving h'.members p c' ∧ c'.failure? = c.failure? := by
  rcases hl.work_eq with hw | ⟨d, hw⟩
  · cases hj : c.jobs with
    | nil => exact absurd hs (CourierStep.not_finished hw hj)
    | cons j jobs =>
      obtain rfl : j = .dismiss p := hl.jobs_eq j (hj ▸ List.mem_cons_self)
      have hrest : ∀ j ∈ jobs, j = .dismiss p := fun j hjob => hl.jobs_eq j (hj ▸ List.mem_cons_of_mem _ hjob)
      rcases hs.of_dismiss hw hj with ⟨_, rfl, rfl⟩ | ⟨hout, rfl, rfl⟩
      · exact ⟨⟨hrest, Or.inr ⟨_, rfl⟩, fun hp => absurd hp hn.not_mem_erase⟩, rfl⟩
      · exact ⟨⟨hrest, Or.inl hw, fun hp => absurd hp hout⟩, rfl⟩
  · obtain ⟨rfl, hm⟩ := hs.of_shutting hw
    refine ⟨⟨hl.jobs_eq, Or.inl rfl, ?_⟩, rfl⟩
    intro hp
    have hidle := (hl.to_come (hm ▸ hp)).1
    rw [hw] at hidle
    nomatch hidle

/-- A courier that is to dismiss a peer writes nothing. -/
theorem leaving_delivery (hl : Leaving h.members p c) : h.delivery t c h' = [] := by
  refine delivery_of_none ?_
  rcases hl.work_eq with hw | ⟨d, hw⟩
  · rw [hw]
    rfl
  · rw [hw]
    rfl

/-- A courier that gives up on the peer it has still to dismiss is about to dismiss it. -/
theorem leaving_giveUp {members : List Peer} {e : ExchangeError} (hj : c.jobs = [.dismiss p]) :
    Leaving members p (c.giveUp p e) where
  jobs_eq j hm := by
    rw [Courier.giveUp, hj] at hm
    rcases List.mem_cons.1 hm with rfl | hm
    · rfl
    · exact List.mem_singleton.1 hm
  work_eq := Or.inl rfl
  to_come _ := ⟨rfl, List.cons_ne_nil _ _⟩

/-- The sending of a frame goes on. -/
theorem sending_step {l : Link} {response : Frame} {sent rest : Bytes} {d : Nat} (hl : h.links[p]? = some l)
    (hw : c.work = .sending p rest d) (hj : c.jobs = [.dismiss p]) (hf : c.failure? = none) (hr : rest ≠ [])
    (hs : sent ++ rest = response.encode) (hhead : sent ≠ [] → l.line.head? = some t ∧ sent <:+ l.outbound.stream)
    (hstep : CourierStep h t c c' h') :
    ∃ l', h'.links[p]? = some l' ∧ l'.inbound = l.inbound ∧
      Delivery h'.members t p l' response (sent ++ written t p (h.delivery t c h')) c' := by
  have hsuffix : sent <:+ l.outbound.stream := by
    by_cases hne : sent = []
    · rw [hne]
      exact List.nil_suffix
    · exact (hhead hne).2
  rcases hstep.of_sending hw hl with ⟨n, hfirst, h0, hn, rfl, rfl⟩ | ⟨hfirst, rfl, rfl⟩ | ⟨e, he, rfl, rfl⟩
  · have hput := stream_updateLink_put (f := (·.put (rest.take n))) hl rfl p
    rw [if_pos rfl] at hput
    refine ⟨l.put (rest.take n), links_updateLink_self _ hl, rfl, ?_⟩
    rw [delivery_of_sending hw hput, written_wrote_self]
    refine .sending rfl hj hf ?_ ?_ ?_
    · intro hnil
      have hlen := congrArg List.length hnil
      rw [List.length_drop, List.length_nil] at hlen
      omega
    · rw [List.append_assoc, List.take_append_drop]
      exact hs
    · intro _
      obtain ⟨before, hb⟩ := hsuffix
      refine ⟨hfirst, before, ?_⟩
      rw [← List.append_assoc, hb]
      rfl
  · have hput := stream_updateLink_put (f := fun l => (l.put rest).leave t) hl rfl p
    rw [if_pos rfl] at hput
    refine ⟨(l.put rest).leave t, links_updateLink_self _ hl, rfl, ?_⟩
    rw [delivery_of_sending hw hput, written_wrote_self]
    refine .complete ⟨?_, Or.inl rfl, ?_⟩ hf hs ?_
    · intro j hm
      rw [hj] at hm
      exact List.mem_singleton.1 hm
    · intro _
      refine ⟨rfl, ?_⟩
      rw [hj]
      exact List.cons_ne_nil _ _
    · obtain ⟨before, hb⟩ := hsuffix
      refine ⟨before, [], ?_⟩
      rw [List.append_nil, ← List.append_assoc, hb]
      rfl
  · have hleave := stream_updateLink (h := h) (p := p) (f := (·.leave t)) (fun _ => rfl) p
    refine ⟨l.leave t, links_updateLink_self _ hl, rfl, ?_⟩
    rw [delivery_of_unchanged hw hleave, written_wrote_self, List.append_nil]
    refine .failed (leaving_giveUp hj) rfl ?_ hr hs
    rcases he with rfl | rfl
    · rfl
    · rfl

/-- The sending of a response goes on when its courier takes a step. -/
theorem delivery_step {l : Link} {response : Frame} {sent : Bytes} (hn : h.members.Nodup)
    (hl : h.links[p]? = some l) (hd : Delivery h.members t p l response sent c) (hs : CourierStep h t c c' h') :
    ∃ l', h'.links[p]? = some l' ∧ l'.inbound = l.inbound ∧
      Delivery h'.members t p l' response (sent ++ written t p (h.delivery t c h')) c' := by
  have quiet : ∀ {h' : Hub δ}, c.work = .idle → sent ++ written t p (h.delivery t c h') = sent := by
    intro h' hw
    rw [delivery_of_none (by rw [hw]; rfl)]
    exact List.append_nil _
  cases hd with
  | seeking hw hj hf hsent =>
    rw [quiet hw]
    obtain ⟨rfl, ⟨_, rfl⟩ | ⟨hout, rfl⟩⟩ := hs.of_reach hw hj
    · exact ⟨l, hl, rfl, .ready hw rfl hf hsent⟩
    · have hsum : sent ++ response.encode = response.encode := by
        rw [hsent]
        rfl
      refine ⟨l, hl, rfl, .failed ⟨?_, Or.inl hw, fun hp => absurd hp hout⟩ rfl rfl response.encode_ne_nil hsum⟩
      intro j hm
      exact List.mem_singleton.1 hm
  | ready hw hj hf hsent =>
    rw [quiet hw]
    obtain ⟨rfl, rfl⟩ := hs.of_send hw hj
    refine ⟨l.join t, links_updateLink_self _ hl, rfl,
      .sending rfl rfl hf response.encode_ne_nil ?_ fun hne => absurd hsent hne⟩
    rw [hsent]
    rfl
  | sending hw hj hf hr hsum hhead => exact sending_step hl hw hj hf hr hsum hhead hs
  | complete hleave hf hsent hin =>
    obtain ⟨l', hl', htouch⟩ := hs.touched hl
    obtain ⟨hleave', hf'⟩ := leaving_step hn hleave hs
    rw [leaving_delivery hleave]
    refine ⟨l', hl', htouch.inbound_eq, ?_⟩
    exact .complete hleave' (hf'.trans hf) ((List.append_nil _).trans hsent)
      ((List.append_nil sent).symm ▸ hin.trans htouch.stream_isPrefix.isInfix)
  | failed hleave hf he hr hsum =>
    obtain ⟨l', hl', htouch⟩ := hs.touched hl
    obtain ⟨hleave', hf'⟩ := leaving_step hn hleave hs
    rw [leaving_delivery hleave]
    refine ⟨l', hl', htouch.inbound_eq, .failed hleave' (hf'.trans hf) he hr ?_⟩
    exact (congrArg (· ++ _) (List.append_nil sent)).trans hsum

/-- More bytes are read behind those that were. -/
theorem received_step {l : Link} {members : List Peer} {got : Bytes} {n : Nat} (hlt : got.length < Frame.size)
    (hgot : got <+: l.inbound.stream) (hpos : l.inbound.position = got.length) (hn : n ≤ Frame.size - got.length) :
    Progress members t p (l.advance (l.inbound.held.take n).length) [] [] []
      (.received (got ++ l.inbound.held.take n)) := by
  have hstream : got ++ l.inbound.held = l.inbound.stream := by
    rw [Pipe.held, hpos]
    obtain ⟨more, hmore⟩ := hgot
    rw [← hmore, List.drop_left]
  have hprefix : got ++ l.inbound.held.take n <+: l.inbound.stream := by
    rw [← hstream]
    exact (List.prefix_append_right_inj got).2 (List.take_prefix n _)
  have hlen : (got ++ l.inbound.held.take n).length ≤ Frame.size := by
    rw [List.length_append, List.length_take]
    omega
  unfold Handler.Stage.received
  by_cases hshort : (got ++ l.inbound.held.take n).length < Frame.size
  · rw [if_pos hshort]
    refine .receiving hshort hprefix ?_ rfl rfl rfl
    rw [List.length_append, ← hpos]
    rfl
  · rw [if_neg hshort]
    have hfull : (got ++ l.inbound.held.take n).length = Frame.size := Nat.le_antisymm hlen (Nat.not_lt.1 hshort)
    refine .holding ?_ rfl rfl rfl
    rw [Link.Requests, Link.advance, ← hfull, ← List.prefix_iff_eq_take.1 hprefix, Frame.decode, if_neg hshort]

/-- The courier of a handler carries its exchange on. -/
theorem progress_convey {l : Link} {result : Except ExchangeError Frame} {done : List (Frame × Option Frame)}
    {given : List ExchangeError} {sent : Bytes} (hn : h.members.Nodup) (hl : h.links[p]? = some l)
    (hp : Progress h.members t p l done given sent (.parting result c)) (hs : CourierStep h t c c' h') :
    ∃ l', h'.links[p]? = some l' ∧
      Progress h'.members t p l' (done ++ executions p (h.delivery t c h')) (given ++ refusals p (h.delivery t c h'))
        (sent ++ written t p (h.delivery t c h')) (.parting result c') := by
  have hnone : ∀ m ∈ h.delivery t c h', m.exchange? ≠ some p := by
    intro m hm
    obtain ⟨q, bytes, _, rfl⟩ := delivery_cases hm
    exact nofun
  obtain ⟨hex, hre⟩ := exchange_of_forall hnone
  rw [hex, hre, List.append_nil, List.append_nil]
  cases hp with
  | refusing hleave hf he hd hg hsent =>
    obtain ⟨l', hl', _⟩ := hs.touched hl
    obtain ⟨hleave', hf'⟩ := leaving_step hn hleave hs
    rw [leaving_delivery hleave, hsent]
    exact ⟨l', hl', .refusing hleave' (hf'.trans hf) he hd hg rfl⟩
  | responding hr hd hg hdel =>
    obtain ⟨l', hl', hin, hdel'⟩ := delivery_step hn hl hdel hs
    exact ⟨l', hl', .responding (hr.mono (hin ▸ List.prefix_refl _)) hd hg hdel'⟩

/-- A handler whose courier has nothing left to do has dismissed its peer. -/
theorem progress_finish {members : List Peer} {l : Link} {result : Except ExchangeError Frame}
    {done : List (Frame × Option Frame)} {given : List ExchangeError} {sent : Bytes} (hj : c.jobs = [])
    (hp : Progress members t p l done given sent (.parting result c)) :
    Progress members t p l done given sent (.ended (.of result c.failure?)) := by
  have gone : Leaving members p c → p ∉ members := fun hleave hm => (hleave.to_come hm).2 hj
  cases hp with
  | refusing hleave hf he hd hg hsent =>
    rw [hf]
    exact .refused he hd hg hsent (gone hleave)
  | responding hr hd hg hdel =>
    cases hdel with
    | seeking _ hj' => rw [hj] at hj'; nomatch hj'
    | ready _ hj' => rw [hj] at hj'; nomatch hj'
    | sending _ hj' => rw [hj] at hj'; nomatch hj'
    | complete hleave hf hsent hin =>
      rw [hf]
      exact .answered hr hd hg hsent hin (gone hleave)
    | failed hleave hf he hrest hsum =>
      rw [hf]
      exact .undelivered hr hd hg he hrest hsum (gone hleave)

/-- What a handler's courier writes, it writes to the peer of the handler. -/
theorem addressee_of_progress {members : List Peer} {l : Link} {result : Except ExchangeError Frame}
    {done : List (Frame × Option Frame)} {given : List ExchangeError} {sent : Bytes} {q : Peer}
    (hp : Progress members t p l done given sent (.parting result c)) (hq : c.work.addressee? = some q) : q = p := by
  have leaving : Leaving members p c → q = p := by
    intro hleave
    rcases hleave.work_eq with hw | ⟨d, hw⟩
    · rw [hw] at hq
      nomatch hq
    · rw [hw] at hq
      nomatch hq
  cases hp with
  | refusing hleave => exact leaving hleave
  | responding _ _ _ hdel =>
    cases hdel with
    | seeking hw => rw [hw] at hq; nomatch hq
    | ready hw => rw [hw] at hq; nomatch hq
    | sending hw =>
      rw [hw] at hq
      exact (Option.some.inj hq).symm
    | complete hleave => exact leaving hleave
    | failed hleave => exact leaving hleave

variable [Service δ]

/-- A step of a handler carries its exchange on. -/
theorem progress_step {l : Link} {run : Nat} {stage : Handler.Stage} {b : Task} {done : List (Frame × Option Frame)}
    {given : List ExchangeError} {sent : Bytes} (hn : h.members.Nodup) (hl : h.links[p]? = some l)
    (hp : Progress h.members t p l done given sent stage) (hs : TaskStep h t (.handler ⟨p, run, stage⟩) b h') :
    ∃ stage' l', b = .handler ⟨p, run, stage'⟩ ∧ h'.links[p]? = some l' ∧
      Progress h'.members t p l' (done ++ executions p (h.shown t (.handler ⟨p, run, stage⟩) b h'))
        (given ++ refusals p (h.shown t (.handler ⟨p, run, stage⟩) b h'))
        (sent ++ written t p (h.shown t (.handler ⟨p, run, stage⟩) b h')) stage' := by
  have dismissing : Leaving h.members p (.start [.dismiss p]) :=
    ⟨fun _ => List.mem_singleton.1, Or.inl rfl, fun _ => ⟨rfl, List.cons_ne_nil _ _⟩⟩
  cases hs with
  | read hl' hne hle =>
    rw [hl] at hl'
    cases hl'
    cases hp with
    | receiving hlt hgot hpos hd hg hsent =>
      rw [shown_read, hd, hg, hsent]
      exact ⟨_, _, rfl, links_updateLink_self _ hl, received_step hlt hgot hpos hle⟩
  | curtail | lose | heed =>
    cases hp with
    | receiving hlt hgot hpos hd hg hsent =>
      rw [hd, hg, hsent]
      refine ⟨_, l, rfl, hl, .refusing dismissing rfl rfl rfl ?_ rfl⟩
      simp only [refusals, shown, Handler.Stage.refusing, List.filterMap_cons, List.filterMap_nil, Mark.refusal?,
        if_true, List.nil_append]
  | execute hx =>
    cases hp with
    | holding hr hd hg hsent =>
      rw [hd, hg, hsent]
      refine ⟨_, l, rfl, hl, .responding hr ?_ rfl (.seeking rfl rfl rfl rfl)⟩
      simp only [executions, shown, List.filterMap_cons, List.filterMap_nil, Mark.execution?, if_true,
        List.nil_append, hx]
  | crash hx =>
    cases hp with
    | holding hr hd hg hsent =>
      rw [hd, hg, hsent]
      refine ⟨_, l, rfl, hl, .crashed hr ?_ rfl rfl⟩
      simp only [executions, shown, List.filterMap_cons, List.filterMap_nil, Mark.execution?, if_true,
        List.nil_append, hx]
  | convey hc =>
    rw [shown_convey]
    obtain ⟨l', hl', hp'⟩ := progress_convey hn hl hp hc
    exact ⟨_, l', rfl, hl', hp'⟩
  | finish hw hj =>
    rw [shown_convey, delivery_of_none (by rw [hw]; rfl)]
    simp only [executions, refusals, written, List.filterMap_nil, List.flatMap_nil, List.append_nil]
    exact ⟨_, l, rfl, hl, progress_finish hj hp⟩

/-- A handler writes to its own peer only. -/
theorem shown_elsewhere {l : Link} {run : Nat} {stage : Handler.Stage} {b : Task} {done : List (Frame × Option Frame)}
    {given : List ExchangeError} {sent : Bytes} {q : Peer} (hp : Progress h.members t p l done given sent stage)
    (hs : TaskStep h t (.handler ⟨p, run, stage⟩) b h') (hq : q ≠ p) :
    written t q (h.shown t (.handler ⟨p, run, stage⟩) b h') = [] := by
  have courier : ∀ {result c} {h' : Hub δ}, Progress h.members t p l done given sent (.parting result c) →
      written t q (h.delivery t c h') = [] := by
    intro result c h' hp
    refine written_of_forall ?_
    intro bytes hm
    obtain ⟨q', _, hq', heq⟩ := delivery_cases hm
    cases heq
    exact hq (addressee_of_progress hp hq')
  cases hs with
  | read => rw [shown_read]; rfl
  | curtail | lose | heed | execute | crash => rfl
  | finish => exact courier hp
  | convey => exact courier hp

/-! ## Every exchange of a run -/

/-- The exchange of a handler is at one of its stages, and the handler has written to nobody else. -/
def Exchange (h : Hub δ) (log : List Mark) (t : Nat) (x : Handler) : Prop :=
  ∃ l, h.links[x.peer]? = some l ∧
    Progress h.members t x.peer l (executions x.peer log) (refusals x.peer log) (written t x.peer log) x.stage ∧
    ∀ q, q ≠ x.peer → written t q log = []

omit [Service δ] in
/-- An exchange that has just begun. -/
theorem exchange_begun {log : List Mark} {run : Nat} (ho : h.Orderly log) (hp : p < h.links.length)
    (hn : ∀ s, ¬h.Conducts s p) : h.Exchange log h.tasks.length (.start p run) := by
  have hl : h.links[p]? = some h.links[p] := List.getElem?_eq_getElem hp
  have hnone : ∀ m ∈ log, m.exchange? ≠ some p := by
    intro m hm hmp
    obtain ⟨s, hc⟩ := ho.exchange_conducted m hm p hmp
    exact hn s hc
  obtain ⟨hex, hre⟩ := exchange_of_forall hnone
  have silent : ∀ q, written h.tasks.length q log = [] := fun q =>
    written_of_forall fun bytes hm => Nat.lt_irrefl _ (ho.writer_lt _ _ _ hm)
  refine ⟨_, hl, ?_, fun q _ => silent q⟩
  exact .receiving (by decide) List.nil_prefix (ho.unread p _ hl hn) hex hre (silent p)

/-- Nothing is noted of an exchange by what is not a move of its handler. -/
theorem marks_spared {e : Event} {log : List Mark} (ho : h.Orderly log) (hc : h.Conducts t p)
    (he : h.after? e = some h') (hne : ∀ m, e = .move m → m.task ≠ t) :
    executions p (h.marks e h') = [] ∧ refusals p (h.marks e h') = [] ∧ ∀ q, written t q (h.marks e h') = [] := by
  have hnone : ∀ m ∈ h.marks e h', m.exchange? ≠ some p := by
    intro m hm hmp
    rcases marks_cases he hm with ⟨g, rfl⟩ | ⟨v, rfl, ⟨q, hq, hcond⟩ | ⟨q, bytes, rfl, _⟩⟩
    · nomatch hmp
    · rw [hmp] at hq
      cases hq
      exact hne v rfl (ho.conducts_inj _ _ _ hcond hc)
    · nomatch hmp
  obtain ⟨hex, hre⟩ := exchange_of_forall hnone
  refine ⟨hex, hre, ?_⟩
  intro q
  refine written_of_forall ?_
  intro bytes hm
  rcases marks_cases he hm with ⟨g, hg⟩ | ⟨v, rfl, ⟨q', hq', _⟩ | ⟨q', more, heq, _⟩⟩
  · nomatch hg
  · nomatch hq'
  · cases heq
    exact hne v rfl rfl

/-- What is not a move of its handler leaves an exchange where it is. -/
theorem exchange_spared {e : Event} {log : List Mark} {x : Handler} (ho : h.Orderly log)
    (ht : h.tasks[t]? = some (.handler x)) (hx : h.Exchange log t x) (he : h.after? e = some h')
    (hne : ∀ m, e = .move m → m.task ≠ t) : h'.Exchange (log ++ h.marks e h') t x := by
  obtain ⟨l, hl, hprog, helse⟩ := hx
  obtain ⟨hex, hre, hwr⟩ := marks_spared ho (conducts_of_handler ht) he hne
  have hspare := spares_after? ho (conducts_of_handler ht) he hne
  obtain ⟨l', hl', hkept⟩ := hspare.kept l hl
  refine ⟨l', hl', ?_, ?_⟩
  · rw [executions_append, refusals_append, written_append, hex, hre, hwr, List.append_nil, List.append_nil,
      List.append_nil]
    exact hprog.spared hkept hspare.gone
  · intro q hq
    rw [written_append, helse q hq, hwr q]
    rfl

/-- A move of its handler carries an exchange on. -/
theorem exchange_moved {m : Move} {log : List Mark} {x : Handler} (ho : h.Orderly log)
    (ht : h.tasks[m.task]? = some (.handler x)) (hx : h.Exchange log m.task x) (hm : h.move? m = some h') :
    ∃ y, h'.tasks[m.task]? = some (.handler y) ∧ h'.Exchange (log ++ h.marks (.move m) h') m.task y := by
  obtain ⟨l, hl, hprog, helse⟩ := hx
  obtain ⟨a, b, h₁, ha, hs, rfl⟩ := taskStep_of_move? hm
  rw [ht] at ha
  cases ha
  obtain ⟨stage, l', rfl, hl', hprog'⟩ := progress_step ho.members_nodup hl hprog hs
  refine ⟨_, tasks_setTask_self _ (hs.tasks_eq ▸ ht), l', hl', ?_, ?_⟩
  · rw [marks_move ht hs, executions_append, refusals_append, written_append]
    exact hprog'
  · intro q hq
    rw [marks_move ht hs, written_append, helse q hq, shown_elsewhere hprog hs hq]
    rfl

/-- Every handler's exchange is at one of its stages. -/
def Exchanging (h : Hub δ) (log : List Mark) : Prop := ∀ t x, h.tasks[t]? = some (.handler x) → h.Exchange log t x

/-- Every exchange is at one of its stages, whatever happens next. -/
theorem exchanging_after? {e : Event} {log : List Mark} (ho : h.Orderly log) (hx : h.Exchanging log)
    (he : h.after? e = some h') : h'.Exchanging (log ++ h.marks e h') := by
  intro t x ht
  by_cases hc : h.Conducts t x.peer
  · obtain ⟨a, ha, hserves⟩ := hc
    cases a with
    | errand c => nomatch hserves
    | handler y =>
      by_cases hown : ∃ m, e = .move m ∧ m.task = t
      · obtain ⟨m, rfl, rfl⟩ := hown
        obtain ⟨z, hz, hex⟩ := exchange_moved ho ha (hx _ _ ha) he
        rw [ht] at hz
        cases hz
        exact hex
      · have hne : ∀ m, e = .move m → m.task ≠ t := fun m hm heq => hown ⟨m, hm, heq⟩
        rw [task_after? ⟨_, ha, hserves⟩ he hne, ha] at ht
        cases ht
        exact exchange_spared ho ha (hx t _ ha) he hne
  · obtain ⟨_, hp, hn⟩ := conducts_begun he (conducts_of_handler ht) hc
    rcases (conducts_after? he t x.peer).1 (conducts_of_handler ht) with hold | ⟨rfl, run, rfl⟩
    · exact absurd hold hc
    · cases eventStep_of_after? he with
      | serve =>
        rw [serve, spawn, List.getElem?_concat_length] at ht
        have hstart : Handler.start x.peer run = x := Task.handler.inj (Option.some.inj ht)
        have hbegun : h.Exchange log h.tasks.length (.start x.peer run) := exchange_begun ho hp hn
        rw [hstart] at hbegun
        rw [show h.marks (.serve x.peer run) (h.serve x.peer run) = [] from rfl, List.append_nil]
        exact hbegun

/-- In every run each exchange is at one of its stages. -/
theorem exchanging_run {d : δ} {patience : Nat} {es : List Event} {h : Hub δ} {log : List Mark}
    (hr : (start d patience).run? es = some (h, log)) : h.Exchanging log := by
  refine (run?_induction (P := fun h log => h.Orderly log ∧ h.Exchanging log) ?_ ?_ hr).2
  · exact ⟨orderly_start d patience, fun t x ht => nomatch ht⟩
  · rintro h e h' log ⟨ho, hx⟩ he
    exact ⟨orderly_after? ho he, exchanging_after? ho hx he⟩

end Hub

end Peripheral
