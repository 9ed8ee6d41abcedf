import Mathlib.Data.List.Basic
import Peripheral.Proofs.Client.Await
import Peripheral.Proofs.Hub.Linear

/-!
# What a client makes of its answer

The two ends of an exchange agree, in every run of a hub: if the handler counts the exchange as answered, the client gets
exactly this response, which the device gave to what the bytes of the request say, and with it the numbers of exactly those
interrupts that were written to its connection before, in their order (`client_agrees`). That nothing else comes of the
stream is because of the response: it repeats the command of the request, so that it is never taken for a push.
-/

namespace Peripheral

/-! ## Responses on the wire -/

namespace Frame

/-- What was read from bytes has no unknown code that has a meaning. -/
theorem isCanonical_of_decode {bytes : Bytes} {f : Frame} (h : decode bytes = .ok f) : f.IsCanonical := by
  obtain ⟨hle, rfl⟩ := decode_eq_ok_iff.1 h
  refine (canonical_eq_iff _).1 ?_
  unfold canonical ofBytes
  simp only [Command.code_ofCode, Outcome.code_ofCode]

/-- A reply with an outcome that is no unknown number is canonical if the request is. -/
theorem IsCanonical.reply {request : Frame} {outcome : Outcome} (h : request.IsCanonical)
    (ho : ∀ c, outcome ≠ .unknown c) : (request.reply outcome).IsCanonical where
  command := h.command
  outcome c hc := absurd hc (ho c)

/-- A frame with canonical codes keeps them when its value is set. -/
theorem IsCanonical.withValue {f : Frame} (h : f.IsCanonical) (v : UInt32) : (f.withValue v).IsCanonical where
  command := h.command
  outcome := h.outcome

end Frame

/-- No refusal has an outcome that is unknown. -/
theorem Refusal.outcome_ne_unknown (e : Refusal) (c : UInt32) : e.outcome ≠ .unknown c := by
  cases e <;> simp [Refusal.outcome]

/-- A response repeats the command of its request, and has no unknown codes that the request has not. -/
theorem response_of_execute {δ : Type} [Device δ] (d : δ) {request : Frame} (h : request.IsCanonical) :
    (execute d request).1.command = request.command ∧ (execute d request).1.IsCanonical := by
  have replied : ∀ {outcome : Outcome}, (∀ c, outcome ≠ .unknown c) →
      (request.reply outcome).command = request.command ∧ (request.reply outcome).IsCanonical :=
    fun ho => ⟨rfl, h.reply ho⟩
  have success : ∀ c, Outcome.success ≠ .unknown c := by simp
  have error : ∀ c, Outcome.error ≠ .unknown c := by simp
  unfold execute
  split
  · split
    · exact ⟨rfl, (h.reply success).withValue _⟩
    · exact replied (Refusal.outcome_ne_unknown _)
  · split
    · exact replied success
    · exact replied (Refusal.outcome_ne_unknown _)
  · exact replied success
  · exact replied success
  · exact replied error
  · exact replied error

/-- A command whose number is not that of interrupts is read back as something else than an interrupt. -/
theorem Command.ofCode_ne_interrupt {k : Command} (h : k.code ≠ 3) : k ≠ .interrupt ∧ ofCode k.code ≠ .interrupt := by
  constructor
  · rintro rfl
    exact h rfl
  · intro heq
    have hcode := congrArg code heq
    rw [code_ofCode] at hcode
    exact h hcode

/-! ## The stream up to the response -/

/-- Bytes that are signed by one task are these bytes. -/
theorem map_snd_signature (t : Nat) (bytes : Bytes) : (bytes.map (t, ·)).map Prod.snd = bytes := by
  rw [List.map_map]
  exact List.map_id _

/-- The bytes of a sheet are those of its frames, one after the other. -/
theorem map_snd_sheet (frames : List (Nat × Frame)) :
    (sheet frames).map Prod.snd = (frames.map Prod.snd).flatMap Frame.encode := by
  induction frames with
  | nil => rfl
  | cons x frames ih =>
    rw [sheet, List.flatMap_cons, List.map_append, map_snd_signature, ← sheet, ih]
    rfl

/-- A task of which there is not a byte wrote none of the frames. -/
theorem ne_of_ofTask_sheet {frames : List (Nat × Frame)} {t : Nat} (h : ofTask t (sheet frames) = []) :
    ∀ x ∈ frames, x.1 ≠ t := by
  rintro x hx rfl
  obtain ⟨j, hj⟩ := List.getElem?_of_mem hx
  rw [sheet_split (t := x.1) (f := x.2) hj, ofTask_append, ofTask_append, ofTask_map_self] at h
  exact x.2.encode_ne_nil (List.append_eq_nil_iff.1 (List.append_eq_nil_iff.1 h).2).1

namespace Hub

section

variable {δ : Type} [Service δ] {d : δ} {patience : Nat} {es : List Event} {h : Hub δ} {log : List Mark} {p : Peer}
  {t : Nat} {r : Frame}

/-- A response that was written whole stands behind whole frames that were pushed. -/
theorem pushes_before_response (hr : (start d patience).run? es = some (h, log))
    (hwhole : (start d patience).sendsWhole p es = true) (hc : h.Conducts t p) (hwritten : written t p log = r.encode) :
    ∃ pushes behind, (∀ x ∈ pushes, x.1 ≠ t ∧ Pushed es p x.2) ∧
      signed p log = sheet pushes ++ r.encode.map (t, ·) ++ behind := by
  obtain ⟨frames, torn, hok, hbytes, hlt⟩ := (aligned_run hr hwhole).split
  have hall : ofTask t (sheet frames) ++ ofTask t torn = r.encode := by
    rw [← ofTask_append, ← hbytes, ofTask_signed, hwritten]
  -- The part of a frame at the end is too short for the response, so one of the frames is the handler's.
  obtain ⟨g, hg⟩ : ∃ g, (t, g) ∈ frames := by
    refine Classical.byContradiction fun hnone => ?_
    have hsheet : ofTask t (sheet frames) = [] := ofTask_sheet_of_forall fun x hx heq => hnone ⟨x.2, heq ▸ hx⟩
    have hshort : (ofTask t torn).length ≤ torn.length := List.length_filterMap_le _ _
    have hlen := congrArg List.length hall
    rw [hsheet, List.nil_append, Frame.length_encode] at hlen
    omega
  obtain ⟨j, hj⟩ := List.getElem?_of_mem hg
  rw [sheet_split hj, ofTask_append, ofTask_append, ofTask_map_self] at hall
  have hlen := congrArg List.length hall
  simp only [List.length_append, Frame.length_encode] at hlen
  have hbefore : ofTask t (sheet (frames.take j)) = [] := List.eq_nil_of_length_eq_zero (by omega)
  have hafter : ofTask t (sheet (frames.drop (j + 1))) = [] := List.eq_nil_of_length_eq_zero (by omega)
  have htorn : ofTask t torn = [] := List.eq_nil_of_length_eq_zero (by omega)
  have hresponse : g.encode = r.encode := by
    rw [hbefore, hafter, htorn, List.nil_append, List.append_nil, List.append_nil] at hall
    exact hall
  refine ⟨frames.take j, sheet (frames.drop (j + 1)) ++ torn, ?_, ?_⟩
  · intro x hx
    have hne : x.1 ≠ t := ne_of_ofTask_sheet hbefore x hx
    rcases hok x (List.mem_of_mem_take hx) with hpushed | ⟨hx', -⟩
    · exact ⟨hne, hpushed⟩
    · exact absurd ((orderly_run hr).conducts_inj _ _ _ hx' hc) hne
  · rw [hbytes, sheet_split hj, hresponse]
    simp only [List.append_assoc]

end

section

variable {δ : Type} [Device δ] {d : δ} {patience : Nat} {es : List Event} {h : Hub δ} {log : List Mark} {p : Peer}
  {t : Nat} {l : Link} {request r : Frame}

/-- The response of an exchange that was answered was written whole, and is what the device gave to what the bytes of the
request say, when its turn came. -/
theorem gave_of_answered (hr : (start d patience).run? es = some (h, log)) (hl : h.links[p]? = some l)
    (hsent : request.encode <+: l.inbound.stream) (hanswered : h.ending? t = some (p, .answered r)) :
    h.Conducts t p ∧ written t p log = r.encode ∧ ∃ before after,
      log = before ++ .executed p request.canonical (some r) :: after ∧
        r = (execute (replay d before) request.canonical).1 := by
  obtain ⟨run, ht⟩ := handler_of_ending? hanswered
  obtain ⟨l', hl', hprog, -⟩ := exchanging_run hr t _ ht
  rw [hl] at hl'
  cases hl'
  cases hprog with
  | @answered asked _ hreq hdone _ hwritten =>
    have hfirst : l.inbound.stream.take Frame.size = request.encode := by
      rw [take_of_isPrefix hsent (Nat.le_of_eq (Frame.length_encode request).symm),
        List.take_of_length_le (Nat.le_of_eq (Frame.length_encode request))]
    unfold Link.Requests at hreq
    rw [hfirst, Frame.decode_encode] at hreq
    cases hreq
    obtain ⟨before, after, hlog, -, -, -⟩ := turn_of_executions hdone
    refine ⟨conducts_of_handler ht, hwritten, before, after, hlog, ?_⟩
    have htrue := truthful_run hr
    rw [hlog] at htrue
    exact Option.some.inj (truthful_append.1 htrue).2.1

/-- The two ends of an exchange agree. The exchange of a client whose request is no interrupt was answered, and as long as no
send to the client broke off in the middle, only interrupts were pushed to it: then the response is what the device gave, at the
place of the exchange, to what the bytes of the request say; and as soon as the client has read as far as the response, in
pieces of any size, it has the response and the numbers of exactly the interrupts that were written before it. -/
theorem client_agrees (hr : (start d patience).run? es = some (h, log)) (hl : h.links[p]? = some l)
    (hsent : request.encode <+: l.inbound.stream) (hcode : request.command.code ≠ 3)
    (hpushed : ∀ f, Pushed es p f → ∃ device number, f = .interrupt device number)
    (hwhole : (start d patience).sendsWhole p es = true) (hanswered : h.ending? t = some (p, .answered r)) :
    ∃ (asked : Frame) (before after : List Mark) (pushes : List (Nat × Frame)) (behind : List (Nat × UInt8)),
      Frame.decode request.encode = .ok asked ∧ log = before ++ .executed p asked (some r) :: after ∧
      r = (execute (replay d before) asked).1 ∧ (∀ x ∈ pushes, x.1 ≠ t ∧ Pushed es p x.2) ∧
      signed p log = sheet pushes ++ r.encode.map (t, ·) ++ behind ∧
      ∀ pieces : List Bytes, pieces.flatten <+: h.stream p →
        Frame.size * pushes.length + Frame.size ≤ pieces.flatten.length →
        Client.request request pieces = .ok ⟨r, pushes.filterMap (·.2.interruptNumber?)⟩ := by
  obtain ⟨hc, hwritten, before, after, hlog, hgave⟩ := gave_of_answered hr hl hsent hanswered
  obtain ⟨pushes, behind, hpushes, hbytes⟩ := pushes_before_response hr hwhole hc hwritten
  have hasked : Frame.decode request.encode = .ok request.canonical := Frame.decode_encode request
  obtain ⟨hcommand, hresponse⟩ := response_of_execute (replay d before) (Frame.isCanonical_of_decode hasked)
  rw [← hgave] at hcommand hresponse
  refine ⟨request.canonical, before, after, pushes, behind, hasked, hlog, hgave, hpushes, hbytes, ?_⟩
  intro pieces hread hlong
  obtain ⟨hown, hback⟩ := Command.ofCode_ne_interrupt hcode
  have hmine : Client.isPush request r = false := by
    have hother : r.command ≠ .interrupt := hcommand ▸ hback
    simp [Client.isPush, hother]
  have hnotice : ∀ f ∈ pushes.map Prod.snd, f.IsCanonical ∧ Client.isPush request f = true := by
    intro f hf
    obtain ⟨x, hx, rfl⟩ := List.mem_map.1 hf
    obtain ⟨device, number, heq⟩ := hpushed x.2 (hpushes x hx).2
    rw [heq]
    exact ⟨Frame.isCanonical_interrupt device number, by simp [Client.isPush, Frame.interrupt, Frame.blank, hown]⟩
  have hnumbers : (pushes.map Prod.snd).map (·.length) = pushes.filterMap (·.2.interruptNumber?) := by
    rw [List.map_map]
    refine (List.filterMap_eq_map_iff_forall_eq_some.2 fun x hx => ?_).symm
    obtain ⟨device, number, heq⟩ := hpushed x.2 (hpushes x hx).2
    simp only [heq, Function.comp_apply, Frame.interruptNumber?_interrupt]
    rfl
  have hstream : h.stream p = (pushes.map Prod.snd).flatMap Frame.encode ++ r.encode ++ behind.map Prod.snd := by
    rw [stream_eq_writtenTo hr, ← map_snd_signed, hbytes, List.map_append, List.map_append, map_snd_sheet,
      map_snd_signature]
  obtain ⟨rest, hpieces⟩ : (pushes.map Prod.snd).flatMap Frame.encode ++ r.encode <+: pieces.flatten := by
    refine List.prefix_of_prefix_length_le (hstream ▸ List.prefix_append _ _) hread ?_
    rw [← map_snd_sheet, List.length_append, List.length_map, length_sheet, Frame.length_encode]
    exact hlong
  rw [← hnumbers]
  exact Client.request_pushes hnotice hresponse hmine hpieces.symm

end

/-- A client to whom an interrupt is pushed while its request is received, and another one after its response is written. -/
def pushedTwice : List Event :=
  let step (t : Nat) : Event := .move (.advance t Frame.size)
  [.attach (.fresh 4096), .serve 0 0, .client 0 (.feed (Frame.write 1 0 7).encode), .broadcast [0] (.interrupt 1 7),
    .move (.advance 0 100), step 1, .move (.advance 1 10), step 0, step 1, step 0, step 0, step 0, step 0,
    .broadcast [0] (.interrupt 1 8), step 2, step 2, step 0, step 0, step 0]

/-- The client has the response and the number of the first interrupt, although it reads on into what follows. -/
theorem client_agrees_pushedTwice :
    ∃ h log r, (start (RegisterFile.empty 1) 1000).run? pushedTwice = some (h, log) ∧
      h.ending? 0 = some (0, .answered r) ∧ r.outcome = .success ∧
      Client.request (.write 1 0 7) [(h.stream 0).take 300, (h.stream 0).drop 300] = .ok ⟨r, [7]⟩ := by
  have hends : ((start (RegisterFile.empty 1) 1000).run? pushedTwice).map (fun x =>
      ((x.1.ending? 0).map fun e => (e.1, e.2.response?.map (·.outcome)), x.1.links[0]?.map (·.inbound.stream),
        (Client.request (.write 1 0 7) [(x.1.stream 0).take 300, (x.1.stream 0).drop 300]).map (·.interrupts))) =
        some (some (0, some .success), some (Frame.write 1 0 7).encode, .ok [7]) := by
    decide +kernel
  have hwhole : (start (RegisterFile.empty 1) 1000).sendsWhole 0 pushedTwice = true := by decide +kernel
  have hpushed : ∀ f, Pushed pushedTwice 0 f → ∃ device number, f = .interrupt device number := by
    rintro f (⟨order, -, hf⟩ | hf)
    · simp only [pushedTwice, List.mem_cons, Event.broadcast.injEq, reduceCtorEq, false_or, or_false, List.not_mem_nil] at hf
      rcases hf with ⟨-, rfl⟩ | ⟨-, rfl⟩
      · exact ⟨1, 7, rfl⟩
      · exact ⟨1, 8, rfl⟩
    · simp [pushedTwice] at hf
  obtain ⟨⟨h, log⟩, hr, heq⟩ := Option.map_eq_some_iff.1 hends
  obtain ⟨hending, heq⟩ := Prod.mk.inj heq
  obtain ⟨hlink, hids⟩ := Prod.mk.inj heq
  obtain ⟨⟨p, ending⟩, hending, heq⟩ := Option.map_eq_some_iff.1 hending
  obtain ⟨rfl, hresponse⟩ := Prod.mk.inj heq
  obtain ⟨r, hresponse, hsuccess⟩ := Option.map_eq_some_iff.1 hresponse
  obtain rfl : ending = .answered r := Handler.Ending.eq_of_response? hresponse
  obtain ⟨l, hl, hsent⟩ := Option.map_eq_some_iff.1 hlink
  have hprefix : (Frame.write 1 0 7).encode <+: l.inbound.stream := hsent ▸ List.prefix_refl _
  have hcode : (Frame.write 1 0 7).command.code ≠ 3 := by decide
  obtain ⟨-, -, -, pushes, behind, -, -, -, -, hbytes, hclient⟩ :=
    client_agrees hr hl hprefix hcode hpushed hwhole hending
  have hlength : (h.stream 0).length = Frame.size * pushes.length + Frame.size + behind.length := by
    rw [stream_eq_writtenTo hr, ← map_snd_signed, List.length_map, hbytes, List.length_append, List.length_append,
      length_sheet, List.length_map, Frame.length_encode]
  have hflat : [(h.stream 0).take 300, (h.stream 0).drop 300].flatten = h.stream 0 := by
    rw [List.flatten_cons, List.flatten_cons, List.flatten_nil, List.append_nil, List.take_append_drop]
  have hpieces : [(h.stream 0).take 300, (h.stream 0).drop 300].flatten <+: h.stream 0 :=
    ⟨[], by rw [List.append_nil, hflat]⟩
  have hread := hclient _ hpieces (by rw [hflat]; omega)
  rw [hread] at hids
  exact ⟨h, log, r, hr, hending, hsuccess, Except.ok.inj hids ▸ hread⟩

end Hub

end Peripheral
