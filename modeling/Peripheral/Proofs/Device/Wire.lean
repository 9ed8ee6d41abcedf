import Peripheral.Device.Execute
import Peripheral.Device.Model
import Peripheral.Proofs.Frame.RoundTrip

/-!
# Requests on the wire

What a device makes of a request is one of seven things (`Verdict`), and the answer is always the header of the request with
an outcome, a register value and zeros behind it (`encode_answer`). From the two it follows what each byte of an answer says,
and that a request that was not carried out leaves the device as it was (`executeBytes_answers`).
-/

namespace Peripheral

/-- A device that refuses a read as unmapped and a write as rejected, and is then as it was. -/
class Device.Lawful (δ : Type) [Device δ] : Prop where
  read_refused : ∀ {d : δ} {a : UInt32} {e : Refusal}, (Device.read d a).1 = .error e →
    e.outcome = .invalidAddress ∧ (Device.read d a).2 = d
  write_refused : ∀ {d : δ} {a v : UInt32} {e : Refusal}, (Device.write d a v).1 = .error e →
    e.outcome = .error ∧ (Device.write d a v).2 = d

instance : Device.Lawful RegisterFile where
  read_refused h := nomatch h
  write_refused h := nomatch h

/-- A read that is refused is of an address without a register, and changes nothing. -/
theorem Uart.read_of_error {u : Uart} {a : UInt32} {e : Refusal} (h : (u.read a).1 = .error e) :
    e = .unmapped a ∧ (u.read a).2 = u := by
  unfold Uart.read at h ⊢
  cases hr : u.register? a with
  | none =>
    simp only [hr] at h
    exact ⟨(Except.error.inj h).symm, rfl⟩
  | some r =>
    simp only [hr] at h
    nomatch h

/-- A write that is refused names its address, and changes nothing. -/
theorem Uart.write_of_error {u : Uart} {a v : UInt32} {e : Refusal} (h : (u.write a v).1 = .error e) :
    e = .rejected a ∧ (u.write a v).2 = u := by
  unfold Uart.write at h ⊢
  cases hr : u.register? a with
  | none =>
    simp only [hr] at h
    exact ⟨(Except.error.inj h).symm, rfl⟩
  | some r =>
    simp only [hr] at h
    nomatch h

instance : Device.Lawful Uart where
  read_refused h := by
    obtain ⟨rfl, hu⟩ := Uart.read_of_error h
    exact ⟨rfl, hu⟩
  write_refused h := by
    obtain ⟨rfl, hu⟩ := Uart.write_of_error h
    exact ⟨rfl, hu⟩

instance : Device.Lawful Model where
  read_refused {d a e} h := by
    cases d with
    | registers r => nomatch h
    | uart u =>
      obtain ⟨he, hu⟩ := Device.Lawful.read_refused (d := u) h
      exact ⟨he, congrArg Model.uart hu⟩
  write_refused {d a v e} h := by
    cases d with
    | registers r => nomatch h
    | uart u =>
      obtain ⟨he, hu⟩ := Device.Lawful.write_refused (d := u) h
      exact ⟨he, congrArg Model.uart hu⟩

/-! ## What a device makes of a request -/

/-- What a device makes of a request: the outcome, the register value of the answer, and the device afterwards. -/
inductive Verdict {δ : Type} [Device δ] (d : δ) (request : Frame) : Outcome → UInt32 → δ → Prop
  | fetched {v : UInt32} : request.command = .read → (Device.read d request.address).1 = .ok v →
      Verdict d request .success v (Device.read d request.address).2
  | unmapped {e : Refusal} : request.command = .read → (Device.read d request.address).1 = .error e →
      Verdict d request .invalidAddress 0 d
  | stored : request.command = .write → (Device.write d request.address request.value).1 = .ok () →
      Verdict d request .success 0 (Device.write d request.address request.value).2
  | rejected {e : Refusal} : request.command = .write → (Device.write d request.address request.value).1 = .error e →
      Verdict d request .error 0 d
  | initialised : request.command = .init → Verdict d request .success 0 (Device.init d request.device)
  | released : request.command = .deinit → Verdict d request .success 0 (Device.deinit d request.device)
  | misplaced : (∀ c ∈ [Command.read, .write, .init, .deinit], request.command ≠ c) → Verdict d request .error 0 d

theorem Payload.toList_zero : Payload.zero.toList = List.replicate 256 0 := Vector.toList_replicate

/-- Payload that begins with a word goes on with zeros. -/
theorem Payload.toList_overwrite_zero (v : UInt32) :
    (Payload.zero.overwrite (wordBytes v)).toList = wordBytes v ++ List.replicate 252 0 := by
  unfold Payload.overwrite
  rw [length_wordBytes, toList_zero, List.drop_replicate]
  refine Payload.toList_ofBytes _ ?_
  rw [List.length_append, length_wordBytes, List.length_replicate]

/-- An empty payload holds the register value zero. -/
theorem Frame.withValue_zero (request : Frame) (outcome : Outcome) :
    (request.reply outcome).withValue 0 = request.reply outcome := by
  have hzero : Payload.zero.overwrite (wordBytes 0) = Payload.zero := by
    rw [← Vector.toList_inj, Payload.toList_overwrite_zero, Payload.toList_zero]
    rfl
  show { request.reply outcome with payload := Payload.zero.overwrite (wordBytes 0) } = request.reply outcome
  rw [hzero]
  rfl

/-- The execution of a request is a reply with an outcome and a value, and the device says which. -/
theorem execute_verdict {δ : Type} [Device δ] [Device.Lawful δ] (d : δ) (request : Frame) :
    ∃ outcome v after, execute d request = ((request.reply outcome).withValue v, after) ∧
      Verdict d request outcome v after := by
  unfold execute
  cases hc : request.command with
  | read =>
    cases hr : Device.read d request.address with
    | mk result after =>
      cases result with
      | ok v =>
        have h := Verdict.fetched (d := d) (v := v) hc (by rw [hr])
        rw [hr] at h
        exact ⟨.success, v, after, rfl, h⟩
      | error e =>
        have he : (Device.read d request.address).1 = .error e := by rw [hr]
        obtain ⟨hout, hsame⟩ := Device.Lawful.read_refused he
        rw [hr] at hsame
        refine ⟨.invalidAddress, 0, d, ?_, .unmapped hc he⟩
        rw [Frame.withValue_zero, ← hsame, ← hout]
  | write =>
    cases hw : Device.write d request.address request.value with
    | mk result after =>
      cases result with
      | ok =>
        have h := Verdict.stored (d := d) hc (by rw [hw])
        rw [hw] at h
        refine ⟨.success, 0, after, ?_, h⟩
        rw [Frame.withValue_zero]
      | error e =>
        have he : (Device.write d request.address request.value).1 = .error e := by rw [hw]
        obtain ⟨hout, hsame⟩ := Device.Lawful.write_refused he
        rw [hw] at hsame
        refine ⟨.error, 0, d, ?_, .rejected hc he⟩
        rw [Frame.withValue_zero, ← hsame, ← hout]
  | init => exact ⟨.success, 0, _, by rw [Frame.withValue_zero], .initialised hc⟩
  | deinit => exact ⟨.success, 0, _, by rw [Frame.withValue_zero], .released hc⟩
  | interrupt =>
    refine ⟨.error, 0, d, by rw [Frame.withValue_zero], .misplaced ?_⟩
    intro c hmem heq
    rw [hc] at heq
    rw [← heq] at hmem
    nomatch hmem
  | unknown c =>
    refine ⟨.error, 0, d, by rw [Frame.withValue_zero], .misplaced ?_⟩
    intro c' hmem heq
    rw [hc] at heq
    rw [← heq] at hmem
    simp at hmem

/-! ## The bytes of requests and answers -/

/-- The number of the command in the bytes of a request. -/
def commandCode (request : Bytes) : UInt32 := wordOf (request.drop 4)

/-- The address in the bytes of a request. -/
def registerAddress (request : Bytes) : UInt32 := wordOf (request.drop 8)

/-- The register value in the bytes of a request. -/
def registerValue (request : Bytes) : UInt32 := wordOf (request.drop 20)

/-- The number of the outcome in the bytes of an answer. -/
def outcomeCode (answer : Bytes) : UInt32 := wordOf (answer.drop 16)

/-- The value of a request is the word that its payload begins with. -/
theorem value_ofBytes (request : Bytes) (h : Frame.size ≤ request.length) :
    (Frame.ofBytes request).value = registerValue request := by
  have hlen : ((request.drop 20).take 256).length = 256 := by
    rw [List.length_take, List.length_drop]
    simp only [Frame.size] at h
    omega
  show wordOf (Payload.ofBytes ((request.drop 20).take 256)).toList = wordOf (request.drop 20)
  rw [Payload.toList_ofBytes _ hlen, wordOf_take (by decide)]

/-- The command of a frame is the one that the number in its bytes stands for. -/
theorem Command.ofCode_eq_iff {c : UInt32} {k : Command} (hk : k.isKnown = true) : ofCode c = k ↔ c = k.code := by
  constructor
  · rintro rfl
    rw [code_ofCode]
  · rintro rfl
    cases k with
    | unknown => nomatch hk
    | _ => rfl

/-- An answer is the header of the request, an outcome, a register value and zeros. -/
theorem encode_answer {request : Bytes} (h : Frame.size ≤ request.length) (outcome : Outcome) (v : UInt32) :
    (((Frame.ofBytes request).reply outcome).withValue v).encode =
      request.take 16 ++ (wordBytes outcome.code ++ (wordBytes v ++ List.replicate 252 0)) := by
  have hheader : (((Frame.ofBytes request).reply outcome).withValue v).header =
      (Frame.ofBytes request).header.take 16 ++ wordBytes outcome.code := rfl
  have hpayload : (((Frame.ofBytes request).reply outcome).withValue v).payload =
      Payload.zero.overwrite (wordBytes v) := rfl
  rw [Frame.encode, hheader, hpayload, Payload.toList_overwrite_zero, Frame.header_ofBytes h, List.take_take, List.append_assoc]
  rfl

/-- The parts of what has the form of an answer are found where they were put. -/
theorem parts_of_answer {head rest answer : Bytes} {w v : UInt32} (hhead : head.length = 16) (hrest : rest.length = 252)
    (h : answer = head ++ (wordBytes w ++ (wordBytes v ++ rest))) :
    answer.length = 276 ∧ answer.take 16 = head ∧ outcomeCode answer = w ∧ (answer.drop 20).take 4 = wordBytes v ∧
      answer.drop 24 = rest := by
  have hsixteen : answer.drop 16 = wordBytes w ++ (wordBytes v ++ rest) := by
    rw [h, ← hhead, List.drop_left]
  have htwenty : answer.drop 20 = wordBytes v ++ rest := by
    rw [← List.drop_drop (i := 4) (j := 16), hsixteen]
    rfl
  refine ⟨?_, ?_, ?_, ?_, ?_⟩
  · rw [h]
    simp only [List.length_append, length_wordBytes, hhead, hrest]
  · rw [h, ← hhead, List.take_left]
  · rw [outcomeCode, hsixteen, wordOf_wordBytes_append]
  · rw [htwenty]
    rfl
  · rw [← List.drop_drop (i := 4) (j := 20), htwenty]
    rfl

/-! ## What an answer says -/

section

variable {δ : Type} [Device δ]

/-- The device does not carry out a read at an address. -/
def Device.RefusesRead (d : δ) (a : UInt32) : Prop := ∃ e, (Device.read d a).1 = .error e

/-- The device does not carry out a write at an address. -/
def Device.RefusesWrite (d : δ) (a v : UInt32) : Prop := ∃ e, (Device.write d a v).1 = .error e

/-- The value that the device returns for a request to read, and zero for every other request. -/
def Device.returned (d : δ) (request : Bytes) : UInt32 :=
  if commandCode request = 1 then
    match (Device.read d (registerAddress request)).1 with
    | .ok v => v
    | .error _ => 0
  else 0

/-- The device after a request was carried out. -/
def Device.carriedOut (d : δ) (request : Bytes) : δ :=
  if commandCode request = 1 then (Device.read d (registerAddress request)).2
  else if commandCode request = 2 then (Device.write d (registerAddress request) (registerValue request)).2
  else if commandCode request = 4 then Device.init d (wordOf request)
  else Device.deinit d (wordOf request)

/-- What the bytes of an answer say about a request and what became of the device. -/
structure Answers (d : δ) (request answer : Bytes) (after : δ) : Prop where
  length_eq : answer.length = 276
  header_eq : answer.take 16 = request.take 16
  unmapped_iff : outcomeCode answer = 3 ↔ commandCode request = 1 ∧ Device.RefusesRead d (registerAddress request)
  error_iff : outcomeCode answer = 1 ↔
    commandCode request = 2 ∧ Device.RefusesWrite d (registerAddress request) (registerValue request) ∨
      commandCode request ∉ [1, 2, 4, 5]
  success_else : outcomeCode answer ≠ 3 → outcomeCode answer ≠ 1 → outcomeCode answer = 0
  value_eq : (answer.drop 20).take 4 = wordBytes (Device.returned d request)
  padding_eq : answer.drop 24 = List.replicate 252 0
  unchanged : outcomeCode answer ≠ 0 → after = d
  carried_out : outcomeCode answer = 0 → after = Device.carriedOut d request

/-- The outcome and the value of a verdict, and what became of the device, in terms of the bytes of the request. -/
theorem Verdict.read_off {d after : δ} {request : Bytes} {outcome : Outcome} {v : UInt32}
    (hlen : Frame.size ≤ request.length) (h : Verdict d (Frame.ofBytes request) outcome v after) :
    (outcome.code = 3 ↔ commandCode request = 1 ∧ Device.RefusesRead d (registerAddress request)) ∧
    (outcome.code = 1 ↔
      commandCode request = 2 ∧ Device.RefusesWrite d (registerAddress request) (registerValue request) ∨
        commandCode request ∉ [1, 2, 4, 5]) ∧
    (outcome.code ≠ 3 → outcome.code ≠ 1 → outcome.code = 0) ∧ v = Device.returned d request ∧
    (outcome.code ≠ 0 → after = d) ∧ (outcome.code = 0 → after = Device.carriedOut d request) := by
  have hcode {k : Command} (hk : k.isKnown = true) : (Frame.ofBytes request).command = k ↔ commandCode request = k.code :=
    Command.ofCode_eq_iff hk
  have haddress : (Frame.ofBytes request).address = registerAddress request := rfl
  have hvalue := value_ofBytes request hlen
  cases h with
  | fetched hc hr =>
    have hone := (hcode rfl).1 hc
    rw [haddress] at hr ⊢
    simp [Outcome.code, Device.RefusesRead, Device.returned, Device.carriedOut, hone, Command.code, hr]
  | unmapped hc hr =>
    have hone := (hcode rfl).1 hc
    rw [haddress] at hr
    simp [Outcome.code, Device.RefusesRead, Device.returned, hone, Command.code, hr]
  | stored hc hw =>
    have htwo := (hcode rfl).1 hc
    rw [haddress, hvalue] at hw ⊢
    simp [Outcome.code, Device.RefusesWrite, Device.returned, Device.carriedOut, htwo, Command.code, hw]
  | rejected hc hw =>
    have htwo := (hcode rfl).1 hc
    rw [haddress, hvalue] at hw
    simp [Outcome.code, Device.RefusesWrite, Device.returned, htwo, Command.code, hw]
  | initialised hc =>
    have hfour := (hcode rfl).1 hc
    have hid : (Frame.ofBytes request).device = wordOf request := rfl
    simp [Outcome.code, Device.returned, Device.carriedOut, hfour, Command.code, hid]
  | released hc =>
    have hfive := (hcode rfl).1 hc
    have hid : (Frame.ofBytes request).device = wordOf request := rfl
    simp [Outcome.code, Device.returned, Device.carriedOut, hfive, Command.code, hid]
  | misplaced hc =>
    have hone : commandCode request ≠ 1 := fun h => hc .read (by decide) ((hcode rfl).2 h)
    have htwo : commandCode request ≠ 2 := fun h => hc .write (by decide) ((hcode rfl).2 h)
    have hfour : commandCode request ≠ 4 := fun h => hc .init (by decide) ((hcode rfl).2 h)
    have hfive : commandCode request ≠ 5 := fun h => hc .deinit (by decide) ((hcode rfl).2 h)
    simp [Outcome.code, Device.returned, hone, htwo, hfour, hfive]

/-- A request that is long enough is answered. -/
theorem answers_of_le [Device.Lawful δ] (d : δ) {request : Bytes} (h : Frame.size ≤ request.length) :
    ∃ answer after, executeBytes d request = (.ok answer, after) ∧ Answers d request answer after := by
  obtain ⟨outcome, v, after, hx, hverdict⟩ := execute_verdict d (Frame.ofBytes request)
  obtain ⟨hunmapped, herror, helse, hv, hunchanged, hcarried⟩ := hverdict.read_off h
  have hhead : (request.take 16).length = 16 := by
    rw [List.length_take]
    simp only [Frame.size] at h
    omega
  obtain ⟨hlen, hheader, hcode, hvalue, hpadding⟩ :=
    parts_of_answer hhead (List.length_replicate (n := 252)) (encode_answer h outcome v)
  refine ⟨_, after, ?_, hlen, hheader, ?_, ?_, ?_, ?_, hpadding, ?_, ?_⟩
  · simp only [executeBytes, Frame.decode_of_le h, hx]
  · rw [hcode]
    exact hunmapped
  · rw [hcode]
    exact herror
  · rw [hcode]
    exact helse
  · rw [hvalue, hv]
  · rw [hcode]
    exact hunchanged
  · rw [hcode]
    exact hcarried

end

/-- Too few bytes are reported with their number and reach no device; enough of them are answered by 276 bytes that say what
became of the request, and whatever is behind the first 276 bytes makes no difference. -/
theorem executeBytes_answers (d : Model) (bytes : Bytes) :
    (bytes.length < 276 → executeBytes d bytes = (.error ⟨bytes.length⟩, d)) ∧
    (276 ≤ bytes.length → ∃ answer after, executeBytes d bytes = (.ok answer, after) ∧ Answers d bytes answer after) ∧
    ∀ request more : Bytes, request.length = 276 → executeBytes d (request ++ more) = executeBytes d request := by
  refine ⟨?_, answers_of_le d, ?_⟩
  · intro h
    simp only [executeBytes, Frame.decode_of_lt h]
  · intro request more h
    unfold executeBytes
    rw [Frame.decode_append more h]

/-- A read of a UART beside its registers. -/
def strayRead : Bytes := (Frame.read 1 0x40000010).encode

/-- Two bytes are no request, and a read of an address without a register is refused, whatever follows it. -/
theorem executeBytes_answers_strayRead :
    strayRead.length = 276 ∧ (strayRead.take 2).length < 276 ∧
      executeBytes (ModelConfig.build default) (strayRead.take 2) = (.error ⟨2⟩, ModelConfig.build default) ∧
      ∃ answer, executeBytes (ModelConfig.build default) (strayRead ++ [7]) = (.ok answer, ModelConfig.build default) ∧
        outcomeCode answer = 3 := by
  have hlen : strayRead.length = 276 := Frame.length_encode _
  have hshort : (strayRead.take 2).length < 276 := by decide
  have hrefused : Device.RefusesRead (ModelConfig.build default) (registerAddress strayRead) :=
    ⟨.unmapped 0x40000010, rfl⟩
  obtain ⟨-, hanswer, hmore⟩ := executeBytes_answers (ModelConfig.build default) strayRead
  obtain ⟨answer, after, hx, hsays⟩ := hanswer (Nat.le_of_eq hlen.symm)
  have hthree : outcomeCode answer = 3 := hsays.unmapped_iff.2 ⟨by decide, hrefused⟩
  obtain rfl := hsays.unchanged (by rw [hthree]; decide)
  refine ⟨hlen, hshort, (executeBytes_answers _ (strayRead.take 2)).1 hshort, answer, ?_, hthree⟩
  rw [hmore strayRead [7] hlen, hx]

end Peripheral
