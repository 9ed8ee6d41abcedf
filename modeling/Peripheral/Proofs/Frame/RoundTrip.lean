import Peripheral.Frame.Basic

/-!
# Round trips

Reading undoes writing up to the numbers that stand for the codes, and writing undoes reading exactly, so that the canonical
frames are the runs of bytes of one frame's size under another form (`decode_encode_inverse`). A frame is canonical when none
of its codes is kept as an unknown number although the number has a meaning.
-/

namespace Peripheral

/-! ## Words -/

/-- The bytes of the word that a run of bytes starts with are the first ones of the run. -/
theorem wordBytes_wordOf_of_le {bytes : Bytes} (h : 4 ≤ bytes.length) : wordBytes (wordOf bytes) = bytes.take 4 := by
  match bytes, h with
  | a :: b :: c :: d :: rest, _ => exact wordBytes_wordOf a b c d

/-- Reading a word does not look beyond its four bytes. -/
theorem wordOf_take {bytes : Bytes} {n : Nat} (h : 4 ≤ n) : wordOf (bytes.take n) = wordOf bytes := by
  obtain ⟨m, rfl⟩ := Nat.exists_eq_add_of_le' h
  match bytes with
  | [] | [_] | [_, _] | [_, _, _] => rfl
  | _ :: _ :: _ :: _ :: _ => rfl

/-! ## Codes -/

/-- Reading back an outcome's number gives the outcome, unless an unknown one carries a number that has a meaning. -/
theorem Outcome.ofCode_code_eq_iff (k : Outcome) :
    ofCode k.code = k ↔ ∀ c, k = unknown c → ¬c.toNat ≤ 3 := by
  cases k with
  | unknown c =>
    simp only [code, ofCode, ← UInt32.toNat_inj]
    constructor
    · intro h d hd
      cases hd
      repeat' split at h
      all_goals simp_all
      omega
    · intro h
      have := h c rfl
      simp at this ⊢
      repeat' split
      all_goals simp_all
  | _ => simp [code, ofCode]

namespace Frame

/-- No code of the frame is kept as an unknown number that has a meaning. -/
structure IsCanonical (f : Frame) : Prop where
  command : ∀ c, f.command = .unknown c → ¬(1 ≤ c.toNat ∧ c.toNat ≤ 5)
  outcome : ∀ c, f.outcome = .unknown c → ¬c.toNat ≤ 3

/-- The canonical frames are those that replacing the codes leaves as they are. -/
theorem canonical_eq_iff (f : Frame) : f.canonical = f ↔ f.IsCanonical := by
  constructor
  · intro h
    have hc : Command.ofCode f.command.code = f.command := congrArg Frame.command h
    have ho : Outcome.ofCode f.outcome.code = f.outcome := congrArg Frame.outcome h
    exact ⟨(Command.ofCode_code_eq_iff _).1 hc, (Outcome.ofCode_code_eq_iff _).1 ho⟩
  · intro h
    unfold canonical
    rw [(Command.ofCode_code_eq_iff _).2 h.command, (Outcome.ofCode_code_eq_iff _).2 h.outcome]

/-- A notice has no unknown codes. -/
theorem isCanonical_interrupt (device number : UInt32) : (interrupt device number).IsCanonical where
  command _ h := nomatch h
  outcome _ h := nomatch h

/-! ## Reading -/

/-- From a run of bytes that is long enough a frame is read. -/
theorem decode_of_le {bytes : Bytes} (h : size ≤ bytes.length) : decode bytes = .ok (ofBytes bytes) :=
  if_neg (Nat.not_lt.2 h)

/-- A run of bytes that is too short is refused with its length. -/
theorem decode_of_lt {bytes : Bytes} (h : bytes.length < size) : decode bytes = .error ⟨bytes.length⟩ :=
  if_pos h

/-- A frame is read from every run of bytes that is long enough, and from no other. -/
theorem decode_eq_ok_iff {bytes : Bytes} {f : Frame} : decode bytes = .ok f ↔ size ≤ bytes.length ∧ ofBytes bytes = f := by
  rcases Nat.lt_or_ge bytes.length size with hlt | hge
  · rw [decode_of_lt hlt]
    constructor
    · intro h
      nomatch h
    · rintro ⟨hle, -⟩
      omega
  · rw [decode_of_le hge]
    constructor
    · intro h
      exact ⟨hge, Except.ok.inj h⟩
    · rintro ⟨-, rfl⟩
      rfl

/-- Exactly the runs of bytes that are too short are refused, each with its length. -/
theorem decode_eq_error_iff {bytes : Bytes} {t : Truncated} :
    decode bytes = .error t ↔ bytes.length < size ∧ t.actual = bytes.length := by
  rcases Nat.lt_or_ge bytes.length size with hlt | hge
  · rw [decode_of_lt hlt]
    constructor
    · intro h
      cases h
      exact ⟨hlt, rfl⟩
    · rintro ⟨-, h⟩
      rw [← h]
  · rw [decode_of_le hge]
    constructor
    · intro h
      nomatch h
    · rintro ⟨h, -⟩
      omega

/-! ## Writing what was read -/

/-- The header of the frame that was read is written as the first bytes it was read from. -/
theorem header_ofBytes {bytes : Bytes} (h : size ≤ bytes.length) : (ofBytes bytes).header = bytes.take 20 := by
  have hword (n : Nat) (hn : n + 4 ≤ size) : wordBytes (wordOf (bytes.drop n)) = (bytes.drop n).take 4 :=
    wordBytes_wordOf_of_le (by rw [List.length_drop]; omega)
  have hfirst := hword 0 (by decide)
  rw [List.drop_zero] at hfirst
  unfold header ofBytes
  simp only [Command.code_ofCode, Outcome.code_ofCode]
  rw [hfirst, hword 4 (by decide), hword 8 (by decide), hword 12 (by decide), hword 16 (by decide), ← List.take_add,
    ← List.take_add, ← List.take_add, ← List.take_add]

/-- Writing the frame that was read gives back the bytes that it was read from. -/
theorem encode_ofBytes {bytes : Bytes} (h : size ≤ bytes.length) : (ofBytes bytes).encode = bytes.take size := by
  have hpayload : (ofBytes bytes).payload.toList = (bytes.drop 20).take 256 := by
    refine Payload.toList_ofBytes _ ?_
    rw [List.length_take, List.length_drop]
    simp only [size] at h
    omega
  rw [encode, header_ofBytes h, hpayload, ← List.take_add]
  rfl

/-- A run of one frame's size is the writing of the frame that is read from it. -/
theorem encode_ofBytes_of_length {bytes : Bytes} (h : bytes.length = size) : (ofBytes bytes).encode = bytes := by
  rw [encode_ofBytes (Nat.le_of_eq h.symm), ← h, List.take_length]

/-- From the bytes of a frame the frame is read, with its codes replaced by what their numbers stand for. -/
theorem decode_encode (f : Frame) : decode f.encode = .ok f.canonical := by
  have h := decode_encode_append f []
  rw [List.append_nil] at h
  exact h

/-- A canonical frame is read back from its bytes as it is. -/
theorem IsCanonical.decode_encode {f : Frame} (h : f.IsCanonical) : decode f.encode = .ok f := by
  rw [Frame.decode_encode, (canonical_eq_iff f).2 h]

/-- What is behind the bytes of a frame is not looked at. -/
theorem decode_append {bytes : Bytes} (more : Bytes) (h : bytes.length = size) : decode (bytes ++ more) = decode bytes := by
  rw [← encode_ofBytes_of_length h, decode_encode_append, decode_encode]

/-- Reading and writing undo each other: what is read behind the writing of a frame is the frame with its codes replaced by
what their numbers stand for; what is written after reading is what was read; only runs that are too short are not read,
with their length as the reason; and so the canonical frames and the runs of 276 bytes correspond to each other. -/
theorem decode_encode_inverse :
    (∀ (f : Frame) (rest : Bytes), decode (f.encode ++ rest) =
        .ok { f with command := .ofCode f.command.code, outcome := .ofCode f.outcome.code } ∧
      (decode (f.encode ++ rest) = .ok f ↔ f.IsCanonical)) ∧
    (∀ bytes : Bytes, (∃ f, decode bytes = .ok f ∧ f.encode = bytes.take 276) ↔ 276 ≤ bytes.length) ∧
    (∀ (bytes : Bytes) (t : Truncated), decode bytes = .error t ↔ bytes.length < 276 ∧ t.actual = bytes.length) ∧
    ∀ (bytes : Bytes) (f : Frame), decode bytes = .ok f ∧ bytes.length = 276 ↔ f.IsCanonical ∧ f.encode = bytes := by
  refine ⟨?_, ?_, fun _ _ => decode_eq_error_iff, ?_⟩
  · intro f rest
    refine ⟨decode_encode_append f rest, ?_⟩
    rw [decode_encode_append, ← canonical_eq_iff]
    exact ⟨Except.ok.inj, congrArg Except.ok⟩
  · intro bytes
    constructor
    · rintro ⟨f, hf, -⟩
      exact (decode_eq_ok_iff.1 hf).1
    · intro h
      exact ⟨_, decode_of_le h, encode_ofBytes h⟩
  · intro bytes f
    constructor
    · rintro ⟨hf, hlen⟩
      obtain ⟨hle, rfl⟩ := decode_eq_ok_iff.1 hf
      have hencode : (ofBytes bytes).encode = bytes := encode_ofBytes_of_length hlen
      refine ⟨(canonical_eq_iff _).1 ?_, hencode⟩
      have hback := decode_encode (ofBytes bytes)
      rw [hencode, hf] at hback
      exact (Except.ok.inj hback).symm
    · rintro ⟨hcanonical, rfl⟩
      exact ⟨hcanonical.decode_encode, length_encode f⟩

end Frame

end Peripheral
