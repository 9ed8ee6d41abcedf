import Peripheral.Proofs.Client.Await

/-!
# The response in a stream

What a client makes of a stream that ends is a matter of the frames that the stream is made of (`Frame.blocks`): the response is
the first of them that is no push, with the numbers of the pushes before it, and if there is none, the bytes behind the last
frame are counted (`request_eq`). The pieces of the stream do not show.
-/

namespace Peripheral

/-! ## The frames of a stream -/

/-- The frames in the whole blocks of 276 bytes that a stream begins with. -/
def Frame.blocks (stream : Bytes) : List Frame :=
  (List.range (stream.length / 276)).map fun j => .ofBytes ((stream.drop (276 * j)).take 276)

/-- A stream that is shorter than a frame holds none. -/
theorem Frame.blocks_of_lt {stream : Bytes} (h : stream.length < 276) : blocks stream = [] := by
  rw [blocks, Nat.div_eq_of_lt h]
  rfl

/-- A stream that is long enough begins with a frame. -/
theorem Frame.blocks_of_le {stream : Bytes} (h : 276 ≤ stream.length) :
    blocks stream = ofBytes (stream.take 276) :: blocks (stream.drop 276) := by
  have hcount : stream.length / 276 = (stream.drop 276).length / 276 + 1 := by
    rw [List.length_drop]
    omega
  rw [blocks, hcount, List.range_succ_eq_map, List.map_cons, List.map_map, blocks]
  congr 1
  refine List.map_congr_left fun j _ => ?_
  simp only [Function.comp_apply, List.drop_drop]
  rw [Nat.mul_succ, Nat.add_comm]

/-- A frame that was read from bytes is that of an interrupt if its command has the number of interrupts. -/
theorem Frame.isInterrupt_of_mem_blocks {stream : Bytes} {f : Frame} (h : f ∈ blocks stream) :
    (f.command == .interrupt) = (f.command.code == 3) := by
  obtain ⟨j, -, rfl⟩ := List.mem_map.1 h
  generalize (stream.drop (276 * j)).take 276 = bytes
  have hcode : (ofBytes bytes).command.code = wordOf (bytes.drop 4) := Command.code_ofCode _
  rw [Bool.eq_iff_iff, beq_iff_eq, beq_iff_eq]
  constructor
  · intro heq
    rw [heq]
    rfl
  · intro hthree
    rw [hcode] at hthree
    show Command.ofCode (wordOf (bytes.drop 4)) = .interrupt
    rw [hthree]
    rfl

/-- Taking out everything whole gives the frames of the stream and leaves the bytes behind them. -/
theorem FrameBuffer.drain_eq_blocks (b : FrameBuffer) :
    b.drain.1 = Frame.blocks b.bytes ∧ b.drain.2.pending = b.bytes.length % 276 := by
  induction b using drain.induct with
  | case1 b hnone =>
    have hlt : b.bytes.length < 276 := next?_eq_none_iff.1 hnone
    rw [drain_of_none hnone, Frame.blocks_of_lt hlt, Nat.mod_eq_of_lt hlt]
    exact ⟨rfl, rfl⟩
  | case2 b f rest hsome _ _ _ ih =>
    obtain ⟨hle, rfl, rfl⟩ := next?_eq_some_iff.1 hsome
    rw [drain_of_some hsome, Frame.blocks_of_le hle]
    refine ⟨congrArg _ ih.1, ih.2.trans ?_⟩
    rw [List.length_drop]
    exact (Nat.mod_eq_sub_mod hle).symm

/-! ## The response -/

namespace Client

/-- The response is the first frame that is no push; the numbers of the pushes before it are kept in order. -/
theorem settle_eq {asked : Frame} {frames : List Frame} {pushed : Frame → Bool}
    (h : ∀ f ∈ frames, isPush asked f = pushed f) (seen : List UInt32) :
    settle asked frames seen =
      match frames.find? (fun f => !pushed f) with
      | some response => .ok ⟨response, seen ++ (frames.takeWhile pushed).map (·.length)⟩
      | none => .error (seen ++ frames.map (·.length)) := by
  induction frames generalizing seen with
  | nil => simp [settle]
  | cons f frames ih =>
    have hf : isPush asked f = pushed f := h f List.mem_cons_self
    have hrest := ih fun g hg => h g (List.mem_cons_of_mem _ hg)
    unfold settle
    rw [hf]
    cases hp : pushed f with
    | false => simp [hp]
    | true => simp [hp, hrest]

/-- A client gets the first frame of the stream that is no push. -/
theorem request_of_pushed {asked : Frame} {pieces : List Bytes} {pushed : Frame → Bool}
    (h : ∀ f ∈ Frame.blocks pieces.flatten, isPush asked f = pushed f) :
    request asked pieces =
      match (Frame.blocks pieces.flatten).find? (fun f => !pushed f) with
      | some response => .ok ⟨response, ((Frame.blocks pieces.flatten).takeWhile pushed).map (·.length)⟩
      | none => .error (.framing ⟨pieces.flatten.length % 276⟩) := by
  have hempty : FrameBuffer.empty.next? = none := FrameBuffer.next?_eq_none_iff.2 (by decide)
  obtain ⟨hframes, hpending⟩ := FrameBuffer.drain_eq_blocks (FrameBuffer.empty.push pieces.flatten)
  have hbytes : (FrameBuffer.empty.push pieces.flatten).bytes = pieces.flatten := List.nil_append _
  rw [hbytes] at hframes hpending
  rw [request, Waiting.await_eq _ _ hempty, Waiting.start, hframes, hpending, settle_eq h]
  cases (Frame.blocks pieces.flatten).find? (fun f => !pushed f) <;> rfl

/-- The answer to a request is the first frame of the stream that comes back whose command is not that of an interrupt, with
the numbers of the interrupts before it; the answer to a request that is itself an interrupt is the first frame. Without such
a frame the client counts the bytes behind the last whole one. The pieces of the stream do not matter. -/
theorem request_eq (asked : Frame) (pieces : List Bytes) :
    (asked.command ≠ .interrupt → request asked pieces =
      match (Frame.blocks pieces.flatten).find? (·.command.code != 3) with
      | some response =>
        .ok ⟨response, ((Frame.blocks pieces.flatten).takeWhile (·.command.code == 3)).map (·.length)⟩
      | none => .error (.framing ⟨pieces.flatten.length % 276⟩)) ∧
    (asked.command = .interrupt → request asked pieces =
      match (Frame.blocks pieces.flatten).head? with
      | some response => .ok ⟨response, []⟩
      | none => .error (.framing ⟨pieces.flatten.length % 276⟩)) ∧
    ∀ others : List Bytes, others.flatten = pieces.flatten → request asked others = request asked pieces := by
  refine ⟨fun hasked => ?_, fun hasked => ?_, fun others hsame => ?_⟩
  · refine request_of_pushed fun f hf => ?_
    rw [isPush, Frame.isInterrupt_of_mem_blocks hf]
    simp [hasked]
  · have hnone : ∀ f ∈ Frame.blocks pieces.flatten, isPush asked f = false := by
      intro f _
      simp [isPush, hasked]
    rw [request_of_pushed hnone]
    cases Frame.blocks pieces.flatten with
    | nil => rfl
    | cons f frames => simp
  · rw [request_of_pushed fun _ _ => rfl, request_of_pushed fun _ _ => rfl, hsame]

/-- Two interrupts with the response behind them, and the beginning of a frame that nobody waits for. -/
def behindPushes : List Bytes :=
  [(Frame.interrupt 1 7).encode ++ (Frame.interrupt 1 8).encode.take 9,
    (Frame.interrupt 1 8).encode.drop 9 ++ (((Frame.read 1 4).reply .success).withValue 5).encode ++ [1, 2]]

/-- The answer stands behind two pushes and is found, however the stream is cut. -/
theorem request_eq_behindPushes :
    (Frame.read 1 4).command ≠ .interrupt ∧
      (∃ response, request (Frame.read 1 4) behindPushes = .ok ⟨response, [7, 8]⟩ ∧ response.value = 5) ∧
      [behindPushes.flatten].flatten = behindPushes.flatten ∧
      request (Frame.read 1 4) [behindPushes.flatten] = request (Frame.read 1 4) behindPushes := by
  have hasked : (Frame.read 1 4).command ≠ .interrupt := by decide
  have hvalue : ((Frame.blocks behindPushes.flatten).find? (·.command.code != 3)).map (·.value) = some 5 := by
    decide +kernel
  have hpushes : ((Frame.blocks behindPushes.flatten).takeWhile (·.command.code == 3)).map (·.length) = [7, 8] := by
    decide +kernel
  have hwhole : [behindPushes.flatten].flatten = behindPushes.flatten := by decide +kernel
  obtain ⟨response, hfound, hfive⟩ := Option.map_eq_some_iff.1 hvalue
  obtain ⟨hanswer, -, hpieces⟩ := request_eq (Frame.read 1 4) behindPushes
  refine ⟨hasked, ⟨response, ?_, hfive⟩, hwhole, hpieces _ hwhole⟩
  rw [hanswer hasked, hfound, hpushes]

end Client

end Peripheral
