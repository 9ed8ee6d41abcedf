import Peripheral.Client
import Peripheral.Proofs.Frame.Cutting

/-!
# Waiting for an answer

A client that waits for its answer finds it among the frames that the whole stream is made of, however the stream comes in
pieces (`await_eq`): the answer is the first frame that is not a push, and the interrupts are those of the pushes before it
(`settle_pushes`).
-/

namespace Peripheral

/-! ## Frames in a row -/

/-- A buffer that begins with a whole frame hands out this frame first. -/
theorem FrameBuffer.drain_encode (f : Frame) (rest : Bytes) :
    (mk (f.encode ++ rest)).drain = (f.canonical :: (mk rest).drain.1, (mk rest).drain.2) := by
  have hlen : f.encode.length = Frame.size := Frame.length_encode f
  refine drain_of_some (next?_eq_some_iff.2 ⟨?_, ?_, ?_⟩)
  · rw [List.length_append, hlen]
    exact Nat.le_add_right _ _
  · rw [List.take_left' hlen]
    exact (Frame.decode_eq_ok_iff.1 (Frame.decode_encode f)).2.symm
  · rw [List.drop_left' hlen]

/-- Frames one after the other are taken out one after the other. -/
theorem FrameBuffer.drain_frames (frames : List Frame) (rest : Bytes) :
    (mk (frames.flatMap Frame.encode ++ rest)).drain =
      (frames.map Frame.canonical ++ (mk rest).drain.1, (mk rest).drain.2) := by
  induction frames with
  | nil => rfl
  | cons f frames ih =>
    rw [List.flatMap_cons, List.append_assoc, drain_encode, ih]
    rfl

namespace Client

/-! ## Looking for the answer -/

/-- Pushes are collected until the first frame that is none. -/
theorem settle_append (request : Frame) (a b : List Frame) (seen : List UInt32) :
    settle request (a ++ b) seen =
      match settle request a seen with
      | .ok answer => .ok answer
      | .error seen => settle request b seen := by
  induction a generalizing seen with
  | nil => rfl
  | cons f a ih =>
    rw [List.cons_append, settle, settle]
    by_cases hf : isPush request f = true
    · rw [if_pos hf, if_pos hf, ih]
    · rw [if_neg hf, if_neg hf]

/-- The first frame that is no push is the response, with the numbers of the pushes before it. -/
theorem settle_pushes {request response : Frame} {pushes : List Frame} (hpushes : ∀ f ∈ pushes, isPush request f = true)
    (hresponse : isPush request response = false) (rest : List Frame) (seen : List UInt32) :
    settle request (pushes ++ response :: rest) seen = .ok ⟨response, seen ++ pushes.map (·.length)⟩ := by
  induction pushes generalizing seen with
  | nil =>
    rw [List.nil_append, settle, hresponse, List.map_nil, List.append_nil]
    rfl
  | cons f pushes ih =>
    have hf : isPush request f = true := hpushes f List.mem_cons_self
    have hrest : ∀ g ∈ pushes, isPush request g = true := fun g hg => hpushes g (List.mem_cons_of_mem _ hg)
    rw [List.cons_append, settle, if_pos hf, ih hrest, List.append_assoc]
    rfl

namespace Waiting

/-- What a client makes of a stream in pieces is what it makes of the frames of the whole stream. -/
theorem await_eq (w : Waiting) (pieces : List Bytes) (hw : w.buffer.next? = none) :
    w.await pieces =
      match settle w.request (w.buffer.push pieces.flatten).drain.1 w.interrupts with
      | .ok answer => .ok answer
      | .error _ => .error (.framing ⟨(w.buffer.push pieces.flatten).drain.2.pending⟩) := by
  induction pieces generalizing w with
  | nil =>
    have hsame : w.buffer.push [].flatten = w.buffer := by
      rw [FrameBuffer.push, List.flatten_nil, List.append_nil]
    rw [hsame, FrameBuffer.drain_of_none hw]
    rfl
  | cons piece pieces ih =>
    have hpush : w.buffer.push (piece :: pieces).flatten = (w.buffer.push piece).push pieces.flatten := by
      rw [FrameBuffer.push, FrameBuffer.push, FrameBuffer.push, List.flatten_cons, List.append_assoc]
    rw [hpush, FrameBuffer.drain_push, settle_append, await, receive]
    cases hs : settle w.request (w.buffer.push piece).drain.1 w.interrupts with
    | ok answer => simp only [hs]
    | error seen =>
      simp only [hs]
      exact ih ⟨w.request, (w.buffer.push piece).drain.2, seen⟩ (FrameBuffer.next?_drain _)

end Waiting

/-- A client gets the response behind pushes, however the stream that holds them comes in pieces. -/
theorem request_pushes {asked response : Frame} {pushes : List Frame} {pieces : List Bytes} {rest : Bytes}
    (hpushes : ∀ f ∈ pushes, f.IsCanonical ∧ isPush asked f = true) (hresponse : response.IsCanonical)
    (hmine : isPush asked response = false)
    (hpieces : pieces.flatten = pushes.flatMap Frame.encode ++ response.encode ++ rest) :
    request asked pieces = .ok ⟨response, pushes.map (·.length)⟩ := by
  have hempty : FrameBuffer.empty.next? = none := FrameBuffer.next?_eq_none_iff.2 (by decide)
  have hcanonical : pushes.map Frame.canonical = pushes :=
    List.map_congr_left (fun f hf => (Frame.canonical_eq_iff f).2 (hpushes f hf).1) |>.trans (List.map_id _)
  have hframes : (FrameBuffer.empty.push pieces.flatten).drain.1 = pushes ++ response :: (FrameBuffer.mk rest).drain.1 := by
    rw [FrameBuffer.push, FrameBuffer.empty, List.nil_append, hpieces, List.append_assoc, FrameBuffer.drain_frames,
      FrameBuffer.drain_encode, hcanonical, (Frame.canonical_eq_iff response).2 hresponse]
  rw [request, Waiting.await_eq _ _ hempty, Waiting.start, hframes,
    settle_pushes (fun f hf => (hpushes f hf).2) hmine]
  rfl

end Client

end Peripheral
