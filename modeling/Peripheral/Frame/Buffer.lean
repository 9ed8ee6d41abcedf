import Peripheral.Frame.Basic
import Peripheral.Log

/-!
# Frame buffers

A frame buffer cuts a stream that arrives in pieces of any size into frames. It keeps what does not yet make up a frame,
so how the stream was cut into pieces never shows in the frames that come out.
-/

namespace Peripheral

/-- The bytes that have arrived and were not yet handed on as part of a frame. -/
structure FrameBuffer where
  bytes : Bytes
  deriving DecidableEq

namespace FrameBuffer

/-- A buffer that nothing has arrived in. -/
def empty : FrameBuffer := ⟨[]⟩

instance : Inhabited FrameBuffer := ⟨empty⟩

/-- Puts a piece of the stream behind what is there. -/
def push (b : FrameBuffer) (piece : Bytes) : FrameBuffer := ⟨b.bytes ++ piece⟩

/-- The number of bytes that wait. -/
def pending (b : FrameBuffer) : Nat := b.bytes.length

/-- Takes out the next frame if all of it has arrived. -/
def next? (b : FrameBuffer) : Option (Frame × FrameBuffer) :=
  if b.bytes.length < Frame.size then none
  else some (.ofBytes (b.bytes.take Frame.size), ⟨b.bytes.drop Frame.size⟩)

/-- What taking a frame out reports. -/
def arrivalLog (f : Frame) : Log.Entry :=
  Log.trace s!"Decoded frame: device={f.device} cmd={f.command.text} addr={Hex.address f.address}"

/-- Forgets what has arrived. -/
def clear (_ : FrameBuffer) : FrameBuffer := empty

/-- Taking out a frame takes as many bytes out of the buffer as a frame has. -/
theorem pending_of_next? {b rest : FrameBuffer} {f : Frame} (h : b.next? = some (f, rest)) :
    b.pending = Frame.size + rest.pending := by
  unfold next? at h
  split at h
  · simp at h
  · simp only [Option.some.injEq, Prod.mk.injEq] at h
    obtain ⟨_, rfl⟩ := h
    simp only [pending, List.length_drop]
    omega

/-- Takes out every frame that has arrived whole. -/
def drain (b : FrameBuffer) : List Frame × FrameBuffer :=
  match _h : b.next? with
  | none => ([], b)
  | some (f, rest) =>
    let (frames, last) := rest.drain
    (f :: frames, last)
termination_by b.pending
decreasing_by
  have := pending_of_next? _h
  simp only [Frame.size] at this
  omega

end FrameBuffer

end Peripheral
