import Peripheral.Frame.Buffer
import Peripheral.Proofs.Frame.RoundTrip

/-!
# Cutting a stream into frames

Whatever is done with a frame buffer, the frames taken out of it are the ones that the stream of arrived bytes is made of, from
its beginning and without a gap, and what waits is the rest (`Accounts`, step by step). How the stream came in pieces does not
show once everything whole was taken out (`drain_push`), so two ways of feeding the same stream end alike (`frames_of_stream`).
-/

namespace Peripheral.FrameBuffer

/-- Something that is done with a buffer. -/
inductive Action
  | push (piece : Bytes)
  | next
  | clear

/-- A buffer in use, with the frames that were taken out since it was last cleared. -/
structure Use where
  buffer : FrameBuffer
  taken : List Frame
  deriving DecidableEq

namespace Use

/-- A new buffer. -/
def start : Use := ⟨.empty, []⟩

/-- The buffer after something was done with it. -/
def step (u : Use) : Action → Use
  | .push piece => { u with buffer := u.buffer.push piece }
  | .next =>
    match u.buffer.next? with
    | none => u
    | some (f, rest) => ⟨rest, u.taken ++ [f]⟩
  | .clear => ⟨u.buffer.clear, []⟩

/-- A new buffer after actions. -/
def run (actions : List Action) : Use := actions.foldl step start

/-- All frames since the buffer was cleared, and what waits, once everything whole is taken out. -/
def drained (u : Use) : List Frame × FrameBuffer := (u.taken ++ u.buffer.drain.1, u.buffer.drain.2)

end Use

/-- The stream since the buffer was last cleared, one action later. -/
def Action.extend (stream : Bytes) : Action → Bytes
  | push piece => stream ++ piece
  | next => stream
  | clear => []

/-- The bytes that arrived since the buffer was last cleared. -/
def arrived (actions : List Action) : Bytes := actions.foldl Action.extend []

/-! ## Taking frames out -/

/-- There is no frame to hand out exactly when there are not enough bytes for one. -/
theorem next?_eq_none_iff {b : FrameBuffer} : b.next? = none ↔ b.bytes.length < Frame.size := by
  unfold next?
  split
  · rename_i h
    exact ⟨fun _ => h, fun _ => rfl⟩
  · rename_i h
    constructor
    · intro hn
      nomatch hn
    · intro hlt
      exact absurd hlt h

/-- A frame is handed out exactly when there are enough bytes: it is that of the first ones, and the others remain. -/
theorem next?_eq_some_iff {b rest : FrameBuffer} {f : Frame} :
    b.next? = some (f, rest) ↔
      Frame.size ≤ b.bytes.length ∧ f = .ofBytes (b.bytes.take Frame.size) ∧ rest = ⟨b.bytes.drop Frame.size⟩ := by
  unfold next?
  split
  · rename_i h
    constructor
    · intro hn
      nomatch hn
    · rintro ⟨hle, -, -⟩
      omega
  · rename_i h
    constructor
    · intro hs
      obtain ⟨rfl, rfl⟩ := Prod.mk.inj (Option.some.inj hs)
      exact ⟨Nat.not_lt.1 h, rfl, rfl⟩
    · rintro ⟨-, rfl, rfl⟩
      rfl

/-- A frame that has arrived whole is taken out all the same when more arrives behind it. -/
theorem next?_push {b rest : FrameBuffer} {f : Frame} (piece : Bytes) (h : b.next? = some (f, rest)) :
    (b.push piece).next? = some (f, rest.push piece) := by
  obtain ⟨hle, rfl, rfl⟩ := next?_eq_some_iff.1 h
  refine next?_eq_some_iff.2 ⟨?_, ?_, ?_⟩
  · rw [push, List.length_append]
    omega
  · rw [push, List.take_append_of_le_length hle]
  · rw [push, push, List.drop_append_of_le_length hle]

/-- A buffer without a whole frame has nothing to hand out. -/
theorem drain_of_none {b : FrameBuffer} (h : b.next? = none) : b.drain = ([], b) := by
  rw [drain]
  grind

/-- A buffer hands out its first frame, and then what the rest hands out. -/
theorem drain_of_some {b rest : FrameBuffer} {f : Frame} (h : b.next? = some (f, rest)) :
    b.drain = (f :: rest.drain.1, rest.drain.2) := by
  rw [drain]
  grind

/-- It makes no difference whether whole frames are taken out before more arrives or only afterwards. -/
theorem drain_push (b : FrameBuffer) (piece : Bytes) :
    (b.push piece).drain =
      (b.drain.1 ++ (b.drain.2.push piece).drain.1, (b.drain.2.push piece).drain.2) := by
  induction b using drain.induct with
  | case1 b hn =>
    rw [drain_of_none hn]
    rfl
  | case2 b f rest hs _ _ _ ih =>
    rw [drain_of_some hs, drain_of_some (next?_push piece hs), ih]
    rfl

/-- Nothing whole is left once everything whole was taken out. -/
theorem next?_drain (b : FrameBuffer) : b.drain.2.next? = none := by
  induction b using drain.induct with
  | case1 b hn =>
    rw [drain_of_none hn]
    exact hn
  | case2 b f rest hs _ _ _ ih =>
    rw [drain_of_some hs]
    exact ih

/-! ## Accounts -/

/-- The frame of a stream with the given number, counted from zero. -/
def frameAt (stream : Bytes) (j : Nat) : Except Truncated Frame := Frame.decode ((stream.drop (276 * j)).take 276)

/-- The frames taken out are those at the beginning of the stream, and the rest of the stream waits. -/
structure Accounts (stream : Bytes) (u : Use) : Prop where
  taken : ∀ j f, u.taken[j]? = some f → frameAt stream j = .ok f
  fits : 276 * u.taken.length ≤ stream.length
  waiting : u.buffer.bytes = stream.drop (276 * u.taken.length)

/-- In the beginning nothing has arrived, and nothing was taken. -/
theorem accounts_new : Accounts [] .start where
  taken _ _ hj := nomatch hj
  fits := Nat.le_refl _
  waiting := rfl

/-- A frame that is whole does not change when more arrives. -/
theorem frameAt_append {stream : Bytes} {j : Nat} (piece : Bytes) (h : 276 * (j + 1) ≤ stream.length) :
    frameAt (stream ++ piece) j = frameAt stream j := by
  unfold frameAt
  rw [List.drop_append_of_le_length (by omega),
    List.take_append_of_le_length (by rw [List.length_drop]; omega)]

/-- Bytes that arrive are accounted for. -/
theorem Accounts.push {stream : Bytes} {u : Use} (h : Accounts stream u) (piece : Bytes) :
    Accounts (stream ++ piece) (u.step (.push piece)) where
  taken j f hj := by
    have hlt : j < u.taken.length := (List.getElem?_eq_some_iff.1 hj).1
    have hfits := h.fits
    rw [frameAt_append piece (by omega)]
    exact h.taken j f hj
  fits := by
    have hfits := h.fits
    rw [List.length_append]
    exact Nat.le_trans hfits (Nat.le_add_right _ _)
  waiting := by
    show u.buffer.bytes ++ piece = (stream ++ piece).drop (276 * u.taken.length)
    rw [h.waiting, List.drop_append_of_le_length h.fits]

/-- A frame that is taken out is accounted for. -/
theorem Accounts.next {stream : Bytes} {u : Use} (h : Accounts stream u) : Accounts stream (u.step .next) := by
  unfold Use.step
  cases hn : u.buffer.next? with
  | none => exact h
  | some fr =>
    obtain ⟨f, rest⟩ := fr
    obtain ⟨hle, rfl, rfl⟩ := next?_eq_some_iff.1 hn
    have hwaiting := h.waiting
    have hlen : 276 ≤ stream.length - 276 * u.taken.length := by
      rw [← List.length_drop, ← hwaiting]
      exact hle
    refine ⟨?_, ?_, ?_⟩
    · intro j f hj
      by_cases hlt : j < u.taken.length
      · rw [List.getElem?_append_left hlt] at hj
        exact h.taken j f hj
      · have hbound := (List.getElem?_eq_some_iff.1 hj).1
        rw [List.length_append, List.length_singleton] at hbound
        obtain rfl : j = u.taken.length := by omega
        rw [List.getElem?_concat_length] at hj
        rw [← Option.some.inj hj, frameAt, ← hwaiting]
        exact Frame.decode_of_le (by rw [List.length_take]; exact Nat.le_min.2 ⟨Nat.le_refl _, hle⟩)
    · rw [List.length_append, List.length_singleton]
      have hfits := h.fits
      omega
    · show u.buffer.bytes.drop Frame.size = _
      rw [hwaiting, List.drop_drop, List.length_append, List.length_singleton, Nat.mul_add]
      rfl

/-- Whatever is done with a buffer is accounted for. -/
theorem Accounts.step {stream : Bytes} {u : Use} (h : Accounts stream u) (a : Action) :
    Accounts (a.extend stream) (u.step a) := by
  cases a with
  | push piece => exact h.push piece
  | next => exact h.next
  | clear => exact accounts_new

/-- What is left once everything whole was taken out depends on the stream alone. -/
theorem drained_step {stream : Bytes} {u : Use} (h : u.drained = (mk stream).drain) (a : Action) :
    (u.step a).drained = (mk (a.extend stream)).drain := by
  cases a with
  | push piece =>
    have hall : (mk (stream ++ piece)).drain =
        (u.drained.1 ++ (u.drained.2.push piece).drain.1, (u.drained.2.push piece).drain.2) := by
      rw [h]
      exact drain_push (mk stream) piece
    rw [Action.extend, hall]
    simp only [Use.step, Use.drained]
    rw [drain_push u.buffer piece, List.append_assoc]
  | next =>
    rw [Action.extend, ← h]
    unfold Use.step
    cases hn : u.buffer.next? with
    | none => rfl
    | some fr =>
      obtain ⟨f, rest⟩ := fr
      simp only [Use.drained, drain_of_some hn, List.append_assoc, List.singleton_append]
  | clear => rfl

/-- Everything that is done with a buffer is accounted for, and what is still in it is what is left of the stream. -/
theorem accounts_run (actions : List Action) :
    Accounts (arrived actions) (Use.run actions) ∧ (Use.run actions).drained = (mk (arrived actions)).drain := by
  have steps (u : Use) (stream : Bytes) (h : Accounts stream u) (hd : u.drained = (mk stream).drain) :
      Accounts (actions.foldl Action.extend stream) (actions.foldl Use.step u) ∧
        (actions.foldl Use.step u).drained = (mk (actions.foldl Action.extend stream)).drain := by
    induction actions generalizing u stream with
    | nil => exact ⟨h, hd⟩
    | cons a rest ih => exact ih _ _ (h.step a) (drained_step hd a)
  exact steps .start [] accounts_new rfl

/-- Whatever was done with a buffer: the frames taken out since it was cleared are those at the beginning of the stream that
has arrived since, one after the other; there is none to be taken out exactly when the rest of the stream is too short; and
the rest is what waits. Two ways of feeding the same stream give the same frames and leave the same rest, once everything
whole was taken out. -/
theorem frames_of_stream (actions : List Action) :
    276 * (Use.run actions).taken.length ≤ (arrived actions).length ∧
    (∀ j f, (Use.run actions).taken[j]? = some f → frameAt (arrived actions) j = .ok f) ∧
    ((Use.run actions).buffer.next? = none ↔ (arrived actions).length - 276 * (Use.run actions).taken.length < 276) ∧
    (Use.run actions).buffer.pending = (arrived actions).length - 276 * (Use.run actions).taken.length ∧
    (Use.run actions).drained.2.next? = none ∧
    ∀ others, arrived others = arrived actions → (Use.run others).drained = (Use.run actions).drained := by
  obtain ⟨haccounts, hdrained⟩ := accounts_run actions
  have hpending : (Use.run actions).buffer.bytes.length =
      (arrived actions).length - 276 * (Use.run actions).taken.length := by
    rw [haccounts.waiting, List.length_drop]
  refine ⟨haccounts.fits, haccounts.taken, ?_, hpending, next?_drain _, ?_⟩
  · rw [next?_eq_none_iff, hpending]
    rfl
  · intro others h
    rw [hdrained, (accounts_run others).2, h]

/-- Two requests and two bytes more, with a byte before them that is thrown away, in pieces that end anywhere. -/
def inPieces : List Action :=
  [.push [9], .clear, .push ((Frame.read 1 64).encode.take 100), .next,
    .push ((Frame.read 1 64).encode.drop 100 ++ (Frame.write 1 64 7).encode), .next, .push [1, 2]]

/-- The same stream in one piece. -/
def atOnce : List Action := [.push ((Frame.read 1 64).encode ++ (Frame.write 1 64 7).encode ++ [1, 2])]

/-- The same stream hands out the same frames, in pieces and at once. -/
theorem frames_of_stream_inPieces :
    (∃ f, (Use.run inPieces).taken[0]? = some f ∧ frameAt (arrived inPieces) 0 = .ok f) ∧
      arrived atOnce = arrived inPieces ∧ (Use.run atOnce).drained = (Use.run inPieces).drained := by
  obtain ⟨-, htaken, -, -, -, hsame⟩ := frames_of_stream inPieces
  have hsome : 0 < (Use.run inPieces).taken.length := by decide +kernel
  have hfirst := List.getElem?_eq_getElem hsome
  have hstream : arrived atOnce = arrived inPieces := by decide +kernel
  exact ⟨⟨_, hfirst, htaken 0 _ hfirst⟩, hstream, hsame atOnce hstream⟩

end Peripheral.FrameBuffer
