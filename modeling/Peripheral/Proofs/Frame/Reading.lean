import Peripheral.Exchange
import Peripheral.Proofs.Frame.Cutting

/-!
# Reading one frame

Reading a frame takes the first 276 bytes of a stream, in whatever pieces they come, and leaves what is behind them unread; a
stream that ends before gives no frame, and the reason says how it ended (`Filled`). A frame buffer that the same bytes are put
into holds the same frame, or waits with as many bytes as were read (`frame_of_pieces`).
-/

namespace Peripheral.Source

/-- All bytes still to come. -/
def stream (s : Source) : Bytes := s.pieces.flatten

/-- No piece is empty, so that a read finds nothing only at the end. -/
def IsFlowing (s : Source) : Prop := ∀ p ∈ s.pieces, p ≠ []

/-- What is reported of a stream that ends after so many bytes of a frame. -/
def ending (s : Source) (received : Nat) : ExchangeError :=
  match s.fault with
  | none => .framing ⟨received⟩
  | some f => .io f

/-- A frame buffer that all pieces were put into. -/
def buffered (s : Source) : FrameBuffer := s.pieces.foldl FrameBuffer.push .empty

/-! ## One read -/

/-- What a read can find: the end, in order or not, or the beginning of the stream as far as there is room. -/
inductive Found (s : Source) (room : Nat) : Except IoFault (Bytes × Source) → Prop
  | nothing (hpieces : s.pieces = []) (hfault : s.fault = none) : Found s room (.ok ([], s))
  | broken (f : IoFault) (hpieces : s.pieces = []) (hfault : s.fault = some f) : Found s room (.error f)
  | bytes (b : UInt8) (more : Bytes) (rest : Source) (hstream : s.stream = b :: more ++ rest.stream)
      (hroom : (b :: more).length ≤ room) (hflow : rest.IsFlowing) (hfault : rest.fault = s.fault) :
      Found s room (.ok (b :: more, rest))

/-- Reading takes the first piece, or as much of it as there is room for. -/
theorem read_cons (p : Bytes) (rest : List Bytes) (fault : Option IoFault) (room : Nat) :
    (mk (p :: rest) fault).read room =
      if p.length ≤ room then .ok (p, ⟨rest, fault⟩) else .ok (p.take room, ⟨p.drop room :: rest, fault⟩) :=
  rfl

/-- What one read of a source that flows can find. -/
theorem found_read {s : Source} (hs : s.IsFlowing) {room : Nat} (hroom : 0 < room) : s.Found room (s.read room) := by
  obtain ⟨pieces, fault⟩ := s
  cases pieces with
  | nil =>
    cases fault with
    | none => exact .nothing rfl rfl
    | some f => exact .broken f rfl rfl
  | cons p rest =>
    have hne : p ≠ [] := hs p List.mem_cons_self
    have hrest : ∀ q ∈ rest, q ≠ [] := fun q hq => hs q (List.mem_cons_of_mem _ hq)
    obtain ⟨b, more, rfl⟩ := List.exists_cons_of_ne_nil hne
    rw [read_cons]
    by_cases hfits : (b :: more).length ≤ room
    · rw [if_pos hfits]
      exact .bytes b more _ rfl hfits hrest rfl
    · rw [if_neg hfits]
      obtain ⟨room, rfl⟩ := Nat.exists_eq_succ_of_ne_zero (Nat.ne_of_gt hroom)
      simp only [List.length_cons, Nat.succ_eq_add_one, Nat.add_le_add_iff_right, Nat.not_le] at hfits
      refine .bytes b (more.take room) ⟨more.drop room :: rest, fault⟩ ?_ ?_ ?_ rfl
      · simp only [stream, List.flatten_cons, List.cons_append, ← List.append_assoc, List.take_append_drop]
      · rw [List.length_cons, List.length_take]
        exact Nat.succ_le_succ (Nat.min_le_left _ _)
      · intro q hq
        rcases List.mem_cons.1 hq with rfl | hq
        · intro hnil
          have hlen := congrArg List.length hnil
          simp only [List.length_drop, List.length_nil] at hlen
          omega
        · exact hrest q hq

/-! ## One frame -/

/-- What reading a frame comes to, behind what was read of it before. -/
inductive Filled (s : Source) (got : Bytes) : Except ExchangeError Frame × Source → Prop
  | whole (rest : Source) (henough : Frame.size ≤ (got ++ s.stream).length)
      (hrest : rest.stream = (got ++ s.stream).drop Frame.size) (hflow : rest.IsFlowing) (hfault : rest.fault = s.fault) :
      Filled s got (.ok (.ofBytes ((got ++ s.stream).take Frame.size)), rest)
  | short (hshort : (got ++ s.stream).length < Frame.size) :
      Filled s got (.error (s.ending (got ++ s.stream).length), ⟨[], s.fault⟩)

/-- At the end of the stream what was read stays too short. -/
theorem Filled.of_ended {s : Source} {got : Bytes} (hpieces : s.pieces = []) (hopen : ¬Frame.size ≤ got.length) :
    s.Filled got (.error (s.ending got.length), s) := by
  obtain ⟨pieces, fault⟩ := s
  cases hpieces
  have hall : got ++ (mk [] fault).stream = got := List.append_nil got
  have hshort : (mk [] fault).Filled got (.error ((mk [] fault).ending (got ++ (mk [] fault).stream).length), ⟨[], fault⟩) :=
    .short (by rw [hall]; exact Nat.lt_of_not_le hopen)
  rw [hall] at hshort
  exact hshort

/-- The bytes that a read finds are as good as read before. -/
theorem Filled.further {s rest : Source} {got more : Bytes} {result : Except ExchangeError Frame × Source}
    (h : rest.Filled (got ++ more) result) (hstream : s.stream = more ++ rest.stream) (hfault : rest.fault = s.fault) :
    s.Filled got result := by
  have hall : got ++ more ++ rest.stream = got ++ s.stream := by rw [hstream, List.append_assoc]
  cases h with
  | whole last henough hlast hflow hsame =>
    rw [hall] at henough hlast ⊢
    exact .whole last henough hlast hflow (hsame.trans hfault)
  | short hshort =>
    have hending : rest.ending = s.ending := by
      unfold ending
      rw [hfault]
    rw [hall] at hshort ⊢
    rw [hending, hfault]
    exact .short hshort

/-- Reading a frame goes on, read by read, to the whole of it or to the end of the stream. -/
theorem filled_fillFrame {s : Source} {got : Bytes} (hs : s.IsFlowing) (hgot : got.length ≤ Frame.size) :
    s.Filled got (s.fillFrame got) := by
  fun_induction fillFrame got s with
  | case1 got s hcomplete =>
    have hlen : got.length = Frame.size := Nat.le_antisymm hgot hcomplete
    have hfirst : (got ++ s.stream).take Frame.size = got := List.take_left' hlen
    rw [← congrArg Frame.ofBytes hfirst]
    refine .whole s ?_ (List.drop_left' hlen).symm hs rfl
    rw [List.length_append]
    exact Nat.le_add_right_of_le hcomplete
  | case2 got s hopen f hread =>
    have hfound := found_read hs (Nat.sub_pos_of_lt (Nat.lt_of_not_le hopen))
    rw [hread] at hfound
    cases hfound with
    | broken f hpieces hfault =>
      have hended := Filled.of_ended hpieces hopen
      rw [ending, hfault] at hended
      exact hended
  | case3 got s hopen rest hread =>
    have hfound := found_read hs (Nat.sub_pos_of_lt (Nat.lt_of_not_le hopen))
    rw [hread] at hfound
    cases hfound with
    | nothing hpieces hfault =>
      have hended := Filled.of_ended hpieces hopen
      rw [ending, hfault] at hended
      exact hended
  | case4 got s hopen b more rest hread ih =>
    have hfound := found_read hs (Nat.sub_pos_of_lt (Nat.lt_of_not_le hopen))
    rw [hread] at hfound
    cases hfound with
    | bytes b more rest hstream hroom hflow hfault =>
      refine (ih hflow ?_).further hstream hfault
      rw [List.length_append]
      omega

/-- A frame that is read is the beginning of the stream, and the rest of the stream is left. -/
theorem readFrame_of_le {s : Source} (hs : s.IsFlowing) (h : Frame.size ≤ s.stream.length) :
    s.readFrame.1 = .ok (.ofBytes (s.stream.take Frame.size)) ∧ s.readFrame.2.stream = s.stream.drop Frame.size ∧
      s.readFrame.2.IsFlowing ∧ s.readFrame.2.fault = s.fault := by
  have hfilled : s.Filled [] s.readFrame := filled_fillFrame hs (Nat.zero_le _)
  generalize s.readFrame = result at hfilled
  cases hfilled with
  | whole rest _ hrest hflow hfault => exact ⟨rfl, hrest, hflow, hfault⟩
  | short hshort => exact absurd h (Nat.not_le.2 hshort)

/-- A stream that is too short gives no frame, and nothing of it is left. -/
theorem readFrame_of_lt {s : Source} (hs : s.IsFlowing) (h : s.stream.length < Frame.size) :
    s.readFrame = (.error (s.ending s.stream.length), ⟨[], s.fault⟩) := by
  have hfilled : s.Filled [] s.readFrame := filled_fillFrame hs (Nat.zero_le _)
  generalize s.readFrame = result at hfilled
  cases hfilled with
  | whole _ henough => exact absurd h (Nat.not_lt.2 henough)
  | short => rfl

/-! ## Frame buffers -/

/-- Pieces that are put into a buffer one after the other wait there one after the other. -/
theorem bytes_foldl_push (b : FrameBuffer) (pieces : List Bytes) :
    (pieces.foldl FrameBuffer.push b).bytes = b.bytes ++ pieces.flatten := by
  induction pieces generalizing b with
  | nil => exact (List.append_nil _).symm
  | cons p rest ih =>
    rw [List.foldl_cons, ih, FrameBuffer.push, List.flatten_cons, List.append_assoc]

/-- What a buffer got from a source is what the source had. -/
theorem bytes_buffered (s : Source) : s.buffered.bytes = s.stream := bytes_foldl_push .empty s.pieces

/-- What reading a frame makes of a stream, whatever its pieces are. -/
structure ReadsFirst (s : Source) : Prop where
  /-- There is a frame exactly if all its bytes come before the end. -/
  isSome : (∃ f, s.readFrame.1 = .ok f) ↔ 276 ≤ s.stream.length
  /-- It is the one that the first bytes hold. -/
  frame : ∀ f, s.readFrame.1 = .ok f → Frame.decode (s.stream.take 276) = .ok f
  /-- The bytes behind it are left for the next read, and so is the way that the stream ends. -/
  rest : 276 ≤ s.stream.length →
    s.readFrame.2.stream = s.stream.drop 276 ∧ s.readFrame.2.IsFlowing ∧ s.readFrame.2.fault = s.fault
  /-- If the stream ends in order before, the bytes that came are counted. -/
  short : s.stream.length < 276 → s.fault = none → s.readFrame.1 = .error (.framing ⟨s.stream.length⟩)
  /-- If a read fails before, the failure is passed on. -/
  broken : s.stream.length < 276 → ∀ f, s.fault = some f → s.readFrame.1 = .error (.io f)
  /-- Other pieces of the same stream come to the same. -/
  pieces : ∀ t : Source, t.IsFlowing → t.stream = s.stream → t.fault = s.fault →
    t.readFrame.1 = s.readFrame.1 ∧ t.readFrame.2.stream = s.readFrame.2.stream
  /-- A buffer that the pieces are put into has the same frame to give, and the same bytes behind it. -/
  next : ∀ f b, s.buffered.next? = some (f, b) → s.readFrame.1 = .ok f ∧ s.readFrame.2.stream = b.bytes
  /-- If it has none to give, as many bytes wait in it as were counted. -/
  pending : s.buffered.next? = none → s.fault = none → s.readFrame.1 = .error (.framing ⟨s.buffered.pending⟩)

/-- Whatever the pieces of a stream, reading a frame takes its first 276 bytes and no more, as a frame buffer would, and fails
only if the stream ends before. -/
theorem frame_of_pieces {s : Source} (hs : s.IsFlowing) : s.ReadsFirst := by
  have hbytes := bytes_buffered s
  rcases Nat.lt_or_ge s.stream.length 276 with hlt | hge
  · have hread := readFrame_of_lt hs hlt
    refine ⟨⟨?_, fun h => absurd h (Nat.not_le.2 hlt)⟩, ?_, fun h => absurd h (Nat.not_le.2 hlt), ?_, ?_, ?_, ?_, ?_⟩
    · rintro ⟨f, hf⟩
      rw [hread] at hf
      nomatch hf
    · intro f hf
      rw [hread] at hf
      nomatch hf
    · intro _ hfault
      rw [hread, ending, hfault]
    · intro _ f hfault
      rw [hread, ending, hfault]
    · intro t ht hstream hfault
      rw [hread, readFrame_of_lt ht (hstream ▸ hlt), ending, ending, hstream, hfault]
      exact ⟨rfl, rfl⟩
    · intro f b hnext
      have henough := (FrameBuffer.next?_eq_some_iff.1 hnext).1
      rw [hbytes] at henough
      exact absurd henough (Nat.not_le.2 hlt)
    · intro _ hfault
      rw [hread, ending, hfault, FrameBuffer.pending, hbytes]
  · obtain ⟨hframe, hrest, hflow, hsame⟩ := readFrame_of_le hs hge
    refine ⟨⟨fun _ => hge, fun _ => ⟨_, hframe⟩⟩, ?_, fun _ => ⟨hrest, hflow, hsame⟩, fun h => absurd hge (Nat.not_le.2 h),
      fun h => absurd hge (Nat.not_le.2 h), ?_, ?_, ?_⟩
    · intro f hf
      rw [hframe] at hf
      rw [← Except.ok.inj hf]
      exact Frame.decode_of_le (by rw [List.length_take]; exact Nat.le_min.2 ⟨Nat.le_refl _, hge⟩)
    · intro t ht hstream _
      obtain ⟨hframe', hrest', -, -⟩ := readFrame_of_le ht (hstream ▸ hge)
      rw [hframe, hframe', hrest, hrest', hstream]
      exact ⟨rfl, rfl⟩
    · intro f b hnext
      obtain ⟨-, rfl, rfl⟩ := FrameBuffer.next?_eq_some_iff.1 hnext
      rw [hbytes]
      exact ⟨hframe, hrest⟩
    · intro hnone
      have hfew := FrameBuffer.next?_eq_none_iff.1 hnone
      rw [hbytes] at hfew
      exact absurd hge (Nat.not_le.2 hfew)

/-- A request whose bytes come in two pieces, with the beginning of another one behind it, before the connection breaks. -/
def twoPieces : Source :=
  ⟨[(Frame.read 1 64).encode.take 100, (Frame.read 1 64).encode.drop 100 ++ [7, 7]], some .connectionReset⟩

/-- A frame that comes in two pieces is read, and the fault after it is still to come. -/
theorem frame_of_pieces_twoPieces :
    twoPieces.IsFlowing ∧ 276 ≤ twoPieces.stream.length ∧ twoPieces.readFrame.2.stream = twoPieces.stream.drop 276 ∧
      twoPieces.readFrame.2.fault = some .connectionReset := by
  have hflow : twoPieces.IsFlowing := by
    unfold IsFlowing
    decide +kernel
  have hlen : 276 ≤ twoPieces.stream.length := by decide +kernel
  obtain ⟨hrest, -, hfault⟩ := (frame_of_pieces hflow).rest hlen
  exact ⟨hflow, hlen, hrest, hfault⟩

end Peripheral.Source
