import Peripheral.Proofs.Hub.Exchange
import Peripheral.Proofs.Hub.Patience

/-!
# What an errand comes to

What an errand comes to for one peer, whatever the peer does meanwhile: a peer for which there are no jobs is left alone
(`Aside`); a peer that is to be closed is taken out and gets nothing (`Parting`), and one that is not connected is missing
(`Missing`); and a peer that a frame is sent to gets all of it and stays, or gets a part of it and is taken out, because its
link was found broken or it was waited for as long as there is patience (`Leg`, `Excuse`). Each is followed step by step along
the share of the peer (`Aside.step`, `Parting.step`, `Missing.step`, `Leg.step`).
-/

namespace Peripheral

/-- Part of a frame, perhaps nothing, and not all of it. -/
def Frame.Part (f : Frame) (bytes : Bytes) : Prop := ∃ rest, rest ≠ [] ∧ bytes ++ rest = f.encode

/-- Nothing of a frame is a part of it. -/
theorem Frame.part_nil (f : Frame) : f.Part [] := ⟨f.encode, f.encode_ne_nil, rfl⟩

namespace Share

/-- Every byte that was put into the pipe to the client. -/
def stream (s : Share) : Bytes := (s.link?.map (·.outbound.stream)).getD []

/-- Something that happens while an errand is carried out. -/
def Act.isMeanwhile : Act → Bool
  | .enter _ | .begin _ _ _ => false
  | .use _ | .wait _ | .advance _ | .expire => true

/-- Only what happens meanwhile can happen while an errand is carried out. -/
theorem isMeanwhile_of_admits {s : Share} {a : Act} (ha : s.admits a = true) : a.isMeanwhile = true := by
  cases a with
  | enter | begin => cases ha
  | use | wait | advance | expire => rfl

/-- A change of the link that adds nothing to the pipe leaves the stream as it is. -/
theorem stream_updateLink {s : Share} {f : Link → Link} (hf : ∀ l : Link, (f l).outbound.stream = l.outbound.stream) :
    (s.updateLink f).stream = s.stream := by
  unfold stream updateLink
  cases s.link? with
  | none => rfl
  | some l => exact hf l

/-- The client adds nothing to the stream that it reads. -/
theorem stream_use (s : Share) (act : Link.Act) : (s.updateLink (·.act act)).stream = s.stream :=
  stream_updateLink fun l => by cases act <;> rfl

/-- The client's own acts on its link are all that happens to it. -/
structure Aside (was : Share) (acts : List Link.Act) (s : Share) : Prop where
  work : s.work = .idle
  jobs : s.jobs = []
  times : s.times = was.times
  isMember : s.isMember = was.isMember
  link? : s.link? = was.link?.map (fun l => acts.foldl Link.act l)

/-- Whatever happens meanwhile to a peer for which there are no jobs, only what its client does matters. -/
theorem Aside.step {was s : Share} {acts : List Link.Act} (h : Aside was acts s) (patience : Nat) {a : Act}
    (ha : a.isMeanwhile = true) : Aside was (acts ++ a.use?.toList) (s.step patience a) := by
  obtain ⟨hw, hj, ht, hm, hl⟩ := h
  cases a with
  | enter | begin => nomatch ha
  | use act =>
    refine ⟨hw, hj, ht, hm, ?_⟩
    simp [Share.step, updateLink, hl, Act.use?, Function.comp_def]
  | wait ms => simpa [Share.step, hw, Act.use?] using ⟨hw, hj, ht, hm, hl⟩
  | advance grant => simpa [Share.step, Share.advance, hw, hj, Act.use?] using ⟨hw, hj, ht, hm, hl⟩
  | expire => simpa [Share.step, Share.expire, hw, Act.use?] using ⟨hw, hj, ht, hm, hl⟩

/-- To a peer for which there are no jobs, all that matters of what happens meanwhile is what its client does. -/
theorem Aside.foldl {was s : Share} {done : List Link.Act} {acts : List Act} (h : Aside was done s) (patience : Nat)
    (hacts : ∀ a ∈ acts, a.isMeanwhile = true) :
    Aside was (done ++ acts.filterMap Act.use?) (acts.foldl (Share.step patience) s) := by
  induction acts generalizing s done with
  | nil => simpa using h
  | cons a acts ih =>
    have hrest := ih (h.step patience (hacts a List.mem_cons_self)) fun b hb => hacts b (List.mem_cons_of_mem _ hb)
    rw [List.foldl_cons, List.filterMap_cons]
    cases hu : a.use? with
    | none => simpa [hu] using hrest
    | some act => simpa [hu] using hrest

/-- What is left to do about a peer that is taken out, or is out already. -/
inductive Leave (p : Peer) (s : Share) : Prop
  | dismissal : s.work = .idle → s.jobs = [.dismiss p] → Leave p s
  | shutting : s.work = .idle → s.jobs = [.shut p] → s.isMember = false → Leave p s
  | closing {left : Nat} : s.work = .shutting p left → s.jobs = [] → s.isMember = false → Leave p s
  | gone : s.work = .idle → s.jobs = [] → s.isMember = false → Leave p s

/-- A peer is taken out, or is out already, and its stream stays as it is. -/
structure Parting (p : Peer) (stream : Bytes) (s : Share) : Prop where
  leave : Leave p s
  times : s.times = 0
  stream_eq : s.stream = stream

/-- A peer that is taken out goes on being taken out, whatever happens meanwhile. -/
theorem Parting.step {p : Peer} {stream : Bytes} {s : Share} (h : Parting p stream s) (patience : Nat) {a : Act}
    (ha : a.isMeanwhile = true) : Parting p stream (s.step patience a) := by
  obtain ⟨hleave, ht, hs⟩ := h
  have same : ∀ {s' : Share}, Leave p s' → s'.times = s.times → s'.stream = s.stream → Parting p stream s' :=
    fun hl ht' hs' => ⟨hl, ht'.trans ht, hs'.trans hs⟩
  cases a with
  | enter | begin => nomatch ha
  | use act =>
    refine same ?_ rfl (s.stream_use act)
    cases hleave with
    | dismissal hw hj => exact .dismissal hw hj
    | shutting hw hj hm => exact .shutting hw hj hm
    | closing hw hj hm => exact .closing hw hj hm
    | gone hw hj hm => exact .gone hw hj hm
  | wait ms =>
    rw [Share.step]
    cases hleave with
    | dismissal hw hj => simpa only [hw] using same (.dismissal hw hj) rfl rfl
    | shutting hw hj hm => simpa only [hw] using same (.shutting hw hj hm) rfl rfl
    | closing hw hj hm =>
      simp only [hw]
      exact same (.closing rfl hj hm) rfl rfl
    | gone hw hj hm => simpa only [hw] using same (.gone hw hj hm) rfl rfl
  | advance grant =>
    rw [Share.step, Share.advance]
    cases hleave with
    | dismissal hw hj =>
      simp only [hw, hj]
      split
      · exact same (.closing rfl rfl rfl) rfl (stream_updateLink (s := s) (f := (·.join s.task)) fun _ => rfl)
      · rename_i hm
        exact same (.gone rfl rfl (by simpa using hm)) rfl rfl
    | shutting hw hj hm =>
      simp only [hw, hj]
      exact same (.closing rfl rfl hm) rfl (stream_updateLink (s := s) (f := (·.join s.task)) fun _ => rfl)
    | closing hw hj hm =>
      simp only [hw]
      exact same (.gone rfl hj hm) rfl (stream_updateLink (s := s) (f := fun l => l.shut.leave s.task) fun _ => rfl)
    | gone hw hj hm =>
      simp only [hw, hj]
      exact same (.gone hw hj hm) rfl rfl
  | expire =>
    rw [Share.step, Share.expire]
    cases hleave with
    | dismissal hw hj => simpa only [hw] using same (.dismissal hw hj) rfl rfl
    | shutting hw hj hm => simpa only [hw] using same (.shutting hw hj hm) rfl rfl
    | closing hw hj hm =>
      simp only [hw]
      exact same (.gone rfl hj hm) rfl (stream_updateLink (s := s) (f := (·.leave s.task)) fun _ => rfl)
    | gone hw hj hm => simpa only [hw] using same (.gone hw hj hm) rfl rfl

/-- With a peer that is taken out nothing goes wrong any more. -/
theorem Parting.fault?_eq_none {p : Peer} {stream : Bytes} {s : Share} (h : Parting p stream s) (patience : Nat) (a : Act) :
    s.fault? patience a = none := by
  cases a with
  | enter | begin | use | wait => rfl
  | advance | expire =>
    cases h.leave with
    | dismissal hw hj | shutting hw hj | closing hw hj | gone hw hj => simp [Share.fault?, hw, hj]

/-- A frame is sent to a peer that is not connected: nobody is found, and nothing else happens. -/
inductive Missing (p : Peer) (f : Frame) (stream : Bytes) : Share × Option ExchangeError → Prop
  | seeking {s : Share} : s.work = .idle → s.jobs = [.reach p f] → s.isMember = false → s.stream = stream →
      Missing p f stream (s, none)
  | missed {s : Share} : s.work = .idle → s.jobs = [] → s.isMember = false → s.stream = stream →
      Missing p f stream (s, some (.peerGone p.number))

/-- A peer that is not connected is still to be looked for, or was not found, whatever can happen. -/
theorem Missing.step {p : Peer} {f : Frame} {stream : Bytes} {x : Share × Option ExchangeError}
    (h : Missing p f stream x) (patience : Nat) {a : Act} (ha : x.1.admits a = true) :
    Missing p f stream (stepWith patience x a) := by
  cases h with
  | @seeking s hw hj hm hs =>
    cases a with
    | use act =>
      rw [stepWith_of_none rfl]
      exact .seeking hw hj hm ((s.stream_use act).trans hs)
    | advance grant =>
      have hstep : stepWith patience (s, none) (.advance grant) = ({ s with jobs := [] }, some (.peerGone p.number)) := by
        simp [stepWith, Share.step, Share.advance, Share.fault?, hw, hj, hm]
      rw [hstep]
      exact .missed hw rfl hm hs
    | enter | begin => cases ha
    | wait | expire => simp [admits, hw] at ha
  | @missed s hw hj hm hs =>
    cases a with
    | use act =>
      rw [stepWith_of_none rfl]
      exact .missed hw hj hm ((s.stream_use act).trans hs)
    | enter | begin => cases ha
    | wait | advance | expire => simp [admits, hw, hj] at ha

/-- The link to a peer is broken, so that nothing can be put into the pipe. -/
structure Lost (stream : Bytes) (s : Share) : Prop where
  broken : ∃ l, s.link? = some l ∧ l.outbound.isBroken = true ∧ l.outbound.stream = stream
  times : s.times = 0

/-- A change that leaves a broken link broken, and puts nothing into the pipe, leaves it lost. -/
theorem Lost.updateLink {stream : Bytes} {s s' : Share} {f : Link → Link} (h : Lost stream s)
    (hl : s'.link? = s.link?.map f) (ht : s'.times = s.times)
    (hf : ∀ l : Link, l.outbound.isBroken = true →
      (f l).outbound.isBroken = true ∧ (f l).outbound.stream = l.outbound.stream) : Lost stream s' := by
  obtain ⟨⟨l, hsome, hb, hs⟩, ht'⟩ := h
  obtain ⟨hb', hs'⟩ := hf l hb
  exact ⟨⟨f l, by rw [hl, hsome]; rfl, hb', hs'.trans hs⟩, ht.trans ht'⟩

/-- A link that is broken stays broken, whatever happens to the peer, and nothing is put into the pipe. -/
theorem Lost.step {stream : Bytes} {s : Share} (h : Lost stream s) (patience : Nat) {a : Act}
    (ha : a.isMeanwhile = true) : Lost stream (s.step patience a) := by
  have hleave : ∀ {s' : Share}, s'.link? = s.link?.map (·.leave s.task) → s'.times = s.times → Lost stream s' :=
    fun hl ht => h.updateLink hl ht fun _ hb => ⟨hb, rfl⟩
  have hjoin : ∀ {s' : Share}, s'.link? = s.link?.map (·.join s.task) → s'.times = s.times → Lost stream s' :=
    fun hl ht => h.updateLink hl ht fun _ hb => ⟨hb, rfl⟩
  cases a with
  | enter | begin => cases ha
  | use act =>
    refine h.updateLink rfl rfl fun l hb => ?_
    cases act with
    | feed | collect | halfClose | breakOff => exact ⟨hb, rfl⟩
    | hangUp => exact ⟨rfl, rfl⟩
  | wait ms =>
    rw [Share.step]
    split
    · exact h
    · exact ⟨h.broken, h.times⟩
    · exact ⟨h.broken, h.times⟩
  | expire =>
    rw [Share.step, Share.expire]
    split
    · exact hleave rfl rfl
    · exact hleave rfl rfl
    · exact h
  | advance grant =>
    rw [Share.step, Share.advance]
    split
    · obtain ⟨l, hl, hb, -⟩ := h.broken
      rw [hl, Option.map_some, Option.getD_some, Share.write, if_pos hb]
      exact hleave rfl rfl
    · refine h.updateLink (f := fun l => l.shut.leave s.task) rfl rfl fun l hb => ⟨?_, rfl⟩
      simp only [Link.shut, Link.leave, Pipe.finish, Pipe.isBroken, Bool.or_eq_true] at hb ⊢
      split <;> simp_all
    · split
      · exact h
      · exact ⟨h.broken, h.times⟩
      · exact hjoin rfl rfl
      · split
        · exact hjoin rfl rfl
        · exact ⟨h.broken, h.times⟩
      · exact hjoin rfl rfl

/-- Why the sending of a frame to a connected peer has failed: its link was found broken, or it was waited for as long as there
is patience. -/
inductive Excuse (patience waited : Nat) (snapped : Bool) : ExchangeError → Prop
  | broken : snapped = true → Excuse patience waited snapped (.io .brokenPipe)
  | tooSlow : patience ≤ waited → Excuse patience waited snapped (.tooSlow patience)

/-- What is an excuse remains one. -/
theorem Excuse.mono {patience waited more : Nat} {snapped again : Bool} {e : ExchangeError}
    (h : Excuse patience waited snapped e) : Excuse patience (waited + more) (snapped || again) e := by
  cases h with
  | broken hs => exact .broken (by rw [hs, Bool.true_or])
  | tooSlow hw => exact .tooSlow (Nat.le_add_right_of_le hw)

/-- Why the sending of a frame to a connected peer has succeeded: its link was not found broken, and, where its stream is
definite, it took the frame while there was patience. -/
structure Takes (patience waited : Nat) (snapped : Bool) (definite : Prop) : Prop where
  unbroken : snapped = false
  inTime : definite → waited < patience

/-- How far the sending of a frame to a connected peer has come: what its stream was before and what has been added to it, how
long the peer was waited for, whether its link was found broken, and what went wrong. -/
inductive Leg (patience : Nat) (definite : Prop) (p : Peer) (f : Frame) (before : Bytes) (waited : Nat) :
    Bool → Share × Option ExchangeError → Prop
  | seeking {s : Share} : s.work = .idle → s.jobs = [.reach p f] → s.times = 0 → s.isMember = true → s.stream = before →
      Leg patience definite p f before waited false (s, none)
  | ready {s : Share} : s.work = .idle → s.jobs = [.send p f] → s.times = 0 → s.isMember = true → s.stream = before →
      Leg patience definite p f before waited false (s, none)
  | sending {s : Share} {sent rest : Bytes} {left : Nat} : s.work = .sending p rest left → s.jobs = [] → s.times = 0 →
      s.isMember = true → rest ≠ [] → sent ++ rest = f.encode → s.stream = before ++ sent → patience ≤ left + waited →
      Leg patience definite p f before waited false (s, none)
  | reached {s : Share} {snapped : Bool} : s.work = .idle → s.jobs = [] → s.times = 1 → s.isMember = true →
      s.stream = before ++ f.encode → Takes patience waited snapped definite →
      Leg patience definite p f before waited snapped (s, none)
  | failed {s : Share} {sent : Bytes} {snapped : Bool} {e : ExchangeError} : f.Part sent →
      Excuse patience waited snapped e → Parting p (before ++ sent) s →
      Leg patience definite p f before waited snapped (s, some e)

/-- The courier writes some of the rest of the frame, or all of it, or nobody reads it any more. -/
theorem Leg.write {patience waited left grant : Nat} {definite : Prop} {p : Peer} {f : Frame} {before sent rest : Bytes}
    {s : Share} {l : Link} (hj : s.jobs = []) (ht : s.times = 0) (hm : s.isMember = true) (hr : rest ≠ [])
    (hsum : sent ++ rest = f.encode) (hs : s.stream = before ++ sent) (hin : patience ≤ left + waited)
    (hl : s.link? = some l) (hearly : definite → l.outbound.isBroken = false → waited < patience) :
    Leg patience definite p f before waited l.outbound.isBroken
      (s.write p rest left grant l, if l.outbound.isBroken then some (.io .brokenPipe) else none) := by
  have hl' : l.outbound.stream = before ++ sent := by
    rw [stream, hl] at hs
    exact hs
  unfold Share.write
  by_cases hb : l.outbound.isBroken = true
  · rw [if_pos hb, if_pos hb]
    refine .failed (show f.Part sent from ⟨rest, hr, hsum⟩) (.broken hb)
      ⟨.dismissal rfl (by rw [hj]), ht, ?_⟩
    exact (stream_updateLink (s := s) (f := (·.leave s.task)) fun _ => rfl).trans hs
  · rw [if_neg hb, if_neg hb, Bool.eq_false_iff.2 hb]
    dsimp only
    split
    · refine .reached rfl hj (by rw [ht]) hm ?_ ⟨rfl, fun hd => hearly hd (Bool.eq_false_iff.2 hb)⟩
      simp [stream, updateLink, hl, Link.put, Link.leave, Pipe.append, hl', hsum]
    · rename_i hn
      generalize hmost : min (min grant l.outbound.room) rest.length = n at hn
      have hsum' : (sent ++ rest.take n) ++ rest.drop n = f.encode := by
        rw [List.append_assoc, List.take_append_drop, hsum]
      refine .sending rfl hj ht hm ?_ hsum' ?_ hin
      · intro hnil
        have := List.drop_eq_nil_iff.1 hnil
        omega
      · simp [stream, updateLink, hl, Link.put, Pipe.append, hl']

/-- Nobody finds a link broken who does not write. -/
theorem snaps_of_idle {s : Share} (hw : s.work = .idle) (a : Act) : s.snaps a = false := by
  cases a with
  | advance => simp [snaps, isSending, hw]
  | enter | begin | use | wait | expire => rfl

/-- The sending of a frame goes on, whatever happens to the peer. -/
theorem Leg.step {patience waited : Nat} {definite : Prop} {snapped : Bool} {p : Peer} {f : Frame} {before : Bytes}
    {x : Share × Option ExchangeError} (h : Leg patience definite p f before waited snapped x) {a : Act}
    (ha : x.1.admits a = true) (hset : definite → x.1.settles patience waited a = true) :
    Leg patience definite p f before (waited + x.1.delay a) (snapped || x.1.snaps a) (stepWith patience x a) := by
  cases h with
  | failed hpart hexcuse hparting =>
    rw [stepWith_of_none (hparting.fault?_eq_none patience a)]
    exact .failed hpart hexcuse.mono (hparting.step patience (isMeanwhile_of_admits ha))
  | @seeking s hw hj ht hm hs =>
    cases a with
    | use act =>
      rw [stepWith_of_none rfl]
      exact .seeking hw hj ht hm ((s.stream_use act).trans hs)
    | advance grant =>
      rw [stepWith_of_none (by simp [Share.fault?, hw, hj, hm]), snaps_of_idle hw]
      simp only [Share.step, Share.advance, hw, hj, hm, if_true]
      exact .ready rfl rfl ht rfl hs
    | enter | begin => cases ha
    | wait | expire => simp [admits, hw] at ha
  | @ready s hw hj ht hm hs =>
    cases a with
    | use act =>
      rw [stepWith_of_none rfl]
      exact .ready hw hj ht hm ((s.stream_use act).trans hs)
    | advance grant =>
      rw [stepWith_of_none (by simp [Share.fault?, hw, hj]), snaps_of_idle hw]
      simp only [Share.step, Share.advance, hw, hj]
      refine .sending rfl rfl ht hm f.encode_ne_nil (List.nil_append _) ?_ (Nat.le_add_right _ _)
      rw [List.append_nil]
      exact (stream_updateLink (s := s) (f := (·.join s.task)) fun _ => rfl).trans hs
    | enter | begin => cases ha
    | wait | expire => simp [admits, hw] at ha
  | @sending s sent rest left hw hj ht hm hr hsum hs hin =>
    cases a with
    | use act =>
      rw [stepWith_of_none rfl]
      exact .sending hw hj ht hm hr hsum ((s.stream_use act).trans hs) hin
    | wait ms =>
      have hdelay : s.delay (.wait ms) = ms := by simp [delay, isSending, hw]
      rw [stepWith_of_none rfl, hdelay]
      simp only [Share.step, hw]
      exact .sending rfl hj ht hm hr hsum hs (by omega)
    | expire =>
      have hleft : left = 0 := by simpa [admits, hw] using ha
      have hstep : stepWith patience (s, none) .expire = (s.expire, some (.tooSlow patience)) := by
        simp [stepWith, Share.step, Share.fault?, hw]
      rw [hstep, Share.expire]
      simp only [hw]
      refine .failed (show f.Part sent from ⟨rest, hr, hsum⟩) (.tooSlow (by omega)) ⟨.dismissal rfl (by rw [hj]), ht, ?_⟩
      exact (stream_updateLink (s := s) (f := (·.leave s.task)) fun _ => rfl).trans hs
    | advance grant =>
      cases hl : s.link? with
      | none => simp [admits, hw, hl] at ha
      | some l =>
        have hstep : stepWith patience (s, none) (.advance grant) =
            (s.write p rest left grant l, if l.outbound.isBroken then some (.io .brokenPipe) else none) := by
          simp [stepWith, Share.step, Share.advance, Share.fault?, hw, hl]
        have hsnaps : s.snaps (.advance grant) = l.outbound.isBroken := by simp [snaps, isSending, hw, hl]
        rw [hstep, hsnaps, Bool.false_or]
        refine Leg.write hj ht hm hr hsum hs hin hl fun hd hb => ?_
        have hsending : s.isSending = true := by simp [isSending, hw]
        have haccepts : l.accepts s.task rest grant = true := by simpa [admits, hw, hl] using ha
        have hgoes : s.isStalled = false := by simp [isStalled, hl, Link.isStalled_of_accepts haccepts]
        have hearly : waited < patience := by simpa [settles, hsending, hgoes] using hset hd
        exact hearly
    | enter | begin => cases ha
  | @reached s snapped hw hj ht hm hs htakes =>
    cases a with
    | use act =>
      rw [stepWith_of_none rfl, snaps_of_idle hw, Bool.or_false]
      exact .reached hw hj ht hm ((s.stream_use act).trans hs) htakes
    | enter | begin => cases ha
    | wait | advance | expire => simp [admits, hw, hj] at ha

/-! ## The end of an errand -/

/-- A peer that was to be taken out is out in the end. -/
theorem Parting.ended {p : Peer} {stream : Bytes} {s : Share} (h : Parting p stream s) (hw : s.work = .idle)
    (hj : s.jobs = []) : s.isMember = false ∧ s.times = 0 ∧ s.stream = stream := by
  obtain ⟨hleave, ht, hs⟩ := h
  cases hleave with
  | gone _ _ hm => exact ⟨hm, ht, hs⟩
  | dismissal _ hj' | shutting _ hj' =>
    rw [hj] at hj'
    nomatch hj'
  | closing hw' =>
    rw [hw] at hw'
    nomatch hw'

/-- A peer that was not connected was not found. -/
theorem Missing.ended {p : Peer} {f : Frame} {stream : Bytes} {x : Share × Option ExchangeError}
    (h : Missing p f stream x) (hj : x.1.jobs = []) :
    x.1.isMember = false ∧ x.1.stream = stream ∧ x.2 = some (.peerGone p.number) := by
  cases h with
  | missed _ _ hm hs => exact ⟨hm, hs, rfl⟩
  | seeking _ hj' =>
    rw [hj] at hj'
    nomatch hj'

/-- A frame was sent to a peer whole, and the peer stays; or a part of it was, and the peer is out; and either for a reason. -/
theorem Leg.ended {patience waited : Nat} {definite : Prop} {snapped : Bool} {p : Peer} {f : Frame} {before : Bytes}
    {x : Share × Option ExchangeError} (h : Leg patience definite p f before waited snapped x) (hw : x.1.work = .idle)
    (hj : x.1.jobs = []) :
    (x.1.isMember = true ∧ x.1.times = 1 ∧ x.1.stream = before ++ f.encode ∧
      Takes patience waited snapped definite ∧ x.2 = none) ∨
    (x.1.isMember = false ∧ x.1.times = 0 ∧
      ∃ sent e, f.Part sent ∧ x.1.stream = before ++ sent ∧ Excuse patience waited snapped e ∧ x.2 = some e) := by
  cases h with
  | reached _ _ ht hm hs htakes => exact Or.inl ⟨hm, ht, hs, htakes, rfl⟩
  | failed hpart hexcuse hparting =>
    obtain ⟨hm, ht, hs⟩ := hparting.ended hw hj
    exact Or.inr ⟨hm, ht, _, _, hpart, hs, hexcuse, rfl⟩
  | seeking _ hj' | ready _ hj' =>
    rw [hj] at hj'
    nomatch hj'
  | sending hw' =>
    rw [hw] at hw'
    nomatch hw'

end Share

end Peripheral
