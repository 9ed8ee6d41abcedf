import Peripheral.Proofs.Hub.Errand

/-!
# Giving up follows from the rest

What happens to a peer while an errand is carried out, but for the giving up, is its script. When the stream to the peer is
definite, it makes no difference whether one is told where the courier gave up: two courses of events that begin alike and have
the same script come to the same (`foldl_eq_of_script`). As long as there is patience nothing can be given up; when there is
none any more, and the frame is still being sent, the stream takes nothing, so that there is nothing to do but to give up; and
whether the closing of a writer is given up before or after an act of the client is all the same.
-/

namespace Peripheral.Share

/-- Whether the courier gives something up. -/
def Act.isGivingUp : Act → Bool
  | .expire => true
  | _ => false

/-- What happens to a peer, but for the giving up. -/
def script (acts : List Act) : List Act := acts.filter (!·.isGivingUp)

/-- There is one way only to give up. -/
theorem Act.eq_expire {a : Act} (ha : a.isGivingUp = true) : a = .expire := by
  cases a with
  | expire => rfl
  | enter | begin | use | wait | advance => cases ha

/-- What is no giving up is part of the script. -/
theorem script_cons {a : Act} {acts : List Act} (ha : a.isGivingUp = false) : script (a :: acts) = a :: script acts :=
  List.filter_cons_of_pos (by rw [ha]; rfl)

/-- Whether everything can happen to the share, one after the other. -/
def admitsAll (patience : Nat) : Share → List Act → Bool
  | _, [] => true
  | s, a :: rest => s.admits a && admitsAll patience (s.step patience a) rest

/-- Whether everything can happen to the share, one after the other, and the stream to the peer is definite meanwhile. -/
def isClear (patience : Nat) : Nat → Share → List Act → Bool
  | _, _, [] => true
  | waited, s, a :: rest =>
    s.admits a && s.settles patience waited a && isClear patience (waited + s.delay a) (s.step patience a) rest

/-- Whether nothing is left to be done for the peer. -/
structure IsDone (s : Share) : Prop where
  work : s.work = .idle
  jobs : s.jobs = []

/-- An errand on its way: there is one thing to do for the peer at a time, and the time that is left for sending a frame is not
less than the patience that is left. -/
structure OnTheWay (patience waited : Nat) (s : Share) : Prop where
  single : s.work = .idle ∧ s.jobs.length ≤ 1 ∨ s.jobs = []
  inTime : ∀ p rest left, s.work = .sending p rest left → patience ≤ left + waited

variable {patience waited : Nat} {s : Share} {failure? : Option ExchangeError} {a : Act} {acts acts' : List Act}

/-- Where everything is clear, everything can happen. -/
theorem admitsAll_of_isClear (hc : isClear patience waited s acts = true) : s.admitsAll patience acts = true := by
  induction acts generalizing s waited with
  | nil => rfl
  | cons a acts ih =>
    simp only [isClear, Bool.and_eq_true] at hc
    rw [admitsAll, hc.1.1, ih hc.2]
    rfl

/-- Nothing has been begun of the one thing there is to do. -/
theorem OnTheWay.of_idle (hw : s.work = .idle) (hj : s.jobs.length ≤ 1) : OnTheWay patience waited s where
  single := Or.inl ⟨hw, hj⟩
  inTime p rest left hs := by
    rw [hw] at hs
    cases hs

/-- A frame is being sent, and there is as much time left as patience. -/
theorem OnTheWay.of_sending {p : Peer} {rest : Bytes} {left : Nat} (hw : s.work = .sending p rest left) (hj : s.jobs = [])
    (hin : patience ≤ left + waited) : OnTheWay patience waited s where
  single := Or.inr hj
  inTime q rest' left' hs := by
    rw [hw] at hs
    cases hs
    exact hin

/-- The writer of the peer is being closed. -/
theorem OnTheWay.of_shutting {p : Peer} {left : Nat} (hw : s.work = .shutting p left) (hj : s.jobs = []) :
    OnTheWay patience waited s where
  single := Or.inr hj
  inTime q rest left' hs := by
    rw [hw] at hs
    cases hs

/-- Whoever is at work for the peer has nothing else to do for it. -/
theorem OnTheWay.jobs_nil (h : OnTheWay patience waited s) (hw : s.work ≠ .idle) : s.jobs = [] :=
  h.single.resolve_left fun hidle => hw hidle.1

/-- Whatever can happen to the peer, an errand on its way remains on its way. -/
theorem OnTheWay.step (h : OnTheWay patience waited s) (ha : s.admits a = true) :
    OnTheWay patience (waited + s.delay a) (s.step patience a) := by
  cases a with
  | enter | begin => cases ha
  | use act => exact ⟨h.single, h.inTime⟩
  | wait ms =>
    rw [Share.step]
    split
    · rename_i hw
      simp [admits, hw] at ha
    · rename_i p rest left hw
      have hdelay : s.delay (.wait ms) = ms := by simp [delay, isSending, hw]
      have hin := h.inTime p rest left hw
      exact .of_sending rfl (h.jobs_nil (by simp [hw])) (by omega)
    · rename_i p left hw
      exact .of_shutting rfl (h.jobs_nil (by simp [hw]))
  | expire =>
    rw [Share.step, Share.expire]
    split
    · rename_i hw
      exact .of_idle rfl (by simp [h.jobs_nil (by simp [hw])])
    · rename_i hw
      exact .of_idle rfl (by simp [updateLink, h.jobs_nil (by simp [hw])])
    · rename_i hw
      simp [admits, hw] at ha
  | advance grant =>
    rw [Share.step, Share.advance]
    split
    · rename_i p rest left hw
      have hj := h.jobs_nil (by simp [hw])
      cases hl : s.link? with
      | none => simp [admits, hw, hl] at ha
      | some l =>
        rw [Option.map_some, Option.getD_some, Share.write]
        split
        · exact .of_idle rfl (by simp [hj])
        · dsimp only
          split
          · exact .of_idle rfl (by simp [updateLink, hj])
          · exact .of_sending rfl hj (h.inTime p rest left hw)
    · rename_i hw
      exact .of_idle rfl (by simp [updateLink, h.jobs_nil (by simp [hw])])
    · rename_i hw
      have hle : s.jobs.length ≤ 1 := h.single.elim And.right fun hj => by simp [hj]
      split
      · exact .of_idle hw hle
      · rename_i p f jobs hj
        rw [hj, List.length_cons] at hle
        refine .of_idle hw ?_
        dsimp only
        split
        · exact hle
        · omega
      all_goals
        rename_i hj
        rw [hj, List.length_cons] at hle
        have hnil := List.eq_nil_of_length_eq_zero (Nat.le_zero.1 (Nat.le_of_succ_le_succ hle))
      · exact .of_sending rfl hnil (Nat.le_add_right _ _)
      · split
        · exact .of_shutting rfl hnil
        · exact .of_idle hw (by simp [hnil])
      · exact .of_shutting rfl hnil

/-! ## When only acts of the client are left -/

/-- The share after acts of the client on its end of the link. -/
def used (s : Share) (uses : List Link.Act) : Share := s.updateLink fun l => uses.foldl Link.act l

theorem used_nil (s : Share) : s.used [] = s := by
  rw [used, updateLink]
  cases s with
  | mk link? => simp

theorem used_cons (s : Share) (act : Link.Act) (uses : List Link.Act) :
    s.used (act :: uses) = (s.updateLink (·.act act)).used uses := by
  simp [used, updateLink, Function.comp_def]

theorem filterMap_use_cons (act : Link.Act) (acts : List Act) :
    (Act.use act :: acts).filterMap Act.use? = act :: acts.filterMap Act.use? := rfl

/-- What the courier gives up makes no difference to what the client does. -/
theorem filterMap_use_script (acts : List Act) : (script acts).filterMap Act.use? = acts.filterMap Act.use? := by
  induction acts with
  | nil => rfl
  | cons a acts ih =>
    cases a with
    | use act => exact congrArg (act :: ·) ih
    | enter | begin | wait | advance | expire => exact ih

/-- When all is done, only the client acts. -/
theorem uses_of_isDone (hd : s.IsDone) (hc : s.admitsAll patience acts = true) : ∀ a ∈ acts, ∃ act, a = .use act := by
  induction acts generalizing s with
  | nil => nofun
  | cons a acts ih =>
    simp only [admitsAll, Bool.and_eq_true] at hc
    obtain ⟨ha, hrest⟩ := hc
    cases a with
    | use act => exact List.forall_mem_cons.2 ⟨⟨act, rfl⟩, ih (s := s.updateLink (·.act act)) ⟨hd.work, hd.jobs⟩ hrest⟩
    | enter | begin => cases ha
    | wait | advance | expire => simp [admits, hd.work, hd.jobs] at ha

/-- When all is done, nothing is given up any more. -/
theorem eq_nil_of_isDone (hd : s.IsDone) (hc : isClear patience waited s acts = true) (hnil : script acts = []) :
    acts = [] := by
  cases acts with
  | nil => rfl
  | cons a more =>
    obtain ⟨act, rfl⟩ := uses_of_isDone hd (admitsAll_of_isClear hc) a List.mem_cons_self
    cases hnil

/-- Where only the client acts, nothing but the link changes. -/
theorem foldl_of_uses (h : ∀ a ∈ acts, ∃ act, a = Act.use act) :
    acts.foldl (stepWith patience) (s, failure?) = (s.used (acts.filterMap Act.use?), failure?) := by
  induction acts generalizing s with
  | nil => rw [List.filterMap_nil, used_nil, List.foldl_nil]
  | cons a acts ih =>
    obtain ⟨⟨act, rfl⟩, hrest⟩ := List.forall_mem_cons.1 h
    rw [List.foldl_cons, stepWith_of_none rfl, ih hrest, filterMap_use_cons, used_cons]
    rfl

/-- When only the client acts besides, the closing of a writer is given up, and it makes no difference when. -/
theorem foldl_of_shutting {p : Peer} {left : Nat} (hw : s.work = .shutting p left) (hj : s.jobs = [])
    (hc : isClear patience waited s acts = true) (hd : (acts.foldl (Share.step patience) s).IsDone)
    (huses : ∀ a ∈ script acts, ∃ act, a = .use act) :
    acts.foldl (stepWith patience) (s, failure?) = (s.expire.used (acts.filterMap Act.use?), failure?) := by
  induction acts generalizing s waited with
  | nil =>
    have hidle := hd.work
    rw [List.foldl_nil, hw] at hidle
    cases hidle
  | cons a acts ih =>
    simp only [isClear, Bool.and_eq_true] at hc
    obtain ⟨-, hrest⟩ := hc
    cases a with
    | use act =>
      have hcomm : (s.updateLink (·.act act)).expire = s.expire.updateLink (·.act act) := by
        have hlink : ∀ l : Link, (l.act act).leave s.task = (l.leave s.task).act act := fun l => by cases act <;> rfl
        simp [Share.expire, updateLink, hw, Function.comp_def, hlink]
      rw [List.foldl_cons, stepWith_of_none rfl, filterMap_use_cons, used_cons, ← hcomm]
      exact ih (s := s.updateLink (·.act act)) hw hj hrest hd (List.forall_mem_cons.1 huses).2
    | expire =>
      have hdone : (s.step patience .expire).IsDone := by
        rw [Share.step, Share.expire]
        simp only [hw]
        exact ⟨rfl, hj⟩
      have huses' := uses_of_isDone hdone (admitsAll_of_isClear hrest)
      rw [List.foldl_cons, stepWith_of_none (by simp [Share.fault?, hw]), foldl_of_uses huses']
      rfl
    | enter | begin | wait | advance =>
      obtain ⟨⟨act, hact⟩, -⟩ := List.forall_mem_cons.1 huses
      cases hact

/-! ## Two courses with the same script -/

/-- If one course gives something up and the other goes on, then what is given up is the closing of a writer, and both come to
the same. -/
theorem foldl_eq_of_giving_up (h : OnTheWay patience waited s) (hc : isClear patience waited s (.expire :: acts) = true)
    (hc' : isClear patience waited s (a :: acts') = true) (ha : a.isGivingUp = false)
    (hd : ((Act.expire :: acts).foldl (Share.step patience) s).IsDone)
    (hd' : ((a :: acts').foldl (Share.step patience) s).IsDone) (hsame : script acts = a :: script acts') :
    (Act.expire :: acts).foldl (stepWith patience) (s, failure?) =
      (a :: acts').foldl (stepWith patience) (s, failure?) := by
  have hrest := hc
  have hfirst := hc'
  simp only [isClear, Bool.and_eq_true] at hrest hfirst
  obtain ⟨⟨hadmits, -⟩, hrest⟩ := hrest
  obtain ⟨⟨hadmits', hsettled⟩, -⟩ := hfirst
  cases hw : s.work with
  | idle => simp [admits, hw] at hadmits
  | sending p rest left =>
    -- The time is over, so the stream takes nothing: the other course cannot but wait, and after giving up nobody waits.
    exfalso
    have hleft : left = 0 := by simpa [admits, hw] using hadmits
    have hover : patience ≤ waited := by
      have := h.inTime p rest left hw
      omega
    have hsending : s.isSending = true := by simp [isSending, hw]
    obtain ⟨hstalled, huse⟩ : s.isStalled = true ∧ a.use?.isNone = true := by
      simpa [settles, hsending, hover] using hsettled
    have hidle : (s.step patience .expire).work = .idle := by simp [Share.step, Share.expire, hw]
    cases acts with
    | nil => cases hsame
    | cons b more =>
      simp only [isClear, Bool.and_eq_true] at hrest
      obtain ⟨⟨hb, -⟩, -⟩ := hrest
      cases b with
      | expire => simp [admits, hidle] at hb
      | enter | begin => cases hb
      | wait => simp [admits, hidle] at hb
      | use act =>
        obtain ⟨rfl, -⟩ := List.cons.inj hsame
        cases huse
      | advance grant =>
        obtain ⟨rfl, -⟩ := List.cons.inj hsame
        rw [isStalled] at hstalled
        cases hl : s.link? with
        | none => simp [hl] at hstalled
        | some l =>
          have haccepts : l.accepts s.task rest grant = true := by simpa [admits, hw, hl] using hadmits'
          rw [hl, Option.any_some, Link.isStalled_of_accepts haccepts] at hstalled
          cases hstalled
  | shutting p left =>
    have hj := h.jobs_nil (by simp [hw])
    have hdone : (s.step patience .expire).IsDone := by
      rw [Share.step, Share.expire]
      simp only [hw]
      exact ⟨rfl, hj⟩
    have huses : ∀ b ∈ script acts, ∃ act, b = .use act :=
      fun b hb => uses_of_isDone hdone (admitsAll_of_isClear hrest) b ((List.mem_filter.1 hb).1)
    rw [foldl_of_shutting hw hj hc hd huses, foldl_of_shutting hw hj hc' hd' (by rw [script_cons ha, ← hsame]; exact huses),
      ← filterMap_use_script (a :: acts'), script_cons ha, ← hsame, filterMap_use_script]
    rfl

/-- Two courses that begin alike and have the same script come to the same, if the stream is definite in both. -/
theorem foldl_eq_of_script (h : OnTheWay patience waited s) (hc : isClear patience waited s acts = true)
    (hc' : isClear patience waited s acts' = true) (hd : (acts.foldl (Share.step patience) s).IsDone)
    (hd' : (acts'.foldl (Share.step patience) s).IsDone) (hsame : script acts = script acts') :
    acts.foldl (stepWith patience) (s, failure?) = acts'.foldl (stepWith patience) (s, failure?) := by
  induction acts generalizing s waited failure? acts' with
  | nil => rw [eq_nil_of_isDone hd hc' hsame.symm]
  | cons a acts ih =>
    cases acts' with
    | nil => rw [eq_nil_of_isDone hd' hc hsame]
    | cons b acts' =>
      have hclear := hc
      have hclear' := hc'
      simp only [isClear, Bool.and_eq_true] at hclear hclear'
      have on := h.step hclear.1.1
      cases ha : a.isGivingUp with
      | true =>
        obtain rfl := Act.eq_expire ha
        cases hb : b.isGivingUp with
        | true =>
          obtain rfl := Act.eq_expire hb
          exact ih on hclear.2 hclear'.2 hd hd' hsame
        | false => exact foldl_eq_of_giving_up h hc hc' hb hd hd' (hsame.trans (script_cons hb))
      | false =>
        cases hb : b.isGivingUp with
        | true =>
          obtain rfl := Act.eq_expire hb
          exact (foldl_eq_of_giving_up h hc' hc ha hd' hd (hsame.symm.trans (script_cons ha))).symm
        | false =>
          rw [script_cons ha, script_cons hb] at hsame
          obtain ⟨rfl, hmore⟩ := List.cons.inj hsame
          exact ih on hclear.2 hclear'.2 hd hd' hmore

end Peripheral.Share
