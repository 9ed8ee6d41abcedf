import Mathlib.Data.List.Basic
import Peripheral.Proofs.Hub.Round

/-!
# Rounds in succession

What rounds write to a peer that follow each other, whatever else goes on in the hub: the whole frames of some rounds in a row,
and then perhaps a part of one frame (`Stretch`). Between two rounds every peer either has got the last rounds since it came,
or is out (`Ready`); while a round goes on, its peers have a part of its frame behind that (`Pushing`); and when rounds are
broken off, what was written stays as it is (`Resting`), until all peers are out and rounds can begin anew.
-/

namespace Peripheral.Hub

variable {δ : Type} {h h' : Hub δ} {log : List Mark} {rounds : List Round} {r : Round} {p : Peer}

/-- What is known of the bytes that rounds have written to a peer: whole frames of some of the rounds that follow each other,
and then perhaps a part of one frame. -/
def Stretch (rounds : List Round) (bytes : List (Nat × UInt8)) : Prop :=
  ∃ stretch t part, stretch <:+: rounds ∧ bytes = sheet (stretch.map fun r => (r.task, r.frame)) ++ part.map (t, ·) ∧
    (part = [] ∨ ∃ r ∈ rounds, r.task = t ∧ r.frame.Part part)

/-- A stretch of rounds is one also when there are more rounds. -/
theorem Stretch.mono {rounds more : List Round} {bytes : List (Nat × UInt8)} (hs : Stretch rounds bytes) :
    Stretch (rounds ++ more) bytes := by
  obtain ⟨stretch, t, part, hin, hbytes, hpart⟩ := hs
  refine ⟨stretch, t, part, hin.trans (List.prefix_append _ _).isInfix, hbytes, hpart.imp_right ?_⟩
  rintro ⟨r, hr, ht, hp⟩
  exact ⟨r, List.mem_append_left _ hr, ht, hp⟩

/-- Whole frames of rounds that follow each other are a stretch. -/
theorem Stretch.of_whole {rounds stretch : List Round} (hin : stretch <:+: rounds) :
    Stretch rounds (sheet (stretch.map fun r => (r.task, r.frame))) :=
  ⟨stretch, 0, [], hin, (List.append_nil _).symm, Or.inl rfl⟩

/-- A peer that can get the next round right behind the last one it got, or that is out. -/
def Steady (h : Hub δ) (rounds : List Round) (p : Peer) (bytes : List (Nat × UInt8)) : Prop :=
  (∃ stretch, stretch <:+ rounds ∧ bytes = sheet (stretch.map fun r => (r.task, r.frame))) ∨
    (p ∉ h.members ∧ p < h.links.length ∧ Stretch rounds bytes)

/-- What a steady peer has got is a stretch. -/
theorem Steady.stretch {rounds : List Round} {p : Peer} {bytes : List (Nat × UInt8)} (hs : h.Steady rounds p bytes) :
    Stretch rounds bytes := by
  rcases hs with ⟨stretch, hin, rfl⟩ | ⟨-, -, hs⟩
  · exact .of_whole hin.isInfix
  · exact hs

/-- A steady peer stays steady, whatever happens. -/
theorem Steady.after [Service δ] {e : Event} {rounds : List Round} {p : Peer} {bytes : List (Nat × UInt8)}
    (hs : h.Steady rounds p bytes) (he : h.after? e = some h') : h'.Steady rounds p bytes := by
  rcases hs with hs | ⟨hp, hlt, hs⟩
  · exact Or.inl hs
  · exact Or.inr ⟨gone_after? hp hlt he, Nat.lt_of_lt_of_le hlt (links_length_after? he), hs⟩

/-- One more round behind the last ones. -/
theorem suffix_concat {rounds stretch : List Round} {r : Round} (hs : stretch <:+ rounds) :
    ∃ longer, longer <:+ rounds ++ [r] ∧
      sheet (stretch.map (fun r => (r.task, r.frame)) ++ [(r.task, r.frame)]) =
        sheet (longer.map fun r => (r.task, r.frame)) := by
  obtain ⟨front, rfl⟩ := hs
  exact ⟨stretch ++ [r], ⟨front, (List.append_assoc _ _ _).symm⟩, by rw [List.map_append]; rfl⟩

/-- The bytes that rounds wrote to a peer. -/
def roundBytes (rounds : List Round) (p : Peer) (log : List Mark) : List (Nat × UInt8) :=
  writtenBy (rounds.map (·.task)) p log

/-- Rounds are over, and none may be begun. -/
structure Resting (h : Hub δ) (log : List Mark) (rounds : List Round) : Prop where
  rests : ∀ r ∈ rounds, h.Rests r.task
  stretch : ∀ p, Stretch rounds (roundBytes rounds p log)

/-- Rounds are over, and another one may be begun. -/
structure Ready (h : Hub δ) (log : List Mark) (rounds : List Round) : Prop where
  rests : ∀ r ∈ rounds, h.Rests r.task
  steady : ∀ p, h.Steady rounds p (roundBytes rounds p log)

/-- A round goes on after those that are over. -/
structure Pushing (h : Hub δ) (log : List Mark) (rounds : List Round) (r : Round) : Prop where
  rests : ∀ r ∈ rounds, h.Rests r.task
  underway : h.Underway log r
  /-- To a peer of the round some of its frame is written right behind the last rounds. -/
  addressed : ∀ p ∈ r.order, ∃ stretch, stretch <:+ rounds ∧
    roundBytes (rounds ++ [r]) p log =
      sheet (stretch.map fun r => (r.task, r.frame)) ++ (written r.task p log).map (r.task, ·)
  others : ∀ p, p ∉ r.order → h.Steady (rounds ++ [r]) p (roundBytes (rounds ++ [r]) p log)

section

variable [Service δ] {e : Event}

/-- Rounds that are over write nothing any more. -/
theorem roundBytes_after? (p : Peer) (hrest : ∀ r ∈ rounds, h.Rests r.task) (he : h.after? e = some h') :
    roundBytes rounds p (log ++ h.marks e h') = roundBytes rounds p log := by
  refine writtenBy_after? p (fun s hs => ?_) he
  obtain ⟨r, hr, rfl⟩ := List.mem_map.1 hs
  exact hrest r hr

/-- Rounds that are over remain over. -/
theorem Resting.after (hr : h.Resting log rounds) (he : h.after? e = some h') :
    h'.Resting (log ++ h.marks e h') rounds where
  rests r hin := ((hr.rests r hin).after log he).1
  stretch p := (roundBytes_after? p hr.rests he).symm ▸ hr.stretch p

/-- While no round goes on, another one may be begun, whatever happens. -/
theorem Ready.after (hr : h.Ready log rounds) (he : h.after? e = some h') : h'.Ready (log ++ h.marks e h') rounds where
  rests r hin := ((hr.rests r hin).after log he).1
  steady p := (roundBytes_after? p hr.rests he).symm ▸ (hr.steady p).after he

/-- A round goes on, whatever happens, unless it is broken off. -/
theorem Pushing.after (hp : h.Pushing log rounds r) (hn : h.members.Nodup) (he : h.after? e = some h')
    (hcut : e ≠ .cutShort r.task) : h'.Pushing (log ++ h.marks e h') rounds r := by
  -- The rounds before have nothing left to write, so all that is new comes from the round that goes on.
  have hbytes : ∀ p, roundBytes (rounds ++ [r]) p (log ++ h.marks e h') =
      roundBytes (rounds ++ [r]) p log ++ (written r.task p (h.marks e h')).map (r.task, ·) := by
    intro p
    rw [roundBytes, roundBytes, writtenBy_append, writtenBy_marks (t := r.task) p ?_ he, if_pos]
    · exact List.mem_map_of_mem (List.mem_append_right _ (List.mem_singleton.2 rfl))
    · intro s hs hne
      obtain ⟨r', hr', rfl⟩ := List.mem_map.1 hs
      rcases List.mem_append.1 hr' with hr' | hr'
      · exact hp.rests r' hr'
      · rw [List.mem_singleton.1 hr'] at hne
        exact absurd rfl hne
  have hu := hp.underway.after hn he hcut
  refine ⟨fun r' hin => ((hp.rests r' hin).after log he).1, hu, ?_, ?_⟩
  · intro p hin
    obtain ⟨stretch, hsuffix, heq⟩ := hp.addressed p hin
    exact ⟨stretch, hsuffix, by rw [hbytes, heq, written_append, List.map_append, List.append_assoc]⟩
  · intro p hout
    have hnone : written r.task p (log ++ h.marks e h') = [] := by
      obtain ⟨c, -, hg⟩ := hu.going
      exact hg.silent hout
    rw [written_append, List.append_eq_nil_iff] at hnone
    rw [hbytes, hnone.2, List.map_nil, List.append_nil]
    exact (hp.others p hout).after he

/-- Nothing was written to a peer that has not come yet. -/
theorem roundBytes_of_unlinked {d : δ} {patience : Nat} {es : List Event} (hr : (start d patience).run? es = some (h, log))
    (hp : h.links.length ≤ p) : roundBytes rounds p log = [] := by
  have hnone : signed p log = [] := by
    have hstream : writtenTo p log = [] := by
      rw [← stream_eq_writtenTo hr, stream, List.getElem?_eq_none hp]
      rfl
    rw [← map_snd_signed] at hstream
    exact List.map_eq_nil_iff.1 hstream
  rw [roundBytes, writtenBy, hnone, List.filter_nil]

omit [Service δ] in
/-- A task that has written nothing adds nothing. -/
theorem roundBytes_concat (hnone : written r.task p log = []) :
    roundBytes (rounds ++ [r]) p log = roundBytes rounds p log := by
  rw [← ofTask_signed] at hnone
  refine List.filter_congr fun b hb => ?_
  have hne : b.1 ≠ r.task := fun heq => by
    have hno := List.filterMap_eq_nil_iff.1 hnone b hb
    rw [if_pos heq] at hno
    nomatch hno
  rw [List.map_append, List.contains_eq_mem, List.contains_eq_mem]
  simp [hne]

/-- A round may be begun with all connected peers. -/
theorem Ready.begin {d : δ} {patience : Nat} {es : List Event} {order : List Peer} {f : Frame}
    (hr : (start d patience).run? es = some (h, log)) (hready : h.Ready log rounds) (hperm : order.Perm h.members) :
    (h.broadcastIn order f).Pushing log rounds ⟨h.tasks.length, f, order⟩ := by
  have ho := orderly_run hr
  have hfresh : ∀ p, written h.tasks.length p log = [] := fun p =>
    written_of_forall fun bytes hm => Nat.lt_irrefl _ (ho.writer_lt _ _ _ hm)
  have hbytes : ∀ p, roundBytes (rounds ++ [⟨h.tasks.length, f, order⟩]) p log = roundBytes rounds p log := fun p =>
    roundBytes_concat (hfresh p)
  refine ⟨?_, ⟨hperm.nodup_iff.2 ho.members_nodup, fun q hq => ho.member_lt q (hperm.subset hq), ?_⟩, ?_, ?_⟩
  · intro r hin
    obtain ⟨c, hc, hdone⟩ := hready.rests r hin
    exact ⟨c, (List.getElem?_append_left (List.getElem?_eq_some_iff.1 hc).1).trans hc, hdone⟩
  · exact ⟨_, List.getElem?_concat_length, .between (List.nil_append order).symm nofun
      (fun q _ => hfresh q) (Or.inl rfl) rfl⟩
  · intro p hp
    rcases hready.steady p with ⟨stretch, hsuffix, heq⟩ | ⟨hout, -⟩
    · exact ⟨stretch, hsuffix, by rw [hbytes, heq, hfresh, List.map_nil, List.append_nil]⟩
    · exact absurd (hperm.subset hp) hout
  · intro p hp
    rw [hbytes]
    by_cases hlt : p < h.links.length
    · exact Or.inr ⟨fun hin => hp (hperm.mem_iff.2 hin), hlt, (hready.steady p).stretch.mono⟩
    · rw [roundBytes_of_unlinked hr (Nat.le_of_not_lt hlt)]
      exact Or.inl ⟨[], List.nil_suffix, rfl⟩

/-- When a round is cut short, rounds are over. -/
theorem Pushing.cut (hp : h.Pushing log rounds r) : (h.cutShort r.task).Resting log (rounds ++ [r]) := by
  obtain ⟨c, hc, hg⟩ := hp.underway.going
  refine ⟨?_, ?_⟩
  · intro r' hin
    rcases List.mem_append.1 hin with hin | hin
    · exact ((hp.rests r' hin).after (e := .cutShort r.task) log rfl).1
    · rw [List.mem_singleton.1 hin]
      have hset := tasks_setTask_self (h := { h with links := h.links.map fun (l : Link) => l.leave r.task })
        (.errand c.stop) hc
      refine ⟨c.stop, ?_, rfl, rfl⟩
      unfold cutShort
      simp only [hc]
      exact hset
  · intro p
    by_cases hin : p ∈ r.order
    · obtain ⟨stretch, hsuffix, heq⟩ := hp.addressed p hin
      rw [heq]
      rcases hg.part p with ⟨-, hwhole⟩ | hpart
      · obtain ⟨longer, hlonger, hsheet⟩ := suffix_concat (r := r) hsuffix
        rw [hwhole, ← sheet_concat, hsheet]
        exact .of_whole hlonger.isInfix
      · exact ⟨stretch, r.task, _, (hsuffix.isInfix).trans (List.prefix_append _ _).isInfix, rfl,
          Or.inr ⟨r, List.mem_append_right _ (List.mem_singleton.2 rfl), rfl, hpart⟩⟩
    · exact (hp.others p hin).stretch

end

/-- A round whose courier has nothing left to do is done with all its peers. -/
theorem Underway.settled (hu : h.Underway log r) (hr : h.Rests r.task) : ∀ q ∈ r.order, h.Settled log r q := by
  obtain ⟨c, hc, hg⟩ := hu.going
  obtain ⟨c', hc', hw, hj⟩ := hr
  rw [hc] at hc'
  cases hc'
  exact hg.ended hw hj

/-- A round whose errand is finished has nothing left to do. -/
theorem Underway.rests (hu : h.Underway log r) (hfin : h.isFinished r.task = true) : h.Rests r.task := by
  obtain ⟨c, hc, -⟩ := hu.going
  rw [isFinished, hc] at hfin
  obtain ⟨hw, hj⟩ := Bool.and_eq_true_iff.1 hfin
  exact ⟨c, hc, eq_of_beq hw, List.isEmpty_iff.1 hj⟩

/-- When a round is over, another one may be begun. -/
theorem Pushing.finish (hp : h.Pushing log rounds r) (hr : h.Rests r.task) : h.Ready log (rounds ++ [r]) := by
  refine ⟨?_, ?_⟩
  · intro r' hin
    rcases List.mem_append.1 hin with hin | hin
    · exact hp.rests r' hin
    · rw [List.mem_singleton.1 hin]
      exact hr
  · intro p
    by_cases hin : p ∈ r.order
    · obtain ⟨stretch, hsuffix, heq⟩ := hp.addressed p hin
      rw [heq]
      rcases hp.underway.settled hr p hin with hwhole | ⟨hout, hpart⟩
      · rw [hwhole, ← sheet_concat]
        exact Or.inl (suffix_concat hsuffix)
      · exact Or.inr ⟨hout, hp.underway.peer_lt p hin, stretch, r.task, _,
          (hsuffix.isInfix).trans (List.prefix_append _ _).isInfix, rfl,
          Or.inr ⟨r, List.mem_append_right _ (List.mem_singleton.2 rfl), rfl, hpart⟩⟩
    · exact hp.others p hin

/-- Whoever may begin another round need not. -/
theorem Ready.rest (hr : h.Ready log rounds) : h.Resting log rounds := ⟨hr.rests, fun p => (hr.steady p).stretch⟩

/-- When all peers are out, rounds may begin anew. -/
theorem Resting.open [Service δ] {d : δ} {patience : Nat} {es : List Event} (hr : (start d patience).run? es = some (h, log))
    (hrest : h.Resting log rounds) (hm : h.members = []) : h.Ready log rounds := by
  refine ⟨hrest.rests, fun p => ?_⟩
  -- A peer that is out does not come back under its number, and one that is yet to come has got nothing so far.
  by_cases hp : p < h.links.length
  · exact Or.inr ⟨by rw [hm]; exact List.not_mem_nil, hp, hrest.stretch p⟩
  · refine Or.inl ⟨[], List.nil_suffix, ?_⟩
    rw [roundBytes_of_unlinked hr (Nat.le_of_not_lt hp)]
    rfl

/-- While a round goes on, what rounds wrote to a peer is what they would have written if it were cut short. -/
theorem Pushing.stretch [Service δ] (hp : h.Pushing log rounds r) (p : Peer) :
    Stretch (rounds ++ [r]) (roundBytes (rounds ++ [r]) p log) :=
  hp.cut.stretch p

/-! ## Runs -/

/-- A round that is over, and that is done with all its peers. -/
def Done (h : Hub δ) (log : List Mark) (r : Round) : Prop :=
  h.Rests r.task ∧ ∀ p ∈ r.order, p < h.links.length ∧ h.Settled log r p

section

variable [Service δ] {es : List Event} {more : List Mark}

/-- A round that is done with all its peers remains so throughout a run. -/
theorem Done.run (hd : h.Done log r) (hr : h.run? es = some (h', more)) : h'.Done (log ++ more) r := by
  refine run?_preserves (P := fun h log => h.Done log r) ?_ hd hr
  rintro h e h' log ⟨hrests, hpeers⟩ he
  refine ⟨(hrests.after log he).1, fun p hp => ?_⟩
  obtain ⟨hlt, hs⟩ := hpeers p hp
  exact ⟨Nat.lt_of_lt_of_le hlt (links_length_after? he), hs.after hrests hlt he⟩

/-- Another round may be begun, throughout a run in which none is. -/
theorem Ready.run (hr : h.Ready log rounds) (hrun : h.run? es = some (h', more)) : h'.Ready (log ++ more) rounds :=
  run?_preserves (P := fun h log => h.Ready log rounds) (fun _ _ _ _ hr he => hr.after he) hr hrun

/-- Rounds that are over remain over throughout a run. -/
theorem Resting.run (hr : h.Resting log rounds) (hrun : h.run? es = some (h', more)) :
    h'.Resting (log ++ more) rounds :=
  run?_preserves (P := fun h log => h.Resting log rounds) (fun _ _ _ _ hr he => hr.after he) hr hrun

/-- A round goes on throughout a run, unless it is broken off. -/
theorem Pushing.run (hp : h.Pushing log rounds r) (ho : h.Orderly log) (hcut : .cutShort r.task ∉ es)
    (hrun : h.run? es = some (h', more)) : h'.Pushing (log ++ more) rounds r := by
  induction es generalizing h log more with
  | nil =>
    cases hrun
    rw [List.append_nil]
    exact hp
  | cons e rest ih =>
    obtain ⟨h₁, he, hrun⟩ := Option.bind_eq_some_iff.1 hrun
    obtain ⟨⟨h₂, log₂⟩, hrun₂, heq⟩ := Option.bind_eq_some_iff.1 hrun
    cases heq
    rw [List.mem_cons, not_or] at hcut
    rw [← List.append_assoc]
    exact ih (hp.after ho.members_nodup he (Ne.symm hcut.1)) (orderly_after? ho he) hcut.2 hrun₂

/-- What happens to a hub takes no task away, and tells no run to go on. -/
structure Grows (h h' : Hub δ) : Prop where
  tasks_le : h.tasks.length ≤ h'.tasks.length
  halted_le : h.halted ≤ h'.halted

/-- No event takes a task away, or tells a run to go on that was told to end. -/
theorem grows_after? {e : Event} (he : h.after? e = some h') : h.Grows h' := by
  refine ⟨tasks_length_after? he, ?_⟩
  cases eventStep_of_after? he with
  | move _ hs => exact Nat.le_of_eq hs.halted_eq.symm
  | halt => exact Nat.le_max_left _ _
  | cutShort =>
    unfold cutShort
    split <;> exact Nat.le_refl _
  | attach | serve | broadcast | closeAll | sendTo | close | client | wait | tick => exact Nat.le_refl _

/-- No run of the hub takes a task away, or tells a run to go on that was told to end. -/
theorem grows_run (hrun : h.run? es = some (h', more)) : h.Grows h' :=
  @run?_preserves δ _ (fun h' _ => h.Grows h') h h' es [] more
    (fun _ _ _ _ hg he =>
      ⟨Nat.le_trans hg.tasks_le (grows_after? he).tasks_le, Nat.le_trans hg.halted_le (grows_after? he).halted_le⟩)
    ⟨Nat.le_refl _, Nat.le_refl _⟩ hrun

/-- Where nobody is connected nobody comes in by himself. -/
theorem members_nil_run (hm : h.members = []) (hshut : ∀ link, .attach link ∉ es) (hrun : h.run? es = some (h', more)) :
    h'.members = [] := by
  induction es generalizing h more with
  | nil =>
    cases hrun
    exact hm
  | cons e rest ih =>
    obtain ⟨h₁, he, hrun⟩ := Option.bind_eq_some_iff.1 hrun
    obtain ⟨⟨h₂, log₂⟩, hrun₂, heq⟩ := Option.bind_eq_some_iff.1 hrun
    cases heq
    refine ih ?_ (fun link hin => hshut link (List.mem_cons_of_mem _ hin)) hrun₂
    cases eventStep_of_after? he with
    | move _ hs => exact List.sublist_nil.1 (hm ▸ hs.members_sublist)
    | @attach link => exact absurd List.mem_cons_self (hshut link)
    | closeAll => rfl
    | cutShort => rw [(members_cutShort h _).1, hm]
    | serve | broadcast | sendTo | close | halt | client | wait | tick => exact hm

end

end Peripheral.Hub
