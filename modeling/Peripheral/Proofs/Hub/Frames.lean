import Peripheral.Proofs.Frame.Cutting
import Peripheral.Proofs.Hub.Writing

/-!
# Frames in a client's stream

What a client finds when it cuts the bytes that it has read into frames. A task writes only frames that it has reason to send
(`Owed`), and a client's pipe holds whole frames, one after the other, and at its end perhaps a part of one (`Aligned`), as long
as no task gives up a frame in the middle of it (`sendsWhole`). So each frame that is cut out is either one that was pushed to
the client or the response to its request (`frame_cases`), and a response is the one that the execution of the request gave
(`Received.response`).
-/

namespace Peripheral

namespace Hub

variable {δ : Type}

/-! ## What tasks have to send -/

/-- A frame was given to the hub to be sent to a peer. -/
def Pushed (es : List Event) (p : Peer) (f : Frame) : Prop :=
  (∃ order, p ∈ order ∧ .broadcast order f ∈ es) ∨ .sendTo p f ∈ es

/-- A task has reason to send a frame to a peer: the frame was given to the hub for the peer, or it is the response to the
request of the peer, whose exchange the task conducts. -/
def Owes (es : List Event) (log : List Mark) (p : Peer) (f : Frame) (a : Task) : Prop :=
  Pushed es p f ∨ (a.serves p = true ∧ ∃ request, (request, some f) ∈ executions p log)

/-- The same, by the number of the task. -/
def Owed (h : Hub δ) (es : List Event) (log : List Mark) (p : Peer) (t : Nat) (f : Frame) : Prop :=
  Pushed es p f ∨ (h.Conducts t p ∧ ∃ request, (request, some f) ∈ executions p log)

end Hub

/-- The peer that a job sends a frame to, and the frame. -/
def Job.cargo? : Job → Option (Peer × Frame)
  | reach p f => some (p, f)
  | send p f => some (p, f)
  | dismiss _ => none
  | shut _ => none

/-- A courier sends frames of one kind only, and what it is writing is the rest of one of them. -/
structure Courier.Carries (ok : Peer → Frame → Prop) (c : Courier) : Prop where
  jobs : ∀ j ∈ c.jobs, ∀ p f, j.cargo? = some (p, f) → ok p f
  work : ∀ p rest, c.work.rest? p = some rest → rest ≠ [] ∧ ∃ f sent, ok p f ∧ sent ++ rest = f.encode

namespace Courier

variable {ok ok' : Peer → Frame → Prop}

theorem Carries.mono {c : Courier} (hc : c.Carries ok) (himp : ∀ p f, ok p f → ok' p f) : c.Carries ok' where
  jobs j hj p f hcargo := himp p f (hc.jobs j hj p f hcargo)
  work p rest hrest := by
    obtain ⟨hne, f, sent, hok, hsum⟩ := hc.work p rest hrest
    exact ⟨hne, f, sent, himp p f hok, hsum⟩

/-- A courier starts with frames of the kind that its jobs are of. -/
theorem carries_start {jobs : List Job} (hjobs : ∀ j ∈ jobs, ∀ p f, j.cargo? = some (p, f) → ok p f) :
    (start jobs).Carries ok where
  jobs := hjobs
  work _ _ h := nomatch h

end Courier

namespace Hub

variable {δ : Type} {ok : Peer → Frame → Prop}

/-- A courier sends frames of one kind only, also after a step. -/
theorem CourierStep.carries {h h' : Hub δ} {t : Nat} {c c' : Courier} (hs : CourierStep h t c c' h')
    (hc : c.Carries ok) : c'.Carries ok := by
  have tail : ∀ {j : Job} {jobs : List Job}, c.jobs = j :: jobs → ∀ j' ∈ jobs, ∀ p f, j'.cargo? = some (p, f) → ok p f := by
    intro j jobs hj j' hj'
    exact hc.jobs j' (hj ▸ List.mem_cons_of_mem _ hj')
  have dismissal : ∀ {q : Peer}, ∀ j ∈ Job.dismiss q :: c.jobs, ∀ p f, j.cargo? = some (p, f) → ok p f := by
    intro q j hj p f hcargo
    rcases List.mem_cons.1 hj with rfl | hj
    · nomatch hcargo
    · exact hc.jobs j hj p f hcargo
  cases hs with
  | @find q f jobs hw hj hq =>
    refine ⟨?_, hc.work⟩
    intro j' hj' p g hcargo
    rcases List.mem_cons.1 hj' with rfl | hj'
    · exact hc.jobs (.reach q f) (hj ▸ List.mem_cons_self) p g hcargo
    · exact tail hj j' hj' p g hcargo
  | miss hw hj | skip hw hj => exact ⟨tail hj, hc.work⟩
  | @queue q f jobs hw hj =>
    refine ⟨tail hj, ?_⟩
    intro p rest hrest
    obtain ⟨d, heq⟩ := Work.rest?_eq_some_iff.1 hrest
    cases heq
    exact ⟨f.encode_ne_nil, f, [], hc.jobs (.send q f) (hj ▸ List.mem_cons_self) q f rfl, rfl⟩
  | dismiss hw hj | approach hw hj => exact ⟨tail hj, fun _ _ h => nomatch h⟩
  | @put q rest d n l hw hl hhead hb h0 hn =>
    refine ⟨hc.jobs, ?_⟩
    intro p more hmore
    obtain ⟨d', heq⟩ := Work.rest?_eq_some_iff.1 hmore
    cases heq
    obtain ⟨_, f, sent, hok, hsum⟩ := hc.work q rest (by rw [hw, Work.rest?_self])
    refine ⟨?_, f, sent ++ rest.take n, hok, by rw [List.append_assoc, List.take_append_drop, hsum]⟩
    exact List.ne_nil_of_length_pos (by rw [List.length_drop]; omega)
  | complete | shut | lapse => exact ⟨hc.jobs, fun _ _ h => nomatch h⟩
  | snap | late => exact ⟨dismissal, fun _ _ h => nomatch h⟩

theorem Pushed.mono {es : List Event} {p : Peer} {f : Frame} (hp : Pushed es p f) (more : List Event) :
    Pushed (es ++ more) p f := by
  rcases hp with ⟨order, hmem, he⟩ | he
  · exact Or.inl ⟨order, hmem, List.mem_append_left _ he⟩
  · exact Or.inr (List.mem_append_left _ he)

theorem mem_executions_append {p : Peer} {f : Frame} {log : List Mark} (more : List Mark)
    (h : ∃ request, (request, some f) ∈ executions p log) : ∃ request, (request, some f) ∈ executions p (log ++ more) := by
  obtain ⟨request, hmem⟩ := h
  exact ⟨request, executions_append p log more ▸ List.mem_append_left _ hmem⟩

theorem Owes.mono {es : List Event} {log : List Mark} {p : Peer} {f : Frame} {a : Task} (ho : Owes es log p f a)
    (later : List Event) (more : List Mark) : Owes (es ++ later) (log ++ more) p f a := by
  rcases ho with hp | ⟨hserves, hx⟩
  · exact Or.inl (hp.mono later)
  · exact Or.inr ⟨hserves, mem_executions_append more hx⟩

/-- The courier that acts for a task sends only what the task has reason to send. -/
def Faithful (es : List Event) (log : List Mark) (a : Task) : Prop :=
  ∀ c : Courier, a.courier? = some c → c.Carries fun p f => Owes es log p f a

/-- A task that sends only what it has reason to goes on doing so while it does nothing. -/
theorem Faithful.mono {es : List Event} {log : List Mark} {a : Task} (ha : Faithful es log a) (later : List Event)
    (more : List Mark) : Faithful (es ++ later) (log ++ more) a :=
  fun c hc => (ha c hc).mono fun _ _ ho => ho.mono later more

/-- Every task sends only what it has reason to send. -/
def AllFaithful (h : Hub δ) (es : List Event) (log : List Mark) : Prop := ∀ a ∈ h.tasks, Faithful es log a

/-- An errand begins with frames that were given to the hub. -/
theorem faithful_errand {es : List Event} {log : List Mark} {jobs : List Job}
    (hjobs : ∀ j ∈ jobs, ∀ p f, j.cargo? = some (p, f) → Pushed es p f) : Faithful es log (.errand (.start jobs)) := by
  intro c hc
  cases hc
  exact Courier.carries_start fun j hj p f hcargo => Or.inl (hjobs j hj p f hcargo)

/-- A new task that is faithful leaves all tasks so. -/
theorem AllFaithful.spawn {h : Hub δ} {es : List Event} {log : List Mark} {a : Task} (hh : h.AllFaithful es log)
    (ha : Faithful es log a) : (h.spawn a).AllFaithful es log := by
  intro b hb
  rcases List.mem_append.1 hb with hb | hb
  · exact hh b hb
  · rw [List.mem_singleton.1 hb]
    exact ha

/-- A task that remains faithful leaves all tasks so. -/
theorem AllFaithful.set {h : Hub δ} {es : List Event} {log : List Mark} {b : Task} (hh : h.AllFaithful es log)
    (hb : Faithful es log b) (t : Nat) : (h.setTask t b).AllFaithful es log := by
  intro a ha
  rcases List.mem_or_eq_of_mem_set ha with ha | rfl
  · exact hh a ha
  · exact hb

variable [Service δ]

/-- What a task does leaves it faithful. -/
theorem TaskStep.faithful {h h' : Hub δ} {es : List Event} {log : List Mark} {t : Nat} {a b : Task}
    (hs : TaskStep h t a b h') (ha : Faithful es log a) (later : List Event) :
    Faithful (es ++ later) (log ++ h.shown t a b h') b := by
  have ha' := ha.mono later (h.shown t a b h')
  have dismissing : ∀ {q : Peer} {ok : Peer → Frame → Prop}, (Courier.start [.dismiss q]).Carries ok := by
    intro q ok
    refine Courier.carries_start ?_
    intro j hj p f hcargo
    rw [List.mem_singleton.1 hj] at hcargo
    cases hcargo
  cases hs with
  | read =>
    intro c hc
    rw [courier?_received] at hc
    cases hc
  | curtail | lose | heed =>
    intro c hc
    cases hc
    exact dismissing
  | @execute p run request response device hx =>
    intro c hc
    cases hc
    refine Courier.carries_start ?_
    intro j hj q f hcargo
    rcases List.mem_cons.1 hj with rfl | hj
    · cases hcargo
      refine Or.inr ⟨beq_self_eq_true _, request, ?_⟩
      rw [executions_append]
      refine List.mem_append_right _ ?_
      simp only [executions, shown, List.filterMap_cons, List.filterMap_nil, Mark.execution?, if_true, hx,
        List.mem_singleton]
    · rw [List.mem_singleton.1 hj] at hcargo
      cases hcargo
  | crash | finish =>
    intro c hc
    cases hc
  | convey hs =>
    intro c hc
    cases hc
    exact hs.carries (ha' _ rfl)
  | errand hs =>
    intro c hc
    cases hc
    exact hs.carries (ha' _ rfl)

/-- Every task sends only what it has reason to send, whatever happens next. -/
theorem allFaithful_after? {h h' : Hub δ} {es : List Event} {log : List Mark} {e : Event} (hh : h.AllFaithful es log)
    (he : h.after? e = some h') : h'.AllFaithful (es ++ [e]) (log ++ h.marks e h') := by
  have still : ∀ more, ∀ a ∈ h.tasks, Faithful (es ++ [e]) (log ++ more) a := fun more a ha => (hh a ha).mono [e] more
  have last : e ∈ es ++ [e] := List.mem_append_right _ (List.mem_singleton.2 rfl)
  cases eventStep_of_after? he with
  | @move m a b h₁ ha hs =>
    rw [marks_move ha hs]
    refine AllFaithful.set ?_ (hs.faithful (hh a (List.mem_of_getElem? ha)) _) _
    intro c hc
    rw [hs.tasks_eq] at hc
    exact still _ c hc
  | serve =>
    refine AllFaithful.spawn (still []) ?_
    intro c hc
    nomatch hc
  | @broadcast order f =>
    refine AllFaithful.spawn (still []) (faithful_errand ?_)
    intro j hj p g hcargo
    obtain ⟨q, hq, rfl⟩ := List.mem_map.1 hj
    cases hcargo
    exact Or.inl ⟨order, hq, last⟩
  | sendTo =>
    refine AllFaithful.spawn (still []) (faithful_errand ?_)
    intro j hj p g hcargo
    rw [List.mem_singleton.1 hj] at hcargo
    cases hcargo
    exact Or.inr last
  | close =>
    refine AllFaithful.spawn (still []) (faithful_errand ?_)
    intro j hj p g hcargo
    rw [List.mem_singleton.1 hj] at hcargo
    nomatch hcargo
  | closeAll =>
    refine AllFaithful.spawn (still []) (faithful_errand ?_)
    intro j hj p g hcargo
    obtain ⟨q, _, rfl⟩ := List.mem_map.1 hj
    nomatch hcargo
  | @cutShort t =>
    show (h.cutShort t).AllFaithful (es ++ [.cutShort t]) (log ++ [])
    unfold cutShort
    split
    · refine AllFaithful.set (still []) ?_ t
      intro c hc
      cases hc
      exact ⟨fun _ hj => absurd hj List.not_mem_nil, fun _ _ hrest => nomatch hrest⟩
    · exact still []
  | attach | halt | client | wait | tick => exact still _

/-- In every run each task sends only what it has reason to send. -/
theorem allFaithful_run {d : δ} {patience : Nat} {es : List Event} {h : Hub δ} {log : List Mark}
    (hr : (start d patience).run? es = some (h, log)) : h.AllFaithful es log :=
  run?_moments (P := fun es h log => h.AllFaithful es log) (fun _ ha => nomatch ha)
    (fun _ _ _ _ _ _ hh he => allFaithful_after? hh he) hr

/-- What a task is writing is the rest of a frame that it has reason to send. -/
theorem owed_of_rest? {d : δ} {patience : Nat} {es : List Event} {h : Hub δ} {log : List Mark} {p : Peer} {t : Nat}
    {rest : Bytes} (hr : (start d patience).run? es = some (h, log)) (hrest : h.rest? p t = some rest) :
    rest ≠ [] ∧ ∃ f sent, h.Owed es log p t f ∧ sent ++ rest = f.encode := by
  obtain ⟨a, ha, hrest⟩ := Option.bind_eq_some_iff.1 hrest
  obtain ⟨c, hc, hrest⟩ := Option.bind_eq_some_iff.1 hrest
  obtain ⟨hne, f, sent, howes, hsum⟩ := (allFaithful_run hr a (List.mem_of_getElem? ha) c hc).work p rest hrest
  refine ⟨hne, f, sent, ?_, hsum⟩
  rcases howes with hp | ⟨hserves, hx⟩
  · exact Or.inl hp
  · exact Or.inr ⟨⟨a, ha, hserves⟩, hx⟩

/-- A task that has reason to send a frame has it also after the next event. -/
theorem Owed.after {h h' : Hub δ} {es : List Event} {log : List Mark} {e : Event} {p : Peer} {t : Nat} {f : Frame}
    (ho : h.Owed es log p t f) (he : h.after? e = some h') : h'.Owed (es ++ [e]) (log ++ h.marks e h') p t f := by
  rcases ho with hp | ⟨hc, hx⟩
  · exact Or.inl (hp.mono [e])
  · exact Or.inr ⟨(conducts_after? he t p).2 (Or.inl hc), mem_executions_append _ hx⟩

/-! ## Whole frames -/

omit [Service δ] in
/-- The bytes written to a peer are whole frames, one after the other, and perhaps a part of one. -/
inductive Aligned (ok : Nat → Frame → Prop) (h : Hub δ) (p : Peer) (bytes : List (Nat × UInt8)) : Prop
  /-- Nobody is in the middle of a frame. -/
  | even {frames : List (Nat × Frame)} : (∀ x ∈ frames, ok x.1 x.2) → bytes = sheet frames →
      (∀ s r, h.rest? p s = some r → r.length = Frame.size) → Aligned ok h p bytes
  /-- The first in line is in the middle of a frame, and nobody else is. -/
  | midway {frames : List (Nat × Frame)} {t : Nat} {f : Frame} {sent rest : Bytes} {l : Link} :
      (∀ x ∈ frames, ok x.1 x.2) → ok t f → bytes = sheet frames ++ sent.map (t, ·) → h.rest? p t = some rest →
      sent ++ rest = f.encode → sent ≠ [] → rest ≠ [] → h.links[p]? = some l → l.line.head? = some t →
      (∀ s r, s ≠ t → h.rest? p s = some r → r.length = Frame.size) → Aligned ok h p bytes
  /-- A frame was left in the middle, and nothing can be written any more. -/
  | stuck {frames : List (Nat × Frame)} {torn : List (Nat × UInt8)} {l : Link} : (∀ x ∈ frames, ok x.1 x.2) →
      bytes = sheet frames ++ torn → torn.length < Frame.size → h.links[p]? = some l → l.outbound.isBroken = true →
      Aligned ok h p bytes

/-- What was sent of a frame of which there is a rest is less than a frame. -/
theorem length_lt_of_append {sent rest : Bytes} {f : Frame} (hsum : sent ++ rest = f.encode) (hne : rest ≠ []) :
    sent.length < Frame.size := by
  have hlen := congrArg List.length hsum
  rw [List.length_append, Frame.length_encode] at hlen
  have hpos := List.length_pos_iff.2 hne
  omega

section

variable {ok : Nat → Frame → Prop} {h h' : Hub δ} {e : Event} {p : Peer} {bytes : List (Nat × UInt8)}

omit [Service δ] in
/-- The bytes written to a peer are whole frames and less than one frame besides. -/
theorem Aligned.split (ha : Aligned ok h p bytes) :
    ∃ frames torn, (∀ x ∈ frames, ok x.1 x.2) ∧ bytes = sheet frames ++ torn ∧ torn.length < Frame.size := by
  cases ha with
  | @even frames hok hbytes => exact ⟨frames, [], hok, by rw [hbytes, List.append_nil], by decide⟩
  | @midway frames t f sent rest l hok _ hbytes _ hsum _ hne =>
    exact ⟨frames, _, hok, hbytes, by rw [List.length_map]; exact length_lt_of_append hsum hne⟩
  | @stuck frames torn l hok hbytes hlt => exact ⟨frames, torn, hok, hbytes, hlt⟩

omit [Service δ] in
/-- Bytes that are aligned for frames of a kind are so for a more general one. -/
theorem Aligned.mono {ok' : Nat → Frame → Prop} (ha : Aligned ok h p bytes) (himp : ∀ t f, ok t f → ok' t f) :
    Aligned ok' h p bytes := by
  cases ha with
  | even hok hbytes hrest => exact .even (fun x hx => himp _ _ (hok x hx)) hbytes hrest
  | midway hok hf hbytes hrest hsum hsent hne hl hhead hothers =>
    exact .midway (fun x hx => himp _ _ (hok x hx)) (himp _ _ hf) hbytes hrest hsum hsent hne hl hhead hothers
  | stuck hok hbytes hlt hl hb => exact .stuck (fun x hx => himp _ _ (hok x hx)) hbytes hlt hl hb

omit [Service δ] in
/-- One frame more is whole. -/
theorem ok_concat {frames : List (Nat × Frame)} {t : Nat} {f : Frame} (hok : ∀ x ∈ frames, ok x.1 x.2) (hf : ok t f) :
    ∀ x ∈ frames ++ [(t, f)], ok x.1 x.2 := by
  intro x hx
  rcases List.mem_append.1 hx with hx | hx
  · exact hok x hx
  · rw [List.mem_singleton.1 hx]
    exact hf

/-- While nobody is in the middle of a frame, somebody can begin one, and write it whole at once. -/
theorem aligned_of_even {frames : List (Nat × Frame)} {t : Nat} {more : Bytes} (he : h.after? e = some h')
    (hok : ∀ x ∈ frames, ok x.1 x.2) (hfull : ∀ s r, h.rest? p s = some r → r.length = Frame.size)
    (hrest : ∀ t rest, h.rest? p t = some rest → rest ≠ [] ∧ ∃ f sent, ok t f ∧ sent ++ rest = f.encode)
    (hstroke : h.Stroke p t (h.rest? p t) (h'.rest? p t) more) (hothers : ∀ s, s ≠ t → h'.rest? p s = h.rest? p s) :
    Aligned ok h' p (sheet frames ++ more.map (t, ·)) := by
  -- The others are where they were; only task t is looked at.
  have hfull' : (∀ r, h'.rest? p t = some r → r.length = Frame.size) →
      ∀ s r, h'.rest? p s = some r → r.length = Frame.size := by
    intro hown s r hr
    by_cases hs : s = t
    · subst hs
      exact hown r hr
    · rw [hothers s hs] at hr
      exact hfull s r hr
  have begun : ∀ {rest}, h.rest? p t = some rest → ∃ f, ok t f ∧ rest = f.encode := by
    intro rest hb
    obtain ⟨_, f, sent, hf, hsum⟩ := hrest t rest hb
    have hlen := congrArg List.length hsum
    rw [List.length_append, hfull t rest hb, Frame.length_encode] at hlen
    obtain rfl : sent = [] := List.eq_nil_of_length_eq_zero (by omega)
    exact ⟨f, hf, hsum⟩
  generalize hbefore : h.rest? p t = before at hstroke
  generalize hafter : h'.rest? p t = after at hstroke
  cases hstroke with
  | none =>
    refine .even hok (List.append_nil _) (hfull' fun r hr => hfull t r ?_)
    rw [hbefore, ← hafter, hr]
  | @start f =>
    refine .even hok (List.append_nil _) (hfull' fun r hr => ?_)
    rw [hafter] at hr
    rw [← Option.some.inj hr, Frame.length_encode]
  | @some rest n l hl hhead hb h0 hn =>
    obtain ⟨f, hf, hrest⟩ := begun hbefore
    obtain ⟨l', hl', hhead'⟩ := first_after? he hl hhead (by rw [hbefore]; nofun) (by rw [hafter]; nofun)
    refine .midway hok hf rfl hafter (by rw [List.take_append_drop, hrest]) ?_ ?_ hl' hhead' ?_
    · exact List.ne_nil_of_length_pos (by rw [List.length_take]; omega)
    · exact List.ne_nil_of_length_pos (by rw [List.length_drop]; omega)
    · intro s r hs hr
      rw [hothers s hs] at hr
      exact hfull s r hr
  | last =>
    obtain ⟨f, hf, rfl⟩ := begun hbefore
    refine .even (ok_concat hok hf) (sheet_concat frames t f).symm (hfull' fun r hr => ?_)
    rw [hafter] at hr
    nomatch hr
  | stop =>
    refine .even hok (List.append_nil _) (hfull' fun r hr => ?_)
    rw [hafter] at hr
    nomatch hr

/-- While somebody else is in the middle of a frame, a task writes nothing. -/
theorem aligned_of_midway_other {frames : List (Nat × Frame)} {s t : Nat} {f : Frame} {sent rest more : Bytes} {l : Link}
    (he : h.after? e = some h') (hok : ∀ x ∈ frames, ok x.1 x.2) (hf : ok s f) (hs : h.rest? p s = some rest)
    (hsum : sent ++ rest = f.encode) (hsent : sent ≠ []) (hne : rest ≠ []) (hl : h.links[p]? = some l)
    (hhead : l.line.head? = some s) (hfull : ∀ s' r, s' ≠ s → h.rest? p s' = some r → r.length = Frame.size)
    (hstroke : h.Stroke p t (h.rest? p t) (h'.rest? p t) more) (hothers : ∀ s', s' ≠ t → h'.rest? p s' = h.rest? p s')
    (hst : s ≠ t) : Aligned ok h' p (sheet frames ++ sent.map (s, ·) ++ more.map (t, ·)) := by
  have hs' : h'.rest? p s = some rest := (hothers s hst).trans hs
  obtain ⟨l', hl', hhead'⟩ := first_after? he hl hhead (by rw [hs]; nofun) (by rw [hs']; nofun)
  have waiting : more = [] → (∀ r, h'.rest? p t = some r → r.length = Frame.size) →
      Aligned ok h' p (sheet frames ++ sent.map (s, ·) ++ more.map (t, ·)) := by
    rintro rfl hown
    rw [List.map_nil, List.append_nil]
    refine .midway hok hf rfl hs' hsum hsent hne hl' hhead' ?_
    intro s' r hne' hr
    by_cases hs't : s' = t
    · subst hs't
      exact hown r hr
    · rw [hothers s' hs't] at hr
      exact hfull s' r hne' hr
  generalize hbefore : h.rest? p t = before at hstroke
  generalize hafter : h'.rest? p t = after at hstroke
  cases hstroke with
  | none =>
    refine waiting rfl fun r hr => hfull t r hst.symm ?_
    rw [hbefore, ← hafter, hr]
  | @start g =>
    refine waiting rfl fun r hr => ?_
    rw [hafter] at hr
    rw [← Option.some.inj hr, Frame.length_encode]
  | stop =>
    refine waiting rfl fun r hr => ?_
    rw [hafter] at hr
    nomatch hr
  | some hl₁ hhead₁ | last hl₁ hhead₁ =>
    rw [hl] at hl₁
    cases hl₁
    exact absurd (Option.some.inj (hhead.symm.trans hhead₁)) hst

/-- Who is in the middle of a frame goes on with it to its end, or nothing can be written any more. -/
theorem aligned_of_midway_self {frames : List (Nat × Frame)} {t : Nat} {f : Frame} {sent rest more : Bytes} {l : Link}
    (he : h.after? e = some h') (hok : ∀ x ∈ frames, ok x.1 x.2) (hf : ok t f) (ht : h.rest? p t = some rest)
    (hsum : sent ++ rest = f.encode) (hsent : sent ≠ []) (hne : rest ≠ []) (hl : h.links[p]? = some l)
    (hhead : l.line.head? = some t) (hfull : ∀ s r, s ≠ t → h.rest? p s = some r → r.length = Frame.size)
    (hstroke : h.Stroke p t (h.rest? p t) (h'.rest? p t) more) (hothers : ∀ s, s ≠ t → h'.rest? p s = h.rest? p s)
    (hwhole : h.breaksOff h' p = false) (hstream : more = [] → h'.stream p = h.stream p) :
    Aligned ok h' p (sheet frames ++ sent.map (t, ·) ++ more.map (t, ·)) := by
  have hfull' : ∀ s r, s ≠ t → h'.rest? p s = some r → r.length = Frame.size := by
    intro s r hs hr
    rw [hothers s hs] at hr
    exact hfull s r hs hr
  have hlen := congrArg List.length hsum
  rw [List.length_append, Frame.length_encode] at hlen
  have hpos := List.length_pos_iff.2 hsent
  rw [ht] at hstroke
  generalize hafter : h'.rest? p t = after at hstroke
  cases hstroke with
  | none =>
    obtain ⟨l', hl', hhead'⟩ := first_after? he hl hhead (by rw [ht]; nofun) (by rw [hafter]; nofun)
    rw [List.map_nil, List.append_nil]
    exact .midway hok hf rfl hafter hsum hsent hne hl' hhead' hfull'
  | @some _ n _ hl₁ hhead₁ hb h0 hn =>
    obtain ⟨l', hl', hhead'⟩ := first_after? he hl hhead (by rw [ht]; nofun) (by rw [hafter]; nofun)
    rw [List.append_assoc, ← List.map_append]
    refine .midway hok hf rfl hafter ?_ ?_ ?_ hl' hhead' hfull'
    · rw [List.append_assoc, List.take_append_drop, hsum]
    · exact fun hnil => hsent (List.append_eq_nil_iff.1 hnil).1
    · exact List.ne_nil_of_length_pos (by rw [List.length_drop]; omega)
  | last =>
    rw [List.append_assoc, ← List.map_append, hsum, ← sheet_concat]
    refine .even (ok_concat hok hf) rfl fun s r hr => ?_
    by_cases hs : s = t
    · rw [hs, hafter] at hr
      nomatch hr
    · exact hfull' s r hs hr
  | stop =>
    rw [List.map_nil, List.append_nil]
    by_cases hb : l.outbound.isBroken = true
    · obtain ⟨l', hl', hb'⟩ := broken_after? he hl hb
      exact .stuck hok rfl (by rw [List.length_map]; exact length_lt_of_append hsum hne) hl' hb'
    · have hoff := breaksOff_of ht (by omega) hafter hl (by simpa using hb) (hstream rfl)
      rw [hwhole] at hoff
      nomatch hoff

/-- Nothing is written into a broken pipe. -/
theorem aligned_of_stuck {frames : List (Nat × Frame)} {torn : List (Nat × UInt8)} {t : Nat} {more : Bytes} {l : Link}
    (he : h.after? e = some h') (hok : ∀ x ∈ frames, ok x.1 x.2) (hlt : torn.length < Frame.size)
    (hl : h.links[p]? = some l) (hb : l.outbound.isBroken = true)
    (hstroke : h.Stroke p t (h.rest? p t) (h'.rest? p t) more) :
    Aligned ok h' p (sheet frames ++ torn ++ more.map (t, ·)) := by
  obtain ⟨l', hl', hb'⟩ := broken_after? he hl hb
  have closed : ∀ {l₁ : Link}, h.links[p]? = some l₁ → l₁.outbound.isBroken = false → False := by
    intro l₁ hl₁ hb₁
    rw [hl] at hl₁
    cases hl₁
    rw [hb] at hb₁
    nomatch hb₁
  generalize h.rest? p t = before at hstroke
  generalize h'.rest? p t = after at hstroke
  cases hstroke with
  | none | start | stop => exact .stuck hok (List.append_nil _) hlt hl' hb'
  | some hl₁ _ hb₁ => exact (closed hl₁ hb₁).elim
  | last hl₁ _ hb₁ => exact (closed hl₁ hb₁).elim

/-- The bytes written to a peer stay aligned, unless a frame is broken off. -/
theorem Aligned.after (ha : Aligned ok h p bytes) (he : h.after? e = some h')
    (hrest : ∀ t rest, h.rest? p t = some rest → rest ≠ [] ∧ ∃ f sent, ok t f ∧ sent ++ rest = f.encode)
    (hwhole : h.breaksOff h' p = false) : Aligned ok h' p (bytes ++ signed p (h.marks e h')) := by
  obtain ⟨t, more, hstroke, hsigned, hothers⟩ := stroke_after? p he
  rw [hsigned]
  cases ha with
  | even hok hbytes hfull =>
    rw [hbytes]
    exact aligned_of_even he hok hfull hrest hstroke hothers
  | @midway frames s f sent rest l hok hf hbytes hs hsum hsent hne hl hhead hfull =>
    rw [hbytes]
    by_cases hst : s = t
    · subst hst
      refine aligned_of_midway_self he hok hf hs hsum hsent hne hl hhead hfull hstroke hothers hwhole ?_
      rintro rfl
      rw [stream_after? he, ← map_snd_signed, hsigned]
      exact List.append_nil _
    · exact aligned_of_midway_other he hok hf hs hsum hsent hne hl hhead hfull hstroke hothers hst
  | stuck hok hbytes hlt hl hb =>
    rw [hbytes]
    exact aligned_of_stuck he hok hlt hl hb hstroke

end

/-- Whether no task gives up a frame to a peer in the middle of it, in a run, as long as the peer could still be written to. -/
def sendsWhole (h : Hub δ) (p : Peer) : List Event → Bool
  | [] => true
  | e :: rest =>
    match h.after? e with
    | none => true
    | some h' => !h.breaksOff h' p && h'.sendsWhole p rest

/-- If no frame is given up in a run, none is in the beginning of it. -/
theorem sendsWhole_append {h : Hub δ} {p : Peer} {es more : List Event} (hw : h.sendsWhole p (es ++ more) = true) :
    h.sendsWhole p es = true := by
  induction es generalizing h with
  | nil => rfl
  | cons e rest ih =>
    rw [List.cons_append, sendsWhole] at hw
    rw [sendsWhole]
    cases he : h.after? e with
    | none => rfl
    | some h' =>
      simp only [he, Bool.and_eq_true] at hw ⊢
      exact ⟨hw.1, ih hw.2⟩

/-- If no frame is given up in a run, none is in its last event. -/
theorem breaksOff_of_sendsWhole {h h' h'' : Hub δ} {p : Peer} {es : List Event} {e : Event} {log : List Mark}
    (hw : h.sendsWhole p (es ++ [e]) = true) (hr : h.run? es = some (h', log)) (he : h'.after? e = some h'') :
    h'.breaksOff h'' p = false := by
  induction es generalizing h log with
  | nil =>
    obtain ⟨rfl, -⟩ := Prod.mk.inj (Option.some.inj hr)
    rw [List.nil_append, sendsWhole, he] at hw
    simpa [sendsWhole] using hw
  | cons e' rest ih =>
    obtain ⟨h₁, he', hr⟩ := Option.bind_eq_some_iff.1 hr
    obtain ⟨⟨h₂, log₂⟩, hr₂, heq⟩ := Option.bind_eq_some_iff.1 hr
    obtain ⟨rfl, rfl⟩ := Prod.mk.inj (Option.some.inj heq)
    rw [List.cons_append, sendsWhole, he'] at hw
    exact ih (Bool.and_eq_true_iff.1 hw).2 hr₂

/-- As long as no frame to a peer is given up, the bytes written to it are whole frames that there was reason to send. -/
theorem aligned_run {d : δ} {patience : Nat} {es : List Event} {h : Hub δ} {log : List Mark} {p : Peer}
    (hr : (start d patience).run? es = some (h, log)) (hw : (start d patience).sendsWhole p es = true) :
    Aligned (h.Owed es log p) h p (signed p log) := by
  refine run?_moments (P := fun es h log => (start d patience).sendsWhole p es = true →
    Aligned (h.Owed es log p) h p (signed p log)) ?_ ?_ hr hw
  · intro _
    exact .even (List.forall_mem_nil _) rfl fun _ _ hr => nomatch hr
  · intro es h e h' log hr ih he hw
    have ha := (ih (sendsWhole_append hw)).after he (fun _ _ => owed_of_rest? hr) (breaksOff_of_sendsWhole hw hr he)
    rw [signed_append]
    exact ha.mono fun _ _ ho => ho.after he

/-! ## What a client finds -/

omit [Service δ] in
/-- How many bytes a client has read. -/
def position (h : Hub δ) (p : Peer) : Nat := (h.links[p]?.map (·.outbound.position)).getD 0

omit [Service δ] in
/-- The bytes that a client has read. -/
def collected (h : Hub δ) (p : Peer) : Bytes := (h.stream p).take (h.position p)

omit [Service δ] in
/-- The bytes of one task among those that a client has read. -/
def collectedFrom (h : Hub δ) (log : List Mark) (t : Nat) (p : Peer) : Bytes :=
  ofTask t ((signed p log).take (h.position p))

omit [Service δ] in
/-- A client has received a response: what it has read of the bytes of its handler makes a frame. -/
def Received (h : Hub δ) (log : List Mark) (p : Peer) (r : Frame) : Prop :=
  ∃ t, h.Conducts t p ∧ Frame.decode (h.collectedFrom log t p) = .ok r

omit [Service δ] in
/-- A client has read from a task the beginning of what the task has written to it. -/
theorem collectedFrom_isPrefix (h : Hub δ) (log : List Mark) (t : Nat) (p : Peer) :
    h.collectedFrom log t p <+: written t p log := by
  rw [← ofTask_signed]
  exact (List.take_prefix _ _).filterMap _

omit [Service δ] in
/-- A handler that has written anything has executed the request, and has written the beginning of the response. -/
theorem response_of_progress {members : List Peer} {t : Nat} {p : Peer} {l : Link} {done : List (Frame × Option Frame)}
    {given : List ExchangeError} {sent : Bytes} {stage : Handler.Stage}
    (hp : Progress members t p l done given sent stage) (hs : sent ≠ []) :
    ∃ request response, l.Requests request ∧ done = [(request, some response)] ∧ sent <+: response.encode := by
  cases hp with
  | receiving _ _ _ _ _ h => exact absurd h hs
  | holding _ _ _ h => exact absurd h hs
  | refusing _ _ _ _ _ h => exact absurd h hs
  | refused _ _ _ h => exact absurd h hs
  | crashed _ _ _ h => exact absurd h hs
  | answered hreq hdone _ hsent => exact ⟨_, _, hreq, hdone, hsent ▸ List.prefix_refl _⟩
  | undelivered hreq hdone _ _ _ hsum => exact ⟨_, _, hreq, hdone, hsum ▸ List.prefix_append _ _⟩
  | responding hreq hdone _ hdel =>
    cases hdel with
    | seeking _ _ _ h => exact absurd h hs
    | ready _ _ _ h => exact absurd h hs
    | sending _ _ _ _ hsum => exact ⟨_, _, hreq, hdone, hsum ▸ List.prefix_append _ _⟩
    | complete _ _ hsent => exact ⟨_, _, hreq, hdone, hsent ▸ List.prefix_refl _⟩
    | failed _ _ _ _ hsum => exact ⟨_, _, hreq, hdone, hsum ▸ List.prefix_append _ _⟩

section

variable {d : δ} {patience : Nat} {es : List Event} {h : Hub δ} {log : List Mark} {p : Peer}

/-- A handler that has written to its peer has executed the request, and has written the beginning of the response. -/
theorem response_of_conducts {t : Nat} (hr : (start d patience).run? es = some (h, log)) (hc : h.Conducts t p)
    (hs : written t p log ≠ []) :
    ∃ l request response, h.links[p]? = some l ∧ l.Requests request ∧ executions p log = [(request, some response)] ∧
      written t p log <+: response.encode := by
  obtain ⟨a, ha, hserves⟩ := hc
  cases a with
  | errand c => nomatch hserves
  | handler x =>
    obtain rfl : x.peer = p := eq_of_beq hserves
    obtain ⟨l, hl, hprog, _⟩ := exchanging_run hr t x ha
    obtain ⟨request, response, hreq, hdone, hprefix⟩ := response_of_progress hprog hs
    exact ⟨l, request, response, hl, hreq, hdone, hprefix⟩

/-- A response that was received is the one that the execution of the client's request gave. -/
theorem Received.response {r : Frame} (hr : (start d patience).run? es = some (h, log)) (hrec : h.Received log p r) :
    ∃ l request response, h.links[p]? = some l ∧ l.Requests request ∧ executions p log = [(request, some response)] ∧
      Frame.decode response.encode = .ok r := by
  obtain ⟨t, hc, hdec⟩ := hrec
  have hlen := (Frame.decode_eq_ok_iff.1 hdec).1
  have hpre := h.collectedFrom_isPrefix log t p
  have hne : written t p log ≠ [] := by
    intro hnil
    rw [hnil, List.prefix_nil] at hpre
    rw [hpre] at hlen
    exact absurd hlen (by decide)
  obtain ⟨l, request, response, hl, hreq, hdone, hprefix⟩ := response_of_conducts hr hc hne
  have hall : h.collectedFrom log t p = response.encode :=
    (hpre.trans hprefix).eq_of_length_le (by rw [Frame.length_encode]; exact hlen)
  exact ⟨l, request, response, hl, hreq, hdone, hall ▸ hdec⟩

/-- What was read of the bytes of a handler is no longer than a frame. -/
theorem eq_collectedFrom {t : Nat} {g : Frame} (hr : (start d patience).run? es = some (h, log)) (hc : h.Conducts t p)
    (hin : g.encode <:+: h.collectedFrom log t p) : g.encode = h.collectedFrom log t p := by
  have hpre := h.collectedFrom_isPrefix log t p
  have hne : written t p log ≠ [] := by
    intro hnil
    have hnone := hin.trans hpre.isInfix
    rw [hnil, List.infix_nil] at hnone
    exact g.encode_ne_nil hnone
  obtain ⟨_, _, response, _, _, _, hprefix⟩ := response_of_conducts hr hc hne
  have hle := (hpre.trans hprefix).length_le
  rw [Frame.length_encode] at hle
  exact hin.eq_of_length_le (by rw [Frame.length_encode]; exact hle)

omit [Service δ] in
/-- Whole frames take as many bytes as they are times the size of a frame. -/
theorem length_sheet_take {frames : List (Nat × Frame)} {j t : Nat} {g : Frame} (hj : frames[j]? = some (t, g)) :
    (sheet (frames.take j)).length = 276 * j := by
  rw [length_sheet, List.length_take, Nat.min_eq_left (Nat.le_of_lt (List.getElem?_eq_some_iff.1 hj).1)]
  rfl

/-- A frame on the sheet that was read is the one with the same number in what was read. -/
theorem frameAt_collected {frames : List (Nat × Frame)} {torn : List (Nat × UInt8)} {j t : Nat} {g : Frame}
    (hr : (start d patience).run? es = some (h, log)) (hbytes : signed p log = sheet frames ++ torn)
    (hj : frames[j]? = some (t, g)) (hread : 276 * j + 276 ≤ h.position p) :
    FrameBuffer.frameAt (h.collected p) j = Frame.decode g.encode ∧ g.encode <:+: h.collectedFrom log t p := by
  have hbefore := length_sheet_take hj
  have hprefix : sheet (frames.take j) ++ g.encode.map (t, ·) <+: (signed p log).take (h.position p) := by
    refine List.prefix_take_iff.2 ⟨?_, ?_⟩
    · rw [hbytes, sheet_split hj, ← List.append_assoc, List.append_assoc]
      exact List.prefix_append _ _
    · rw [List.length_append, hbefore, List.length_map, Frame.length_encode]
      exact hread
  obtain ⟨behind, hall⟩ := hprefix
  constructor
  · have hcollected : h.collected p = ((signed p log).take (h.position p)).map Prod.snd := by
      rw [collected, stream_eq_writtenTo hr, ← map_snd_signed, List.map_take]
    have hmap : (g.encode.map (t, ·)).map Prod.snd = g.encode := by
      rw [List.map_map]
      exact List.map_id _
    rw [FrameBuffer.frameAt, hcollected, ← hall, List.append_assoc, List.map_append, List.map_append, hmap,
      List.drop_left' (by rw [List.length_map, hbefore]), List.take_left' (show g.encode.length = 276 from Frame.length_encode g)]
  · rw [collectedFrom, ← hall, ofTask_append, ofTask_append, ofTask_map_self]
    exact ⟨_, _, rfl⟩

/-- Every frame that a client finds in what it has read was pushed to it or is the response to its request. -/
theorem frame_cases {j : Nat} {f : Frame} (hr : (start d patience).run? es = some (h, log))
    (hw : (start d patience).sendsWhole p es = true) (hf : FrameBuffer.frameAt (h.collected p) j = .ok f) :
    (∃ g, Pushed es p g ∧ Frame.decode g.encode = .ok f) ∨ h.Received log p f := by
  obtain ⟨frames, torn, hok, hbytes, hlt⟩ := (aligned_run hr hw).split
  have hlong := (Frame.decode_eq_ok_iff.1 hf).1
  rw [List.length_take, List.length_drop, collected, stream_eq_writtenTo hr, ← map_snd_signed, List.length_take,
    List.length_map] at hlong
  have hlength := congrArg List.length hbytes
  rw [List.length_append, length_sheet] at hlength
  simp only [Frame.size] at hlong hlength hlt
  have hj : j < frames.length := by omega
  obtain ⟨⟨t, g⟩, hget⟩ : ∃ x, frames[j]? = some x := ⟨_, List.getElem?_eq_getElem hj⟩
  obtain ⟨hsame, hin⟩ := frameAt_collected hr hbytes hget (by omega)
  have hdec : Frame.decode g.encode = .ok f := hsame.symm.trans hf
  rcases hok _ (List.mem_of_getElem? hget) with hpushed | ⟨hc, _⟩
  · exact Or.inl ⟨g, hpushed, hdec⟩
  · exact Or.inr ⟨t, hc, eq_collectedFrom hr hc hin ▸ hdec⟩

omit [Service δ] in
/-- A task that wrote none of the frames wrote none of their bytes. -/
theorem ofTask_sheet_of_forall {frames : List (Nat × Frame)} {t : Nat} (hne : ∀ x ∈ frames, x.1 ≠ t) :
    ofTask t (sheet frames) = [] := by
  refine List.filterMap_eq_nil_iff.2 ?_
  intro b hb
  obtain ⟨x, hx, hb⟩ := List.mem_flatMap.1 hb
  obtain ⟨_, _, rfl⟩ := List.mem_map.1 hb
  exact if_neg (hne x hx)

/-- A response that was received is among the frames that the client finds. -/
theorem Received.found {r : Frame} (hr : (start d patience).run? es = some (h, log))
    (hw : (start d patience).sendsWhole p es = true) (hrec : h.Received log p r) :
    ∃ j, FrameBuffer.frameAt (h.collected p) j = .ok r := by
  obtain ⟨t, hc, hdec⟩ := hrec
  obtain ⟨frames, torn, -, hbytes, hlt⟩ := (aligned_run hr hw).split
  have hlen := (Frame.decode_eq_ok_iff.1 hdec).1
  have hpre := h.collectedFrom_isPrefix log t p
  -- All that the handler wrote was read, so that what is left of the pipe is by others.
  have hwritten : h.collectedFrom log t p = written t p log := by
    have hle := Nat.le_trans hlen hpre.length_le
    have hne : written t p log ≠ [] := List.ne_nil_of_length_pos (Nat.lt_of_lt_of_le (by decide) hle)
    obtain ⟨_, _, response, _, _, _, hprefix⟩ := response_of_conducts hr hc hne
    have hle' := hprefix.length_le
    rw [Frame.length_encode] at hle'
    exact hpre.eq_of_length_le (Nat.le_trans hle' hlen)
  have hleft : ofTask t ((signed p log).drop (h.position p)) = [] := by
    have hsum := ofTask_append t ((signed p log).take (h.position p)) ((signed p log).drop (h.position p))
    rw [List.take_append_drop, ofTask_signed, ← hwritten] at hsum
    exact List.self_eq_append_right.1 hsum
  have hmine : ∃ g, (t, g) ∈ frames := by
    refine Classical.byContradiction fun hnone => ?_
    have hsheet : ofTask t (sheet frames) = [] :=
      ofTask_sheet_of_forall fun x hx heq => hnone ⟨x.2, heq ▸ hx⟩
    have hshort : (ofTask t torn).length ≤ torn.length := List.length_filterMap_le _ _
    rw [hwritten, ← ofTask_signed, hbytes, ofTask_append, hsheet, List.nil_append] at hlen
    omega
  obtain ⟨g, hg⟩ := hmine
  obtain ⟨j, hj⟩ := List.getElem?_of_mem hg
  have hread : 276 * j + 276 ≤ h.position p := by
    rw [hbytes, sheet_split hj, List.append_assoc, List.append_assoc, List.drop_append, List.drop_append, length_sheet_take hj,
      ofTask_append, ofTask_append, ← List.map_drop, ofTask_map_self] at hleft
    have hnil := (List.append_eq_nil_iff.1 (List.append_eq_nil_iff.1 hleft).2).1
    have hall := List.drop_eq_nil_iff.1 hnil
    rw [Frame.length_encode, Frame.size] at hall
    omega
  obtain ⟨hsame, hin⟩ := frameAt_collected hr hbytes hj hread
  exact ⟨j, hsame.trans (eq_collectedFrom hr hc hin ▸ hdec)⟩

end

end Hub

end Peripheral
