import Peripheral.Hub.Move

/-!
# What a move does

A move of a hub is a step of one task. This module says once what a courier can do in a step (`CourierStep`) and what a task
can (`TaskStep`), guards included, and that a move is nothing else (`taskStep_of_move?`). What a step leaves alone is derived
from that: the other tasks, the peers let in, and of every link all but the place of its reader, the line of its writers and
the bytes put in by the first in line (`Link.Touched`). So is that couriers come to an end: every step leaves a courier less
to do (`CourierStep.effort_lt`), and one that has not finished can take a step, at the latest when its time is over (`goes_on`).
-/

namespace Peripheral

namespace Link

/-- Bytes are put into the pipe to the client. -/
def put (l : Link) (bytes : Bytes) : Link := { l with outbound := l.outbound.append bytes }

/-- The pipe to the client is closed. -/
def shut (l : Link) : Link := { l with outbound := l.outbound.finish }

/-- The reader of what the client wrote goes on by so many bytes. -/
def advance (l : Link) (n : Nat) : Link := { l with inbound := { l.inbound with position := l.inbound.position + n } }

/-- What a courier of task `t` may do to a link: only the first in line does anything to the pipe. -/
inductive Touched (t : Nat) (l : Link) : Link → Prop
  | same : Touched t l l
  | join : Touched t l (l.join t)
  | leave : Touched t l (l.leave t)
  | put {bytes : Bytes} : l.line.head? = some t → Touched t l (l.put bytes)
  | complete {bytes : Bytes} : l.line.head? = some t → Touched t l ((l.put bytes).leave t)
  | shut : l.line.head? = some t → Touched t l (l.shut.leave t)

namespace Touched

variable {t : Nat} {l l' : Link}

/-- Using a link reads nothing from it. -/
theorem inbound_eq (h : Touched t l l') : l'.inbound = l.inbound := by
  cases h <;> rfl

/-- Using a link takes nothing back of what was written. -/
theorem stream_isPrefix (h : Touched t l l') : l.outbound.stream <+: l'.outbound.stream := by
  cases h with
  | put _ => exact List.prefix_append _ _
  | complete _ => exact List.prefix_append _ _
  | same | join | leave | shut _ => exact List.prefix_refl _

/-- Who is first in line stays so while others come and go. -/
theorem head_erase {line : List Nat} {s : Nat} (hs : line.head? = some s) (hne : s ≠ t) :
    (line.erase t).head? = some s := by
  obtain ⟨rest, rfl⟩ := List.head?_eq_some_iff.1 hs
  rw [List.erase_cons_tail (by simpa using hne)]
  rfl

/-- Whoever else is first in line stays first. -/
theorem head_eq {s : Nat} (h : Touched t l l') (hs : l.line.head? = some s) (hne : s ≠ t) :
    l'.line.head? = some s := by
  cases h with
  | same => exact hs
  | join =>
    obtain ⟨rest, hl⟩ := List.head?_eq_some_iff.1 hs
    rw [Link.join, hl]
    rfl
  | leave => exact head_erase hs hne
  | put ht => exact absurd (Option.some.inj (hs.symm.trans ht)) hne
  | complete ht => exact absurd (Option.some.inj (hs.symm.trans ht)) hne
  | shut ht => exact absurd (Option.some.inj (hs.symm.trans ht)) hne

/-- Nobody writes but the first in line. -/
theorem stream_eq {s : Nat} (h : Touched t l l') (hs : l.line.head? = some s) (hne : s ≠ t) :
    l'.outbound.stream = l.outbound.stream := by
  cases h with
  | same | join | leave | shut _ => rfl
  | put ht => exact absurd (Option.some.inj (hs.symm.trans ht)) hne
  | complete ht => exact absurd (Option.some.inj (hs.symm.trans ht)) hne

end Touched

end Link

namespace Hub

variable {δ : Type}

/-- What a courier of task `t` can do in a step, and the hub after it. -/
inductive CourierStep (h : Hub δ) (t : Nat) (c : Courier) : Courier → Hub δ → Prop
  /-- The peer to be reached is connected, and a handle on its writer is taken. -/
  | find {p : Peer} {f : Frame} {jobs : List Job} : c.work = .idle → c.jobs = .reach p f :: jobs → p ∈ h.members →
      CourierStep h t c { c with jobs := .send p f :: jobs } h
  /-- The peer to be reached is not connected any more. -/
  | miss {p : Peer} {f : Frame} {jobs : List Job} : c.work = .idle → c.jobs = .reach p f :: jobs → p ∉ h.members →
      CourierStep h t c { c with jobs, failure? := some (.peerGone p.number) } h
  /-- The task gets in line to send. -/
  | queue {p : Peer} {f : Frame} {jobs : List Job} : c.work = .idle → c.jobs = .send p f :: jobs →
      CourierStep h t c { c with work := .sending p f.encode (h.clock + h.patience), jobs } (h.updateLink p (·.join t))
  /-- A connected peer is taken out, and the task gets in line to close its writer. -/
  | dismiss {p : Peer} {jobs : List Job} : c.work = .idle → c.jobs = .dismiss p :: jobs → p ∈ h.members →
      CourierStep h t c { c with work := .shutting p (h.clock + h.patience), jobs }
        ({ h with members := h.members.erase p }.updateLink p (·.join t))
  /-- A peer that is not connected needs no dismissal. -/
  | skip {p : Peer} {jobs : List Job} : c.work = .idle → c.jobs = .dismiss p :: jobs → p ∉ h.members →
      CourierStep h t c { c with jobs } h
  /-- The task gets in line to close a writer. -/
  | approach {p : Peer} {jobs : List Job} : c.work = .idle → c.jobs = .shut p :: jobs →
      CourierStep h t c { c with work := .shutting p (h.clock + h.patience), jobs } (h.updateLink p (·.join t))
  /-- Some bytes of a frame are written, and some are left. -/
  | put {p : Peer} {rest : Bytes} {d n : Nat} {l : Link} : c.work = .sending p rest d → h.links[p]? = some l →
      l.line.head? = some t → l.outbound.isBroken = false → 0 < n → n < rest.length → n ≤ l.outbound.room →
      CourierStep h t c { c with work := .sending p (rest.drop n) d } (h.updateLink p (·.put (rest.take n)))
  /-- The last bytes of a frame are written. -/
  | complete {p : Peer} {rest : Bytes} {d : Nat} {l : Link} : c.work = .sending p rest d → h.links[p]? = some l →
      l.line.head? = some t → l.outbound.isBroken = false → 0 < rest.length → rest.length ≤ l.outbound.room →
      CourierStep h t c { c with work := .idle, reached := c.reached ++ [p] }
        (h.updateLink p fun l => (l.put rest).leave t)
  /-- Nobody is left to read the frame. -/
  | snap {p : Peer} {rest : Bytes} {d : Nat} {l : Link} : c.work = .sending p rest d → h.links[p]? = some l →
      l.line.head? = some t → l.outbound.isBroken = true →
      CourierStep h t c (c.giveUp p (.io .brokenPipe)) (h.updateLink p (·.leave t))
  /-- A writer is closed. -/
  | shut {p : Peer} {d : Nat} {l : Link} : c.work = .shutting p d → h.links[p]? = some l → l.line.head? = some t →
      CourierStep h t c { c with work := .idle } (h.updateLink p fun l => l.shut.leave t)
  /-- The time to send a frame is over. -/
  | late {p : Peer} {rest : Bytes} {d : Nat} : c.work = .sending p rest d → d ≤ h.clock →
      CourierStep h t c (c.giveUp p (.tooSlow h.patience)) (h.updateLink p (·.leave t))
  /-- The time to close a writer is over. -/
  | lapse {p : Peer} {d : Nat} : c.work = .shutting p d → d ≤ h.clock →
      CourierStep h t c { c with work := .idle } (h.updateLink p (·.leave t))

/-- What a task can do in a step, and the hub after it but for the task itself. -/
inductive TaskStep [Service δ] (h : Hub δ) (t : Nat) : Task → Task → Hub δ → Prop
  /-- A handler reads some more of its request. -/
  | read {p : Peer} {run n : Nat} {got : Bytes} {l : Link} : h.links[p]? = some l →
      (l.inbound.held.take n) ≠ [] → n ≤ Frame.size - got.length →
      TaskStep h t (.handler ⟨p, run, .receiving got⟩)
        (.handler ⟨p, run, .received (got ++ l.inbound.held.take n)⟩)
        (h.updateLink p (·.advance (l.inbound.held.take n).length))
  /-- The client has stopped writing before the request was complete. -/
  | curtail {p : Peer} {run : Nat} {got : Bytes} {l : Link} : h.links[p]? = some l → l.inbound.held = [] →
      l.inbound.ending = .ended →
      TaskStep h t (.handler ⟨p, run, .receiving got⟩) (.handler ⟨p, run, .refusing p (.framing ⟨got.length⟩)⟩) h
  /-- The connection has failed before the request was complete. -/
  | lose {p : Peer} {run : Nat} {got : Bytes} {l : Link} {f : IoFault} : h.links[p]? = some l → l.inbound.held = [] →
      l.inbound.ending = .failed f →
      TaskStep h t (.handler ⟨p, run, .receiving got⟩) (.handler ⟨p, run, .refusing p (.io f)⟩) h
  /-- The run of the handler was told to end. -/
  | heed {p : Peer} {run : Nat} {got : Bytes} : run < h.halted →
      TaskStep h t (.handler ⟨p, run, .receiving got⟩) (.handler ⟨p, run, .refusing p .stopping⟩) h
  /-- The request is executed. -/
  | execute {p : Peer} {run : Nat} {request response : Frame} {device : δ} :
      Service.execute h.device request = (some response, device) →
      TaskStep h t (.handler ⟨p, run, .holding request⟩) (.handler ⟨p, run, .responding p response⟩) { h with device }
  /-- The device breaks down while it executes the request. -/
  | crash {p : Peer} {run : Nat} {request : Frame} {device : δ} :
      Service.execute h.device request = (none, device) →
      TaskStep h t (.handler ⟨p, run, .holding request⟩) (.handler ⟨p, run, .ended .crashed⟩) { h with device }
  /-- The courier of a handler goes on. -/
  | convey {p : Peer} {run : Nat} {result : Except ExchangeError Frame} {c c' : Courier} {h' : Hub δ} :
      CourierStep h t c c' h' →
      TaskStep h t (.handler ⟨p, run, .parting result c⟩) (.handler ⟨p, run, .parting result c'⟩) h'
  /-- A handler has done everything. -/
  | finish {p : Peer} {run : Nat} {result : Except ExchangeError Frame} {c : Courier} : c.work = .idle → c.jobs = [] →
      TaskStep h t (.handler ⟨p, run, .parting result c⟩) (.handler ⟨p, run, .ended (.of result c.failure?)⟩) h
  /-- A courier on an errand goes on. -/
  | errand {c c' : Courier} {h' : Hub δ} : CourierStep h t c c' h' → TaskStep h t (.errand c) (.errand c') h'

/-- The task that moves. -/
def Move.task : Move → Nat
  | .advance t _ => t
  | .heed t => t
  | .expire t => t

/-! ## Links and tasks -/

/-- A change of the link of one peer changes this link only. -/
theorem links_updateLink (h : Hub δ) (p q : Peer) (f : Link → Link) :
    (h.updateLink p f).links[q]? = (h.links[q]?).map (if p = q then f else id) := by
  rw [updateLink, List.getElem?_modify]
  by_cases hpq : p = q
  · simp only [if_pos hpq]
    rfl
  · simp only [if_neg hpq]
    rfl

theorem links_updateLink_self {h : Hub δ} {p : Peer} {l : Link} (f : Link → Link) (hl : h.links[p]? = some l) :
    (h.updateLink p f).links[p]? = some (f l) := by
  rw [links_updateLink, hl, if_pos rfl]
  rfl

theorem links_updateLink_of_ne {h : Hub δ} {p q : Peer} (f : Link → Link) (hpq : p ≠ q) :
    (h.updateLink p f).links[q]? = h.links[q]? := by
  rw [links_updateLink, if_neg hpq, Option.map_id, id]

theorem tasks_setTask_self {h : Hub δ} {t : Nat} {a : Task} (b : Task) (ht : h.tasks[t]? = some a) :
    (h.setTask t b).tasks[t]? = some b := by
  obtain ⟨hlt, _⟩ := List.getElem?_eq_some_iff.1 ht
  exact List.getElem?_set_self hlt

theorem tasks_setTask_of_ne (h : Hub δ) {s t : Nat} (b : Task) (hne : t ≠ s) :
    (h.setTask t b).tasks[s]? = h.tasks[s]? :=
  List.getElem?_set_ne hne

/-! ## Moves are steps -/

/-- A link is changed by what is done to it, however that is said. -/
theorem updateLink_congr {h : Hub δ} {p : Peer} {l : Link} {f g : Link → Link} (hl : h.links[p]? = some l)
    (hfg : f l = g l) : h.updateLink p f = h.updateLink p g := by
  have hm : h.links.modify p f = h.links.modify p g := by
    apply List.ext_getElem?
    intro i
    rw [List.getElem?_modify, List.getElem?_modify]
    by_cases hi : p = i
    · subst hi
      simp only [hl, if_true]
      exact congrArg some hfg
    · simp only [if_neg hi]
  rw [updateLink, updateLink, hm]

/-- The beginning of a job is a step of a courier. -/
theorem courierStep_of_begin {h : Hub δ} {t : Nat} {c : Courier} {j : Job} {jobs : List Job} (hw : c.work = .idle)
    (hj : c.jobs = j :: jobs) : CourierStep h t c (h.begin t c jobs j).1 (h.begin t c jobs j).2 := by
  cases j with
  | reach p f =>
    by_cases hp : p ∈ h.members
    · simp only [begin, List.contains_iff_mem, if_pos hp]
      exact .find hw hj hp
    · simp only [begin, List.contains_iff_mem, if_neg hp]
      exact .miss hw hj hp
  | send p f => exact .queue hw hj
  | dismiss p =>
    by_cases hp : p ∈ h.members
    · simp only [begin, List.contains_iff_mem, if_pos hp]
      exact .dismiss hw hj hp
    · simp only [begin, List.contains_iff_mem, if_neg hp]
      exact .skip hw hj hp
  | shut p => exact .approach hw hj

/-- Who holds a link is first in line. -/
theorem head_of_isHeldBy {l : Link} {t : Nat} (h : l.isHeldBy t = true) : l.line.head? = some t := by
  simpa [Link.isHeldBy] using h

/-- Writing to a link is a step of a courier. -/
theorem courierStep_of_write {h h' : Hub δ} {t d grant : Nat} {c c' : Courier} {p : Peer} {rest : Bytes} {l : Link}
    (hw : c.work = .sending p rest d) (hl : h.links[p]? = some l)
    (hs : h.write t c p rest d grant l = some (c', h')) : CourierStep h t c c' h' := by
  unfold write at hs
  by_cases hheld : l.isHeldBy t = true
  · rw [hheld, Bool.not_true, if_neg Bool.false_ne_true] at hs
    have hhead := head_of_isHeldBy hheld
    by_cases hb : l.outbound.isBroken = true
    · rw [if_pos hb] at hs
      obtain ⟨rfl, rfl⟩ := Prod.mk.inj (Option.some.inj hs)
      exact .snap hw hl hhead hb
    · rw [if_neg hb] at hs
      dsimp only at hs
      have hb' : l.outbound.isBroken = false := by simpa using hb
      generalize hn : min (min grant l.outbound.room) rest.length = n at hs
      by_cases h0 : n = 0
      · rw [if_pos h0] at hs
        nomatch hs
      · rw [if_neg h0] at hs
        by_cases hall : n = rest.length
        · rw [if_pos hall] at hs
          obtain ⟨rfl, rfl⟩ := Prod.mk.inj (Option.some.inj hs)
          have htake : rest.take n = rest := by rw [hall, List.take_length]
          rw [htake]
          exact .complete hw hl hhead hb' (by omega) (by omega)
        · rw [if_neg hall] at hs
          obtain ⟨rfl, rfl⟩ := Prod.mk.inj (Option.some.inj hs)
          exact .put hw hl hhead hb' (by omega) (by omega) (by omega)
  · rw [Bool.not_eq_true] at hheld
    rw [hheld, Bool.not_false, if_pos rfl] at hs
    nomatch hs

/-- What a courier does when it goes on is one of the steps of couriers. -/
theorem courierStep_of_advanceCourier {h h' : Hub δ} {t grant : Nat} {c c' : Courier}
    (hs : h.advanceCourier t c grant = some (c', h')) : CourierStep h t c c' h' := by
  unfold advanceCourier at hs
  cases hw : c.work with
  | idle =>
    cases hj : c.jobs with
    | nil =>
      simp only [hw, hj] at hs
      nomatch hs
    | cons j jobs =>
      simp only [hw, hj] at hs
      have hstep := courierStep_of_begin (h := h) (t := t) hw hj
      rw [Option.some.inj hs] at hstep
      exact hstep
  | sending p rest d =>
    simp only [hw] at hs
    obtain ⟨l, hl, hs⟩ := Option.bind_eq_some_iff.1 hs
    exact courierStep_of_write hw hl hs
  | shutting p d =>
    simp only [hw] at hs
    cases hl : h.links[p]? with
    | none =>
      simp only [hl] at hs
      nomatch hs
    | some l =>
      simp only [hl] at hs
      by_cases hheld : l.isHeldBy t = true
      · rw [if_pos hheld] at hs
        obtain ⟨rfl, rfl⟩ := Prod.mk.inj (Option.some.inj hs)
        exact .shut hw hl (head_of_isHeldBy hheld)
      · rw [if_neg hheld] at hs
        nomatch hs

/-- What a courier does when it gives up is one of the steps of couriers. -/
theorem courierStep_of_expireCourier {h h' : Hub δ} {t : Nat} {c c' : Courier}
    (hs : h.expireCourier t c = some (c', h')) : CourierStep h t c c' h' := by
  unfold expireCourier at hs
  cases hw : c.work with
  | idle =>
    simp only [hw] at hs
    nomatch hs
  | sending p rest d =>
    simp only [hw] at hs
    by_cases hd : d ≤ h.clock
    · rw [if_pos hd] at hs
      obtain ⟨rfl, rfl⟩ := Prod.mk.inj (Option.some.inj hs)
      exact .late hw hd
    · rw [if_neg hd] at hs
      nomatch hs
  | shutting p d =>
    simp only [hw] at hs
    by_cases hd : d ≤ h.clock
    · rw [if_pos hd] at hs
      obtain ⟨rfl, rfl⟩ := Prod.mk.inj (Option.some.inj hs)
      exact .lapse hw hd
    · rw [if_neg hd] at hs
      nomatch hs

/-! ## The steps of a courier by what it is doing -/

section

variable {h h' : Hub δ} {t : Nat} {c c' : Courier} {p : Peer} {f : Frame} {jobs : List Job}

/-- A courier that has finished takes no step. -/
theorem CourierStep.not_finished (hw : c.work = .idle) (hj : c.jobs = []) : ¬CourierStep h t c c' h' := by
  obtain ⟨work, all, reached, failure?⟩ := c
  cases hw
  cases hj
  intro hs
  cases hs with
  | find _ hj | miss _ hj | queue _ hj | dismiss _ hj | skip _ hj | approach _ hj => nomatch hj
  | put hw | complete hw | snap hw | shut hw | late hw | lapse hw => nomatch hw

/-- A courier that looks for a peer finds it connected, or goes on without it and says that it is gone. -/
theorem CourierStep.of_reach (hs : CourierStep h t c c' h') (hw : c.work = .idle) (hj : c.jobs = .reach p f :: jobs) :
    h' = h ∧ (p ∈ h.members ∧ c' = { c with jobs := .send p f :: jobs } ∨
      p ∉ h.members ∧ c' = { c with jobs, failure? := some (.peerGone p.number) }) := by
  obtain ⟨work, all, reached, failure?⟩ := c
  cases hw
  cases hj
  cases hs with
  | find _ hj hp =>
    cases hj
    exact ⟨rfl, Or.inl ⟨hp, rfl⟩⟩
  | miss _ hj hp =>
    cases hj
    exact ⟨rfl, Or.inr ⟨hp, rfl⟩⟩
  | queue _ hj | dismiss _ hj | skip _ hj | approach _ hj => nomatch hj
  | put hw | complete hw | snap hw | shut hw | late hw | lapse hw => nomatch hw

/-- A courier that is to send a frame gets in line, and the time for it begins. -/
theorem CourierStep.of_send (hs : CourierStep h t c c' h') (hw : c.work = .idle) (hj : c.jobs = .send p f :: jobs) :
    c' = { c with work := .sending p f.encode (h.clock + h.patience), jobs } ∧ h' = h.updateLink p (·.join t) := by
  obtain ⟨work, all, reached, failure?⟩ := c
  cases hw
  cases hj
  cases hs with
  | queue _ hj =>
    cases hj
    exact ⟨rfl, rfl⟩
  | find _ hj | miss _ hj | dismiss _ hj | skip _ hj | approach _ hj => nomatch hj
  | put hw | complete hw | snap hw | shut hw | late hw | lapse hw => nomatch hw

/-- A courier that is to dismiss a peer takes it out and gets in line, if it is connected. -/
theorem CourierStep.of_dismiss (hs : CourierStep h t c c' h') (hw : c.work = .idle)
    (hj : c.jobs = .dismiss p :: jobs) :
    (p ∈ h.members ∧ c' = { c with work := .shutting p (h.clock + h.patience), jobs } ∧
      h' = { h with members := h.members.erase p }.updateLink p (·.join t)) ∨
    (p ∉ h.members ∧ c' = { c with jobs } ∧ h' = h) := by
  obtain ⟨work, all, reached, failure?⟩ := c
  cases hw
  cases hj
  cases hs with
  | dismiss _ hj hp =>
    cases hj
    exact Or.inl ⟨hp, rfl, rfl⟩
  | skip _ hj hp =>
    cases hj
    exact Or.inr ⟨hp, rfl, rfl⟩
  | find _ hj | miss _ hj | queue _ hj | approach _ hj => nomatch hj
  | put hw | complete hw | snap hw | shut hw | late hw | lapse hw => nomatch hw

/-- While a frame is being sent, some of it is written by the first in line, or all of the rest, or it is given up. -/
theorem CourierStep.of_sending {rest : Bytes} {d : Nat} {l : Link} (hs : CourierStep h t c c' h')
    (hw : c.work = .sending p rest d) (hl : h.links[p]? = some l) :
    (∃ n, l.line.head? = some t ∧ 0 < n ∧ n < rest.length ∧ c' = { c with work := .sending p (rest.drop n) d } ∧
      h' = h.updateLink p (·.put (rest.take n))) ∨
    (l.line.head? = some t ∧ c' = { c with work := .idle, reached := c.reached ++ [p] } ∧
      h' = h.updateLink p fun l => (l.put rest).leave t) ∨
    ∃ e, (e = .io .brokenPipe ∨ e = .tooSlow h.patience) ∧ c' = c.giveUp p e ∧ h' = h.updateLink p (·.leave t) := by
  obtain ⟨work, all, reached, failure?⟩ := c
  cases hw
  cases hs with
  | put hw hp hhead _ h0 hn _ =>
    cases hw
    rw [hl] at hp
    cases hp
    exact Or.inl ⟨_, hhead, h0, hn, rfl, rfl⟩
  | complete hw hp hhead =>
    cases hw
    rw [hl] at hp
    cases hp
    exact Or.inr (Or.inl ⟨hhead, rfl, rfl⟩)
  | snap hw =>
    cases hw
    exact Or.inr (Or.inr ⟨_, Or.inl rfl, rfl, rfl⟩)
  | late hw =>
    cases hw
    exact Or.inr (Or.inr ⟨_, Or.inr rfl, rfl, rfl⟩)
  | find hw | miss hw | queue hw | dismiss hw | skip hw | approach hw | shut hw | lapse hw => nomatch hw

/-- The closing of a writer ends with the task's leaving the line. -/
theorem CourierStep.of_shutting {d : Nat} (hs : CourierStep h t c c' h') (hw : c.work = .shutting p d) :
    c' = { c with work := .idle } ∧ h'.members = h.members := by
  obtain ⟨work, all, reached, failure?⟩ := c
  cases hw
  cases hs with
  | shut | lapse => exact ⟨rfl, rfl⟩
  | find hw | miss hw | queue hw | dismiss hw | skip hw | approach hw => nomatch hw
  | put hw | complete hw | snap hw | late hw => nomatch hw

end

/-- A handler that reads gets some bytes of the request, or finds that no more will come, and then refuses. -/
theorem stage_of_receive {h h' : Hub δ} {x : Handler} {got : Bytes} {grant : Nat} {l : Link} {stage : Handler.Stage}
    (hl : h.links[x.peer]? = some l) (hs : h.receive x got grant l = some (stage, h')) :
    (∃ n, l.inbound.held.take n ≠ [] ∧ n ≤ Frame.size - got.length ∧ stage = .received (got ++ l.inbound.held.take n) ∧
      h' = h.updateLink x.peer (·.advance (l.inbound.held.take n).length)) ∨
    (l.inbound.held = [] ∧ l.inbound.ending = .ended ∧ stage = .refusing x.peer (.framing ⟨got.length⟩) ∧ h' = h) ∨
    ∃ f, l.inbound.held = [] ∧ l.inbound.ending = .failed f ∧ stage = .refusing x.peer (.io f) ∧ h' = h := by
  unfold receive at hs
  cases hheld : l.inbound.held with
  | nil =>
    cases hend : l.inbound.ending with
    | more =>
      simp only [hheld, hend] at hs
      nomatch hs
    | ended =>
      simp only [hheld, hend] at hs
      obtain ⟨rfl, rfl⟩ := Prod.mk.inj (Option.some.inj hs)
      exact Or.inr (Or.inl ⟨rfl, rfl, rfl, rfl⟩)
    | failed f =>
      simp only [hheld, hend] at hs
      obtain ⟨rfl, rfl⟩ := Prod.mk.inj (Option.some.inj hs)
      exact Or.inr (Or.inr ⟨f, rfl, rfl, rfl, rfl⟩)
  | cons b more =>
    simp only [hheld, Pipe.read] at hs
    cases htake : (b :: more).take (min grant (Frame.size - got.length)) with
    | nil =>
      simp only [htake] at hs
      nomatch hs
    | cons b' more' =>
      simp only [htake] at hs
      obtain ⟨rfl, rfl⟩ := Prod.mk.inj (Option.some.inj hs)
      refine Or.inl ⟨min grant (Frame.size - got.length), ?_, Nat.min_le_right _ _, ?_, ?_⟩
      · rw [htake]
        exact List.cons_ne_nil _ _
      · rw [htake]
      · rw [htake]
        exact updateLink_congr hl rfl

variable [Service δ]

/-- What a handler does when it goes on is one of the steps of tasks. -/
theorem taskStep_of_advanceHandler {h h' : Hub δ} {t grant : Nat} {x : Handler} {stage : Handler.Stage}
    (hs : h.advanceHandler t x grant = some (stage, h')) :
    TaskStep h t (.handler x) (.handler { x with stage }) h' := by
  obtain ⟨p, run, was⟩ := x
  cases was with
  | receiving got =>
    obtain ⟨l, hl, hs⟩ := Option.bind_eq_some_iff.1 hs
    rcases stage_of_receive hl hs with ⟨n, hne, hn, rfl, rfl⟩ | ⟨hheld, hend, rfl, rfl⟩ | ⟨f, hheld, hend, rfl, rfl⟩
    · exact .read hl hne hn
    · exact .curtail hl hheld hend
    · exact .lose hl hheld hend
  | holding request =>
    simp only [advanceHandler, executeFor] at hs
    cases hx : Service.execute h.device request with
    | mk response? device =>
      cases response? with
      | none =>
        simp only [hx] at hs
        obtain ⟨rfl, rfl⟩ := Prod.mk.inj (Option.some.inj hs)
        exact .crash hx
      | some response =>
        simp only [hx] at hs
        obtain ⟨rfl, rfl⟩ := Prod.mk.inj (Option.some.inj hs)
        exact .execute hx
  | parting result c =>
    simp only [advanceHandler] at hs
    by_cases hc : c.isFinished = true
    · rw [if_pos hc] at hs
      obtain ⟨rfl, rfl⟩ := Prod.mk.inj (Option.some.inj hs)
      simp only [Courier.isFinished, Bool.and_eq_true, beq_iff_eq, List.isEmpty_iff] at hc
      exact .finish hc.1 hc.2
    · rw [if_neg hc] at hs
      obtain ⟨⟨c', h''⟩, hc', heq⟩ := Option.map_eq_some_iff.1 hs
      obtain ⟨rfl, rfl⟩ := Prod.mk.inj heq
      exact .convey (courierStep_of_advanceCourier hc')
  | ended e => nomatch hs

/-- A move is a step of one task, and the task is then in the place of what it was. -/
theorem taskStep_of_move? {h h'' : Hub δ} {m : Move} (hm : h.move? m = some h'') :
    ∃ a b h', h.tasks[m.task]? = some a ∧ TaskStep h m.task a b h' ∧ h'' = h'.setTask m.task b := by
  cases m with
  | advance t grant =>
    simp only [move?] at hm
    cases ht : h.tasks[t]? with
    | none =>
      simp only [ht] at hm
      nomatch hm
    | some a =>
      cases a with
      | handler x =>
        simp only [ht] at hm
        obtain ⟨⟨stage, h'⟩, hs, rfl⟩ := Option.map_eq_some_iff.1 hm
        exact ⟨_, _, h', ht, taskStep_of_advanceHandler hs, rfl⟩
      | errand c =>
        simp only [ht] at hm
        obtain ⟨⟨c', h'⟩, hs, rfl⟩ := Option.map_eq_some_iff.1 hm
        exact ⟨_, _, h', ht, .errand (courierStep_of_advanceCourier hs), rfl⟩
  | heed t =>
    simp only [move?] at hm
    split at hm
    · rename_i p run got ht
      by_cases hr : run < h.halted
      · rw [if_pos hr] at hm
        exact ⟨_, _, h, ht, .heed hr, (Option.some.inj hm).symm⟩
      · rw [if_neg hr] at hm
        nomatch hm
    · nomatch hm
  | expire t =>
    simp only [move?] at hm
    split at hm
    · rename_i p run result c ht
      obtain ⟨⟨c', h'⟩, hs, rfl⟩ := Option.map_eq_some_iff.1 hm
      exact ⟨_, _, h', ht, .convey (courierStep_of_expireCourier hs), rfl⟩
    · rename_i c ht
      obtain ⟨⟨c', h'⟩, hs, rfl⟩ := Option.map_eq_some_iff.1 hm
      exact ⟨_, _, h', ht, .errand (courierStep_of_expireCourier hs), rfl⟩
    · nomatch hm

/-! ## Coming to an end -/

omit [Service δ] in
/-- A step leaves a courier less to do. -/
theorem CourierStep.effort_lt {h h' : Hub δ} {t : Nat} {c c' : Courier} (hs : CourierStep h t c c' h') :
    c'.effort < c.effort := by
  cases hs with
  | find hw hj | miss hw hj | dismiss hw hj | skip hw hj | approach hw hj =>
    simp only [Courier.effort, hw, hj, List.foldr_cons, Work.effort, Job.effort]
    omega
  | queue hw hj =>
    simp only [Courier.effort, hw, hj, List.foldr_cons, Work.effort, Job.effort, Frame.length_encode]
    omega
  | put hw _ _ _ h0 hn =>
    simp only [Courier.effort, hw, Work.effort, List.length_drop]
    omega
  | complete hw | shut hw | lapse hw =>
    simp only [Courier.effort, hw, Work.effort]
    omega
  | snap hw | late hw =>
    simp only [Courier.effort, Courier.giveUp, hw, Work.effort, Job.effort, List.foldr_cons]
    omega

/-- A courier that has not finished can take a step, at the latest when its time is over. -/
theorem goes_on {h : Hub δ} {t : Nat} {c : Courier} (hc : h.tasks[t]? = some (.errand c))
    (hfin : c.isFinished = false) :
    ∃ ms m, m.task = t ∧ (({ h with clock := h.clock + ms } : Hub δ).move? m).isSome = true := by
  cases hw : c.work with
  | idle =>
    cases hj : c.jobs with
    | nil => simp [Courier.isFinished, hw, hj] at hfin
    | cons j jobs =>
      refine ⟨0, .advance t 0, rfl, ?_⟩
      simp only [move?, hc, advanceCourier, hw, hj, Option.map_some, Option.isSome_some]
  | sending p rest d | shutting p d =>
    refine ⟨d - h.clock, .expire t, rfl, ?_⟩
    have hd : d ≤ h.clock + (d - h.clock) := by omega
    simp only [move?, hc, expireCourier, hw, if_pos hd, Option.map_some, Option.isSome_some]

/-! ## What a step leaves alone -/

omit [Service δ] in
theorem CourierStep.tasks_eq {h h' : Hub δ} {t : Nat} {c c' : Courier} (hs : CourierStep h t c c' h') :
    h'.tasks = h.tasks := by
  cases hs <;> rfl

omit [Service δ] in
theorem CourierStep.halted_eq {h h' : Hub δ} {t : Nat} {c c' : Courier} (hs : CourierStep h t c c' h') :
    h'.halted = h.halted := by
  cases hs <;> rfl

omit [Service δ] in
theorem CourierStep.clock_eq {h h' : Hub δ} {t : Nat} {c c' : Courier} (hs : CourierStep h t c c' h') :
    h'.clock = h.clock := by
  cases hs <;> rfl

omit [Service δ] in
theorem CourierStep.device_eq {h h' : Hub δ} {t : Nat} {c c' : Courier} (hs : CourierStep h t c c' h') :
    h'.device = h.device := by
  cases hs <;> rfl

omit [Service δ] in
/-- A step of a courier lets nobody in. -/
theorem CourierStep.members_sublist {h h' : Hub δ} {t : Nat} {c c' : Courier} (hs : CourierStep h t c c' h') :
    h'.members.Sublist h.members := by
  cases hs with
  | dismiss => exact List.erase_sublist
  | _ => exact List.Sublist.refl _

omit [Service δ] in
theorem CourierStep.links_length {h h' : Hub δ} {t : Nat} {c c' : Courier} (hs : CourierStep h t c c' h') :
    h'.links.length = h.links.length := by
  cases hs <;> simp only [updateLink, List.length_modify]

omit [Service δ] in
/-- What is done to one link is all that is done to links. -/
theorem touched_of_updateLink {h : Hub δ} {t : Nat} {p q : Peer} {l : Link} {f : Link → Link}
    (hl : h.links[q]? = some l) (hf : p = q → l.Touched t (f l)) :
    ∃ l', (h.updateLink p f).links[q]? = some l' ∧ l.Touched t l' := by
  by_cases hpq : p = q
  · subst hpq
    exact ⟨f l, links_updateLink_self f hl, hf rfl⟩
  · exact ⟨l, (links_updateLink_of_ne f hpq).trans hl, .same⟩

omit [Service δ] in
/-- All that a step of a courier does to a link is what a task may do to it. -/
theorem CourierStep.touched {h h' : Hub δ} {t : Nat} {c c' : Courier} {q : Peer} {l : Link}
    (hs : CourierStep h t c c' h') (hl : h.links[q]? = some l) : ∃ l', h'.links[q]? = some l' ∧ l.Touched t l' := by
  cases hs with
  | find | miss | skip => exact ⟨l, hl, .same⟩
  | queue | dismiss | approach => exact touched_of_updateLink hl fun _ => .join
  | snap | late | lapse => exact touched_of_updateLink hl fun _ => .leave
  | put _ hp hhead =>
    refine touched_of_updateLink hl fun hpq => .put ?_
    rw [hpq, hl] at hp
    rw [Option.some.inj hp]
    exact hhead
  | complete _ hp hhead =>
    refine touched_of_updateLink hl fun hpq => .complete ?_
    rw [hpq, hl] at hp
    rw [Option.some.inj hp]
    exact hhead
  | shut _ hp hhead =>
    refine touched_of_updateLink hl fun hpq => .shut ?_
    rw [hpq, hl] at hp
    rw [Option.some.inj hp]
    exact hhead

theorem TaskStep.tasks_eq {h h' : Hub δ} {t : Nat} {a b : Task} (hs : TaskStep h t a b h') : h'.tasks = h.tasks := by
  cases hs with
  | convey hc => exact hc.tasks_eq
  | errand hc => exact hc.tasks_eq
  | _ => rfl

theorem TaskStep.halted_eq {h h' : Hub δ} {t : Nat} {a b : Task} (hs : TaskStep h t a b h') : h'.halted = h.halted := by
  cases hs with
  | convey hc => exact hc.halted_eq
  | errand hc => exact hc.halted_eq
  | _ => rfl

theorem TaskStep.clock_eq {h h' : Hub δ} {t : Nat} {a b : Task} (hs : TaskStep h t a b h') : h'.clock = h.clock := by
  cases hs with
  | convey hc => exact hc.clock_eq
  | errand hc => exact hc.clock_eq
  | _ => rfl

/-- A step of a task lets nobody in. -/
theorem TaskStep.members_sublist {h h' : Hub δ} {t : Nat} {a b : Task} (hs : TaskStep h t a b h') :
    h'.members.Sublist h.members := by
  cases hs with
  | convey hc => exact hc.members_sublist
  | errand hc => exact hc.members_sublist
  | _ => exact List.Sublist.refl _

theorem TaskStep.links_length {h h' : Hub δ} {t : Nat} {a b : Task} (hs : TaskStep h t a b h') :
    h'.links.length = h.links.length := by
  cases hs with
  | read => simp only [updateLink, List.length_modify]
  | convey hc => exact hc.links_length
  | errand hc => exact hc.links_length
  | _ => rfl

/-- A task only touches links, but for the handler that reads from its own peer. -/
theorem TaskStep.touched {h h' : Hub δ} {t : Nat} {a b : Task} {q : Peer} {l : Link} (hs : TaskStep h t a b h')
    (hl : h.links[q]? = some l) :
    ∃ l', h'.links[q]? = some l' ∧
      (l.Touched t l' ∨ ∃ run stage n, a = .handler ⟨q, run, stage⟩ ∧ l' = l.advance n) := by
  cases hs with
  | @read p run n got l₁ hp hne hn =>
    by_cases hpq : p = q
    · subst hpq
      exact ⟨_, links_updateLink_self _ hl, Or.inr ⟨run, _, _, rfl, rfl⟩⟩
    · exact ⟨l, (links_updateLink_of_ne _ hpq).trans hl, Or.inl .same⟩
  | convey hc =>
    obtain ⟨l', hl', ht⟩ := hc.touched hl
    exact ⟨l', hl', Or.inl ht⟩
  | errand hc =>
    obtain ⟨l', hl', ht⟩ := hc.touched hl
    exact ⟨l', hl', Or.inl ht⟩
  | _ => exact ⟨l, hl, Or.inl .same⟩

end Hub

end Peripheral
