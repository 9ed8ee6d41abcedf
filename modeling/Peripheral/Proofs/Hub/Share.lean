import Peripheral.Proofs.Hub.Order

/-!
# The share of one peer

What is done for peers one errand after the other is to every single peer a matter of its own: its link, whether it is
connected, and what the courier does for it alone (`Share`). An event either is no concern of a peer and leaves its share as
it is, or what becomes of the share is a function of the share and of the event (`share_after?`). So the share of a peer after
a run is computed from what concerned this peer, whatever the other peers did and in whatever order the peers came
(`share_run`).
-/

namespace Peripheral

/-- The peer that a job is about. -/
def Job.peer : Job → Peer
  | reach p _ => p
  | send p _ => p
  | dismiss p => p
  | shut p => p

/-- Work as far as it is for a peer, with the time that is left for it in place of its deadline. -/
def Work.share (p : Peer) (now : Nat) : Work → Work
  | idle => idle
  | sending q rest d => if q = p then .sending p rest (d - now) else .idle
  | shutting q d => if q = p then .shutting p (d - now) else .idle

/-- The peer that a courier works for, or will work for next. -/
def Courier.focus? (c : Courier) : Option Peer :=
  match c.work with
  | .idle => c.jobs.head?.map Job.peer
  | w => w.peer?

/-- A courier that works for a peer has it in mind. -/
theorem Courier.focus_of_peer {c : Courier} {p : Peer} (hp : c.work.peer? = some p) : c.focus? = some p := by
  unfold focus?
  cases hw : c.work with
  | idle =>
    rw [hw] at hp
    cases hp
  | sending | shutting => rwa [hw] at hp

/-- What there is to one peer while errands are carried out one after the other: its link, whether it is connected, and of the
courier of the last errand what is for this peer: its work, its jobs, and how often it has reached the peer. -/
structure Share where
  link? : Option Link
  isMember : Bool
  task : Nat
  work : Work
  jobs : List Job
  times : Nat
  deriving DecidableEq

/-- Something that concerns a peer. -/
inductive Share.Act
  /-- The peer arrives. -/
  | enter (link : Link)
  /-- An errand begins, perhaps after all peers were taken out, and these jobs of it are for the peer. -/
  | begin (task : Nat) (jobs : List Job) (emptied : Bool)
  /-- The client acts on its end of the link. -/
  | use (act : Link.Act)
  /-- Time passes while the courier works for the peer. -/
  | wait (ms : Nat)
  /-- The courier goes on with what it does for the peer. -/
  | advance (grant : Nat)
  /-- The courier gives up what it does for the peer. -/
  | expire

namespace Share

/-- Changes the link of the peer. -/
def updateLink (s : Share) (f : Link → Link) : Share := { s with link? := s.link?.map f }

/-- The courier goes on writing the rest of a frame. -/
def write (s : Share) (p : Peer) (rest : Bytes) (left grant : Nat) (l : Link) : Share :=
  if l.outbound.isBroken then { s.updateLink (·.leave s.task) with work := .idle, jobs := .dismiss p :: s.jobs }
  else
    let n := min (min grant l.outbound.room) rest.length
    if n = rest.length then
      { s.updateLink (fun l => (l.put rest).leave s.task) with work := .idle, times := s.times + 1 }
    else { s.updateLink (·.put (rest.take n)) with work := .sending p (rest.drop n) left }

/-- The courier goes on with what it does for the peer. -/
def advance (s : Share) (patience grant : Nat) : Share :=
  match s.work with
  | .sending p rest left => (s.link?.map (s.write p rest left grant)).getD s
  | .shutting _ _ => { s.updateLink (fun l => l.shut.leave s.task) with work := .idle }
  | .idle =>
    match s.jobs with
    | [] => s
    | .reach p f :: jobs => { s with jobs := if s.isMember then .send p f :: jobs else jobs }
    | .send p f :: jobs => { s.updateLink (·.join s.task) with work := .sending p f.encode patience, jobs }
    | .dismiss p :: jobs =>
      if s.isMember then { s.updateLink (·.join s.task) with isMember := false, work := .shutting p patience, jobs }
      else { s with jobs }
    | .shut p :: jobs => { s.updateLink (·.join s.task) with work := .shutting p patience, jobs }

/-- The courier gives up what it does for the peer. -/
def expire (s : Share) : Share :=
  match s.work with
  | .sending p _ _ => { s.updateLink (·.leave s.task) with work := .idle, jobs := .dismiss p :: s.jobs }
  | .shutting _ _ => { s.updateLink (·.leave s.task) with work := .idle }
  | .idle => s

/-- The share after something that concerns the peer. -/
def step (patience : Nat) (s : Share) : Act → Share
  | .enter link => { s with link? := some link, isMember := true }
  | .begin task jobs emptied =>
    { s with isMember := s.isMember && !emptied, task, work := .idle, jobs, times := 0 }
  | .use act => s.updateLink (·.act act)
  | .wait ms =>
    match s.work with
    | .idle => s
    | .sending p rest left => { s with work := .sending p rest (left - ms) }
    | .shutting p left => { s with work := .shutting p (left - ms) }
  | .advance grant => s.advance patience grant
  | .expire => s.expire

end Share

namespace Hub

variable {δ : Type}

/-- The number of the errand that was begun last. -/
def latest (h : Hub δ) : Nat := h.tasks.length - 1

/-- The courier of the errand that was begun last. -/
def current (h : Hub δ) : Courier := (h.courier? h.latest).getD (.start [])

/-- The share of a peer in what the courier of a task does. -/
def shareOf (h : Hub δ) (t : Nat) (c : Courier) (p : Peer) : Share where
  link? := h.links[p]?
  isMember := h.members.contains p
  task := t
  work := c.work.share p h.clock
  jobs := c.jobs.filter (·.peer == p)
  times := c.reached.count p

/-- The share of a peer. -/
def share (h : Hub δ) (p : Peer) : Share := h.shareOf h.latest h.current p

/-- What an event is to a peer, if it is any of its concern. -/
def concern? (h : Hub δ) (p : Peer) : Event → Option Share.Act
  | .attach link => if h.links.length = p then some (.enter link) else none
  | .sendTo q f => some (.begin h.tasks.length ([Job.reach q f].filter (·.peer == p)) false)
  | .broadcast order f => some (.begin h.tasks.length ((order.map (Job.send · f)).filter (·.peer == p)) false)
  | .close q => some (.begin h.tasks.length ([Job.dismiss q].filter (·.peer == p)) false)
  | .closeAll order => some (.begin h.tasks.length ((order.map Job.shut).filter (·.peer == p)) true)
  | .client q act => if q = p then some (.use act) else none
  | .wait ms => if h.current.work.peer? = some p then some (.wait ms) else none
  | .move (.advance _ grant) => if h.current.focus? = some p then some (.advance grant) else none
  | .move (.expire _) => if h.current.work.peer? = some p then some .expire else none
  | _ => none

/-- Whether an event is in turn when errands are carried out one after the other: only the last one moves. -/
def isInTurn (h : Hub δ) : Event → Bool
  | .move m => m.task + 1 == h.tasks.length
  | .attach _ | .sendTo _ _ | .broadcast _ _ | .close _ | .closeAll _ | .client _ _ | .wait _ => true
  | .serve _ _ | .cutShort _ | .halt _ | .tick _ => false

/-! ## The current errand -/

/-- The courier of the last task is the current one. -/
theorem current_of_task {h : Hub δ} {t : Nat} {c : Courier} (ht : t + 1 = h.tasks.length)
    (hc : h.tasks[t]? = some (.errand c)) : h.current = c := by
  have hlatest : h.latest = t := by
    rw [latest, ← ht]
    rfl
  rw [current, courier?, hlatest, hc]
  rfl

/-- A courier that begins is the current one. -/
theorem current_spawn (h : Hub δ) (c : Courier) : (h.spawn (.errand c)).current = c :=
  current_of_task (t := h.tasks.length) (by rw [spawn, List.length_append, List.length_singleton])
    (by rw [spawn, List.getElem?_concat_length])

/-- When an errand begins, the jobs for a peer are all that it has to do for it. -/
theorem share_spawn (h : Hub δ) (jobs : List Job) (p : Peer) :
    (h.spawn (.errand (.start jobs))).share p =
      { h.share p with task := h.tasks.length, work := .idle, jobs := jobs.filter (·.peer == p), times := 0 } := by
  have hlatest : (h.spawn (.errand (.start jobs))).latest = h.tasks.length := by
    rw [latest, spawn, List.length_append, List.length_singleton, Nat.add_sub_cancel]
  rw [share, current_spawn, hlatest]
  rfl

/-- The share of a peer is its share in what the courier of the last task does. -/
theorem share_of_task {h : Hub δ} {t : Nat} {c : Courier} (ht : t + 1 = h.tasks.length)
    (hc : h.tasks[t]? = some (.errand c)) (p : Peer) : h.share p = h.shareOf t c p := by
  have hlatest : h.latest = t := by
    rw [latest, ← ht]
    rfl
  rw [share, current_of_task ht hc, hlatest]

/-- When the courier of the last task is replaced, the share of a peer is its share in what the new one does. -/
theorem share_setTask {h h' : Hub δ} {t : Nat} {a : Task} (c : Courier) (ht : t + 1 = h.tasks.length)
    (ha : h.tasks[t]? = some a) (hsame : h'.tasks = h.tasks) (p : Peer) :
    (h'.setTask t (.errand c)).share p = h'.shareOf t c p := by
  have hlen : t + 1 = (h'.setTask t (.errand c)).tasks.length := by
    rw [setTask, List.length_set, hsame, ht]
  exact share_of_task hlen (tasks_setTask_self _ (hsame ▸ ha)) p

/-! ## What is no concern of a peer -/

/-- What a courier does for one peer leaves the share of another as it is. -/
theorem CourierStep.share_aside {h h' : Hub δ} {t : Nat} {c c' : Courier} {p : Peer} (hs : CourierStep h t c c' h')
    (hp : c.focus? ≠ some p) : h'.shareOf t c' p = h.shareOf t c p := by
  unfold Courier.focus? at hp
  cases hs with
  | find hw hj | miss hw hj | skip hw hj =>
    simp only [hw, hj, List.head?_cons, Option.map_some, Job.peer, ne_eq, Option.some.injEq] at hp
    simp [shareOf, hw, hj, Job.peer, hp]
  | queue hw hj | approach hw hj =>
    simp only [hw, hj, List.head?_cons, Option.map_some, Job.peer, ne_eq, Option.some.injEq] at hp
    simp [shareOf, hw, hj, Job.peer, hp, Work.share, updateLink]
  | @dismiss q jobs hw hj hq =>
    simp only [hw, hj, List.head?_cons, Option.map_some, Job.peer, ne_eq, Option.some.injEq] at hp
    have hmem : p ∈ h.members.erase q ↔ p ∈ h.members := List.mem_erase_of_ne (Ne.symm hp)
    simp [shareOf, hw, hj, Job.peer, hp, Work.share, updateLink, hmem]
  | put hw | shut hw | lapse hw =>
    simp only [hw, Work.peer?, ne_eq, Option.some.injEq] at hp
    simp [shareOf, hw, hp, Work.share, updateLink]
  | complete hw =>
    simp only [hw, Work.peer?, ne_eq, Option.some.injEq] at hp
    simp [shareOf, hw, hp, Work.share, updateLink, List.count_append]
  | snap hw | late hw =>
    simp only [hw, Work.peer?, ne_eq, Option.some.injEq] at hp
    simp [shareOf, hw, hp, Work.share, updateLink, Courier.giveUp, Job.peer]

/-! ## What concerns a peer -/

/-- When the courier begins with a job for a peer, the share of this peer advances. -/
theorem share_begin {h : Hub δ} {t : Nat} {c : Courier} {j : Job} {jobs : List Job} (grant : Nat) (hn : h.members.Nodup)
    (hw : c.work = .idle) (hj : c.jobs = j :: jobs) :
    (h.begin t c jobs j).2.shareOf t (h.begin t c jobs j).1 j.peer = (h.shareOf t c j.peer).advance h.patience grant := by
  cases j with
  | reach p f =>
    by_cases hp : p ∈ h.members
    · simp [begin, hp, shareOf, Share.advance, hw, hj, Job.peer, Work.share]
    · simp [begin, hp, shareOf, Share.advance, hw, hj, Job.peer, Work.share]
  | send p f => simp [begin, shareOf, Share.advance, hw, hj, Job.peer, Work.share, updateLink, Share.updateLink]
  | dismiss p =>
    by_cases hp : p ∈ h.members
    · have hgone : p ∉ h.members.erase p := hn.not_mem_erase
      simp [begin, hp, shareOf, Share.advance, hw, hj, Job.peer, Work.share, updateLink, Share.updateLink, hgone]
    · simp [begin, hp, shareOf, Share.advance, hw, hj, Job.peer, Work.share]
  | shut p => simp [begin, shareOf, Share.advance, hw, hj, Job.peer, Work.share, updateLink, Share.updateLink]

/-- When the courier writes to a peer, so it says in the share of this peer. -/
theorem share_write {h h' : Hub δ} {t d grant : Nat} {c c' : Courier} {p : Peer} {rest : Bytes} {l : Link}
    (hs : h.write t c p rest d grant l = some (c', h')) :
    h'.shareOf t c' p = (h.shareOf t c p).write p rest (d - h.clock) grant l := by
  unfold write at hs
  split at hs
  · nomatch hs
  · split at hs
    · rename_i hb
      cases hs
      simp [shareOf, Share.write, hb, updateLink, Share.updateLink, Courier.giveUp, Job.peer, Work.share]
    · rename_i hb
      dsimp only at hs
      split at hs
      · nomatch hs
      · split at hs
        · rename_i hall
          cases hs
          simp [shareOf, Share.write, hb, hall, updateLink, Share.updateLink, Work.share, List.count_append, Link.put]
        · rename_i hall
          cases hs
          simp only [Share.write, hb, hall]
          simp [shareOf, updateLink, Share.updateLink, Work.share, Link.put]

/-- When the courier goes on with a peer, the share of this peer advances. -/
theorem share_advance {h h' : Hub δ} {t grant : Nat} {c c' : Courier} {p : Peer} (hn : h.members.Nodup)
    (hp : c.focus? = some p) (hs : h.advanceCourier t c grant = some (c', h')) :
    h'.shareOf t c' p = (h.shareOf t c p).advance h.patience grant := by
  unfold Courier.focus? at hp
  unfold advanceCourier at hs
  cases hw : c.work with
  | idle =>
    cases hj : c.jobs with
    | nil =>
      simp only [hw, hj] at hs
      nomatch hs
    | cons j jobs =>
      simp only [hw, hj, List.head?_cons, Option.map_some, Option.some.injEq] at hp
      simp only [hw, hj] at hs
      have hbegin := share_begin (t := t) grant hn hw hj
      rw [Option.some.inj hs, hp] at hbegin
      exact hbegin
  | sending q rest d =>
    simp only [hw, Work.peer?, Option.some.injEq] at hp
    subst hp
    simp only [hw] at hs
    obtain ⟨l, hl, hs⟩ := Option.bind_eq_some_iff.1 hs
    rw [share_write hs]
    simp [Share.advance, shareOf, hw, Work.share, hl]
  | shutting q d =>
    simp only [hw, Work.peer?, Option.some.injEq] at hp
    subst hp
    simp only [hw] at hs
    cases hl : h.links[q]? with
    | none =>
      simp only [hl] at hs
      nomatch hs
    | some l =>
      simp only [hl] at hs
      obtain ⟨_, heq⟩ := Option.ite_none_right_eq_some.1 hs
      cases heq
      simp [Share.advance, shareOf, hw, Work.share, updateLink, Share.updateLink, hl, Link.shut]

/-- When the courier gives up what it does for a peer, so does the share of this peer. -/
theorem share_expire {h h' : Hub δ} {t : Nat} {c c' : Courier} {p : Peer} (hp : c.work.peer? = some p)
    (hs : h.expireCourier t c = some (c', h')) : h'.shareOf t c' p = (h.shareOf t c p).expire := by
  unfold expireCourier at hs
  cases hw : c.work with
  | idle =>
    simp only [hw] at hs
    nomatch hs
  | sending q rest d =>
    simp only [hw, Work.peer?, Option.some.injEq] at hp
    subst hp
    simp only [hw] at hs
    obtain ⟨_, heq⟩ := Option.ite_none_right_eq_some.1 hs
    cases heq
    simp [Share.expire, shareOf, hw, Work.share, updateLink, Share.updateLink, Courier.giveUp, Job.peer]
  | shutting q d =>
    simp only [hw, Work.peer?, Option.some.injEq] at hp
    subst hp
    simp only [hw] at hs
    obtain ⟨_, heq⟩ := Option.ite_none_right_eq_some.1 hs
    cases heq
    simp [Share.expire, shareOf, hw, Work.share, updateLink, Share.updateLink]

/-- Only work is given up, not what is still to be begun. -/
theorem focus_of_expire {h h' : Hub δ} {t : Nat} {c c' : Courier} (hs : h.expireCourier t c = some (c', h')) :
    ∃ p, c.work.peer? = some p ∧ c.focus? = some p := by
  unfold expireCourier at hs
  cases hw : c.work with
  | idle =>
    simp only [hw] at hs
    nomatch hs
  | sending q | shutting q => exact ⟨q, rfl, Courier.focus_of_peer (by rw [hw]; rfl)⟩

/-- Time that passes counts for the peer that is being worked for. -/
theorem share_wait (h : Hub δ) (p : Peer) (ms : Nat) :
    ({ h with clock := h.clock + ms } : Hub δ).share p =
      if h.current.work.peer? = some p then (h.share p).step h.patience (.wait ms) else h.share p := by
  have hcurrent : ({ h with clock := h.clock + ms } : Hub δ).current = h.current := rfl
  rw [share, share, hcurrent]
  cases hw : h.current.work with
  | idle => simp [shareOf, hw, Work.peer?, Work.share, latest]
  | sending q rest d =>
    by_cases hq : q = p
    · simp [shareOf, hw, Work.peer?, Work.share, hq, Share.step, latest, Nat.sub_sub]
    · simp [shareOf, hw, Work.peer?, Work.share, hq, latest]
  | shutting q d =>
    by_cases hq : q = p
    · simp [shareOf, hw, Work.peer?, Work.share, hq, Share.step, latest, Nat.sub_sub]
    · simp [shareOf, hw, Work.peer?, Work.share, hq, latest]

/-- A client acts on its own link only. -/
theorem share_client (h : Hub δ) (p q : Peer) (act : Link.Act) :
    (h.updateLink q (·.act act)).share p =
      if q = p then (h.share p).step h.patience (.use act) else h.share p := by
  have hcurrent : (h.updateLink q (·.act act)).current = h.current := rfl
  rw [share, share, hcurrent]
  by_cases hq : q = p
  · simp [shareOf, hq, Share.step, Share.updateLink, updateLink, latest]
  · simp [shareOf, hq, updateLink, latest]

/-- Who arrives is the peer with the next number. -/
theorem share_register (h : Hub δ) (p : Peer) (link : Link) :
    (h.register link).share p =
      if h.links.length = p then (h.share p).step h.patience (.enter link) else h.share p := by
  have hcurrent : (h.register link).current = h.current := rfl
  rw [share, share, hcurrent]
  by_cases hp : h.links.length = p
  · subst hp
    simp [shareOf, register, Share.step, latest]
  · have hlink : (h.links ++ [link])[p]? = h.links[p]? := by
      rcases Nat.lt_or_gt_of_ne hp with hlt | hgt
      · rw [List.getElem?_eq_none (by rw [List.length_append, List.length_singleton]; omega),
          List.getElem?_eq_none (by omega)]
      · exact List.getElem?_append_left hgt
    have hmember : p = h.links.length ↔ False := ⟨fun heq => hp heq.symm, False.elim⟩
    simp [shareOf, register, hlink, hp, hmember, latest]

variable [Service δ]

/-- A move of the current errand is a step of the peer that is being worked for. -/
theorem share_move {h h' : Hub δ} {m : Move} {log : List Mark} (ho : h.Orderly log) (hnone : ∀ t p, ¬h.Conducts t p)
    (hturn : h.isInTurn (.move m) = true) (he : h.after? (.move m) = some h') (p : Peer) :
    h'.share p =
      match h.concern? p (.move m) with
      | none => h.share p
      | some a => (h.share p).step h.patience a := by
  have ht : m.task + 1 = h.tasks.length := by simpa [isInTurn] using hturn
  obtain ⟨a, ha⟩ : ∃ a, h.tasks[m.task]? = some a := ⟨_, List.getElem?_eq_getElem (by omega)⟩
  cases a with
  | handler x => exact absurd (conducts_of_handler ha) (hnone m.task x.peer)
  | errand c =>
    have hcurrent := current_of_task ht ha
    have hshare := share_of_task ht ha p
    cases m with
    | heed t =>
      simp only [Move.task] at ha
      simp [after?, move?, ha] at he
    | advance t grant =>
      simp only [Move.task] at ha ht
      simp only [after?, move?, ha] at he
      obtain ⟨⟨c', h₁⟩, hs, rfl⟩ := Option.map_eq_some_iff.1 he
      rw [share_setTask c' ht ha (courierStep_of_advanceCourier hs).tasks_eq, hshare, concern?, hcurrent]
      by_cases hp : c.focus? = some p
      · rw [if_pos hp]
        exact share_advance ho.members_nodup hp hs
      · rw [if_neg hp]
        exact (courierStep_of_advanceCourier hs).share_aside hp
    | expire t =>
      simp only [Move.task] at ha ht
      simp only [after?, move?, ha] at he
      obtain ⟨⟨c', h₁⟩, hs, rfl⟩ := Option.map_eq_some_iff.1 he
      rw [share_setTask c' ht ha (courierStep_of_expireCourier hs).tasks_eq, hshare, concern?, hcurrent]
      by_cases hp : c.work.peer? = some p
      · rw [if_pos hp]
        exact share_expire hp hs
      · rw [if_neg hp]
        obtain ⟨q, hq, hfocus⟩ := focus_of_expire hs
        refine (courierStep_of_expireCourier hs).share_aside fun hfocus' => hp ?_
        rw [hq, ← hfocus, hfocus']

/-- An event either is no concern of a peer, or what becomes of the peer's share is a function of the share and of what
the event is to the peer. -/
theorem share_after? {h h' : Hub δ} {e : Event} {log : List Mark} (ho : h.Orderly log) (hnone : ∀ t p, ¬h.Conducts t p)
    (hturn : h.isInTurn e = true) (he : h.after? e = some h') (p : Peer) :
    h'.share p =
      match h.concern? p e with
      | none => h.share p
      | some a => (h.share p).step h.patience a := by
  cases e with
  | move m => exact share_move ho hnone hturn he p
  | attach link =>
    obtain ⟨_, heq⟩ := Option.ite_none_right_eq_some.1 he
    cases heq
    rw [share_register, concern?]
    split <;> rfl
  | broadcast order f =>
    obtain ⟨_, heq⟩ := Option.ite_none_right_eq_some.1 he
    cases heq
    rw [broadcastIn, share_spawn]
    simp [concern?, Share.step]
  | sendTo q f =>
    cases he
    rw [sendTo, share_spawn]
    simp [concern?, Share.step]
  | close q =>
    cases he
    rw [close, share_spawn]
    simp [concern?, Share.step]
  | closeAll order =>
    obtain ⟨_, heq⟩ := Option.ite_none_right_eq_some.1 he
    cases heq
    rw [closeAllIn, share_spawn]
    simp [concern?, Share.step, share, shareOf]
  | client q act =>
    cases he
    rw [share_client, concern?]
    split <;> rfl
  | wait ms =>
    cases he
    rw [share_wait, concern?]
    split <;> rfl
  | serve | cutShort | halt | tick => cases hturn

/-! ## Runs -/

/-- Whether every event of a run is in turn. -/
def allInTurn (h : Hub δ) : List Event → Bool
  | [] => true
  | e :: rest => h.isInTurn e && (h.after? e).all (·.allInTurn rest)

/-- What the events of a run are to a peer, but for those that are no concern of it. -/
def concerns (h : Hub δ) (p : Peer) : List Event → List Share.Act
  | [] => []
  | e :: rest => (h.concern? p e).toList ++ ((h.after? e).map (·.concerns p rest)).getD []

/-- A run in turn is an event in turn, and from there on a run in turn. -/
theorem run_cons_in_turn {h h' : Hub δ} {e : Event} {rest : List Event} {log : List Mark}
    (hturn : h.allInTurn (e :: rest) = true) (hr : h.run? (e :: rest) = some (h', log)) :
    ∃ h₁ more, h.isInTurn e = true ∧ h.after? e = some h₁ ∧ h₁.allInTurn rest = true ∧ h₁.run? rest = some (h', more) := by
  obtain ⟨h₁, he, hr⟩ := Option.bind_eq_some_iff.1 hr
  obtain ⟨⟨h₂, more⟩, hr₂, heq⟩ := Option.bind_eq_some_iff.1 hr
  cases heq
  rw [allInTurn, he, Option.all_some, Bool.and_eq_true] at hturn
  exact ⟨h₁, more, hturn.1, he, hturn.2, hr₂⟩

/-- Two runs in turn, one after the other, are a run in turn. -/
theorem allInTurn_append {h h' : Hub δ} {es more : List Event} {log : List Mark} (hturn : h.allInTurn es = true)
    (hr : h.run? es = some (h', log)) (hmore : h'.allInTurn more = true) : h.allInTurn (es ++ more) = true := by
  induction es generalizing h log with
  | nil =>
    cases hr
    exact hmore
  | cons e rest ih =>
    obtain ⟨h₁, log₁, hfirst, he, hrest, hr₁⟩ := run_cons_in_turn hturn hr
    rw [List.cons_append, allInTurn, he, Option.all_some, ih hrest hr₁, hfirst]
    rfl

/-- What two runs are to a peer, one after the other, is what the first is to it, and then the second. -/
theorem concerns_append {h h' : Hub δ} {es more : List Event} {log : List Mark} (hr : h.run? es = some (h', log)) (p : Peer) :
    h.concerns p (es ++ more) = h.concerns p es ++ h'.concerns p more := by
  induction es generalizing h log with
  | nil =>
    cases hr
    rfl
  | cons e rest ih =>
    obtain ⟨h₁, he, hr⟩ := Option.bind_eq_some_iff.1 hr
    obtain ⟨⟨h₂, log₂⟩, hr₂, heq⟩ := Option.bind_eq_some_iff.1 hr
    cases heq
    rw [List.cons_append, concerns, concerns, he, Option.map_some, Option.map_some, Option.getD_some, Option.getD_some,
      ih hr₂, List.append_assoc]

/-- How much patience there is does not change. -/
theorem patience_after? {h h' : Hub δ} {e : Event} (he : h.after? e = some h') : h'.patience = h.patience := by
  cases eventStep_of_after? he with
  | move ha hs =>
    cases hs with
    | convey hc => cases hc <;> rfl
    | errand hc => cases hc <;> rfl
    | _ => rfl
  | @cutShort t =>
    unfold cutShort
    split <;> rfl
  | _ => rfl

/-- Nothing that is in turn begins an exchange. -/
theorem conducts_of_isInTurn {h h' : Hub δ} {e : Event} (hnone : ∀ t p, ¬h.Conducts t p) (hturn : h.isInTurn e = true)
    (he : h.after? e = some h') (t : Nat) (p : Peer) : ¬h'.Conducts t p := by
  intro hc
  rcases (conducts_after? he t p).1 hc with hc | ⟨-, run, rfl⟩
  · exact hnone t p hc
  · nomatch hturn

/-- The share of a peer after a run is a function of the share before and of what concerned the peer. -/
theorem share_run {h h' : Hub δ} {es : List Event} {log more : List Mark} (ho : h.Orderly log)
    (hnone : ∀ t p, ¬h.Conducts t p) (hturn : h.allInTurn es = true) (hr : h.run? es = some (h', more)) (p : Peer) :
    h'.share p = (h.concerns p es).foldl (Share.step h.patience) (h.share p) := by
  induction es generalizing h log more with
  | nil =>
    cases hr
    rfl
  | cons e rest ih =>
    obtain ⟨h₁, more₁, hfirst, he, hrest, hr₁⟩ := run_cons_in_turn hturn hr
    have hshare := share_after? ho hnone hfirst he p
    rw [ih (orderly_after? ho he) (conducts_of_isInTurn hnone hfirst he) hrest hr₁, concerns, he, Option.map_some,
      Option.getD_some, List.foldl_append, patience_after? he, hshare]
    cases h.concern? p e <;> rfl

end Hub

end Peripheral
