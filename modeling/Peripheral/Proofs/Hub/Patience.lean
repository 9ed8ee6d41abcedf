import Peripheral.Proofs.Hub.Share

/-!
# How long a peer is waited for

While an errand is carried out, time passes, clients act, and the courier goes on or gives something up. This module says what
of that can happen to the share of a peer (`Share.admits`), and what there is to be told of a peer that a frame is sent to: how
long the courier has waited for it (`waitedFor`), whether its link was found broken (`meetsBroken`), and whether its stream
settled the matter while there was patience (`isDefinite`). All three are told by what concerned the peer (`account_run`).
-/

namespace Peripheral

/-- Whether a link takes nothing at the moment, although it is not broken. -/
def Link.isStalled (l : Link) : Bool := !l.outbound.isBroken && l.outbound.room == 0

/-- Whether a task that is granted some bytes can go on writing the rest of a frame: it is its turn, and the link takes something
or is broken. -/
def Link.accepts (l : Link) (task : Nat) (rest : Bytes) (grant : Nat) : Bool :=
  l.isHeldBy task && (l.outbound.isBroken || min (min grant l.outbound.room) rest.length != 0)

/-- A link that takes nothing lets nobody go on. -/
theorem Link.isStalled_of_accepts {l : Link} {task grant : Nat} {rest : Bytes} (ha : l.accepts task rest grant = true) :
    l.isStalled = false := by
  simp only [accepts, Bool.and_eq_true, Bool.or_eq_true, bne_iff_ne] at ha
  rcases ha.2 with hb | hn
  · simp [isStalled, hb]
  · have hroom : l.outbound.room ≠ 0 := by omega
    simp [isStalled, hroom]

/-- Something that may happen while an operation is carried out. -/
def Hub.Event.isMeanwhile : Hub.Event → Bool
  | .move _ | .client _ _ | .wait _ => true
  | _ => false

/-- What the client of a peer does to its end of the link, if this is its act. -/
def Hub.Event.use? (p : Peer) : Hub.Event → Option Link.Act
  | .client q act => if q = p then some act else none
  | _ => none

/-- How much time passes. -/
def Hub.Event.duration : Hub.Event → Nat
  | .wait ms => ms
  | _ => 0

namespace Share

/-- The acts of the client on its end of the link. -/
def Act.use? : Act → Option Link.Act
  | .use act => some act
  | _ => none

/-- Whether a frame is being sent to the peer. -/
def isSending (s : Share) : Bool :=
  match s.work with
  | .sending _ _ _ => true
  | _ => false

/-- Whether the stream to the peer takes nothing at the moment, although it is not broken. -/
def isStalled (s : Share) : Bool := s.link?.any (·.isStalled)

/-- Whether something can happen to the share while an errand is carried out. The courier goes on with sending when the stream
takes something or is broken, and gives up when no time is left. -/
def admits (s : Share) : Act → Bool
  | .enter _ | .begin _ _ _ => false
  | .use _ => true
  | .wait _ => s.work != .idle
  | .advance grant =>
    match s.work with
    | .idle => !s.jobs.isEmpty
    | .sending _ rest _ => s.link?.any (·.accepts s.task rest grant)
    | .shutting _ _ => s.link?.any (·.isHeldBy s.task)
  | .expire =>
    match s.work with
    | .idle => false
    | .sending _ _ left => left == 0
    | .shutting _ left => left == 0

/-- How long the peer is kept waited for while a frame is being sent to it. -/
def delay (s : Share) : Act → Nat
  | .wait ms => if s.isSending then ms else 0
  | _ => 0

/-- Whether the courier, sending a frame, finds the link broken. -/
def snaps (s : Share) : Act → Bool
  | .advance _ => s.isSending && s.link?.any (·.outbound.isBroken)
  | _ => false

/-- Whether something that happens leaves it to the stream what becomes of a frame: when the peer has been waited for as long as
there is patience, and the frame is still being sent, then the stream takes no more, and the client leaves it like that. -/
def settles (patience waited : Nat) (s : Share) (a : Act) : Bool :=
  !(s.isSending && patience ≤ waited) || s.isStalled && a.use?.isNone

/-- What goes wrong for the peer when something happens. -/
def fault? (patience : Nat) (s : Share) : Act → Option ExchangeError
  | .advance _ =>
    match s.work, s.jobs with
    | .sending _ _ _, _ => if s.link?.any (·.outbound.isBroken) then some (.io .brokenPipe) else none
    | .idle, .reach p _ :: _ => if s.isMember then none else some (.peerGone p.number)
    | _, _ => none
  | .expire =>
    match s.work with
    | .sending _ _ _ => some (.tooSlow patience)
    | _ => none
  | _ => none

/-- The share, and what went wrong last, after something that concerns the peer. -/
def stepWith (patience : Nat) (x : Share × Option ExchangeError) (a : Act) : Share × Option ExchangeError :=
  (x.1.step patience a, (x.1.fault? patience a).or x.2)

/-- If nothing goes wrong when something happens, then what went wrong last is what it was. -/
theorem stepWith_of_none {patience : Nat} {x : Share × Option ExchangeError} {a : Act}
    (hf : x.1.fault? patience a = none) : stepWith patience x a = (x.1.step patience a, x.2) := by
  rw [stepWith, hf, Option.none_or]

/-- What goes wrong makes no difference to the share. -/
theorem foldl_stepWith_fst (patience : Nat) (x : Share × Option ExchangeError) (acts : List Act) :
    (acts.foldl (stepWith patience) x).1 = acts.foldl (step patience) x.1 := by
  induction acts generalizing x with
  | nil => rfl
  | cons a acts ih => exact ih _

end Share

namespace Hub

variable {δ : Type}

/-- Whether a frame is being sent to a peer. -/
def isSendingTo (h : Hub δ) (p : Peer) : Bool := h.current.work.addressee? == some p

/-- Whether the link to a peer is broken. -/
def isBroken (h : Hub δ) (p : Peer) : Bool := h.links[p]?.any (·.outbound.isBroken)

/-- Whether the stream to a peer takes nothing at the moment, although it is not broken. -/
def isStalled (h : Hub δ) (p : Peer) : Bool := h.links[p]?.any (·.isStalled)

/-- How long an event keeps the courier waiting that is sending a frame to a peer. -/
def delay (h : Hub δ) (p : Peer) (e : Event) : Nat := if h.isSendingTo p then e.duration else 0

/-- Whether the courier, sending a frame to a peer, finds the link broken. -/
def snaps (h : Hub δ) (p : Peer) : Event → Bool
  | .move (.advance _ _) => h.isSendingTo p && h.isBroken p
  | _ => false

/-- Whether an event leaves it to the stream to a peer what becomes of a frame, as in `Share.settles`. -/
def settles (h : Hub δ) (p : Peer) (waited : Nat) (e : Event) : Bool :=
  !(h.isSendingTo p && h.patience ≤ waited) || h.isStalled p && (e.use? p).isNone

/-- A frame is being sent to a peer exactly if its share says so. -/
theorem isSending_share (h : Hub δ) (p : Peer) : (h.share p).isSending = h.isSendingTo p := by
  unfold Share.isSending isSendingTo share shareOf
  cases h.current.work with
  | idle => rfl
  | sending q | shutting q =>
    by_cases hq : q = p
    · simp [Work.share, Work.addressee?, hq]
    · simp [Work.share, Work.addressee?, hq]

/-- What an event that happens meanwhile can be to a peer. -/
inductive Concerns (h : Hub δ) (p : Peer) : Event → Share.Act → Prop
  | advance {t grant : Nat} : h.current.focus? = some p → Concerns h p (.move (.advance t grant)) (.advance grant)
  | expire {t : Nat} : h.current.work.peer? = some p → Concerns h p (.move (.expire t)) .expire
  | client {act : Link.Act} : Concerns h p (.client p act) (.use act)
  | wait {ms : Nat} : h.current.work.peer? = some p → Concerns h p (.wait ms) (.wait ms)

/-- What concerns a peer, of what happens meanwhile, is one of four things. -/
theorem concerns_of_concern? {h : Hub δ} {p : Peer} {e : Event} {a : Share.Act} (hm : e.isMeanwhile = true)
    (ha : h.concern? p e = some a) : h.Concerns p e a := by
  cases e with
  | move m =>
    cases m with
    | advance t grant =>
      obtain ⟨hp, heq⟩ := Option.ite_none_right_eq_some.1 ha
      cases heq
      exact .advance hp
    | expire t =>
      obtain ⟨hp, heq⟩ := Option.ite_none_right_eq_some.1 ha
      cases heq
      exact .expire hp
    | heed t => nomatch ha
  | client q act =>
    obtain ⟨rfl, heq⟩ := Option.ite_none_right_eq_some.1 ha
    cases heq
    exact .client
  | wait ms =>
    obtain ⟨hp, heq⟩ := Option.ite_none_right_eq_some.1 ha
    cases heq
    exact .wait hp
  | attach | serve | broadcast | sendTo | close | closeAll | cutShort | halt | tick => cases hm

/-- A peer that a frame is sent to is the one that is being worked for. -/
theorem peer_of_isSendingTo {h : Hub δ} {p : Peer} (hs : h.isSendingTo p = true) : h.current.work.peer? = some p := by
  rw [isSendingTo, beq_iff_eq] at hs
  cases hw : h.current.work with
  | sending q => rwa [hw] at hs
  | idle | shutting =>
    rw [hw] at hs
    cases hs

/-- An event keeps a peer waited for as long as what it is to the peer does. -/
theorem Concerns.delay_eq {h : Hub δ} {p : Peer} {e : Event} {a : Share.Act} (hc : h.Concerns p e a) :
    (h.share p).delay a = h.delay p e := by
  cases hc with
  | wait => rw [Share.delay, delay, isSending_share, Event.duration]
  | advance | expire | client => exact (ite_self 0).symm

/-- What is no concern of a peer does not keep anybody waiting for it. -/
theorem delay_of_aside {h : Hub δ} {p : Peer} {e : Event} (ha : h.concern? p e = none) : h.delay p e = 0 := by
  unfold delay
  split
  · rename_i hs
    cases e with
    | wait ms =>
      rw [concern?, if_pos (peer_of_isSendingTo hs)] at ha
      cases ha
    | _ => rfl
  · rfl

/-- An event finds the link of a peer broken if what it is to the peer does. -/
theorem Concerns.snaps_eq {h : Hub δ} {p : Peer} {e : Event} {a : Share.Act} (hc : h.Concerns p e a) :
    (h.share p).snaps a = h.snaps p e := by
  cases hc with
  | advance =>
    rw [Share.snaps, snaps, isSending_share]
    rfl
  | expire | client | wait => rfl

/-- What is no concern of a peer does not find its link broken. -/
theorem snaps_of_aside {h : Hub δ} {p : Peer} {e : Event} (ha : h.concern? p e = none) : h.snaps p e = false := by
  cases hs : h.snaps p e with
  | false => rfl
  | true =>
    unfold snaps at hs
    split at hs
    · have hfocus := Courier.focus_of_peer (peer_of_isSendingTo (Bool.and_eq_true_iff.1 hs).1)
      rw [concern?, if_pos hfocus] at ha
      cases ha
    · cases hs

/-- The act of a client is its act whichever way one looks at it. -/
theorem Concerns.use?_eq {h : Hub δ} {p : Peer} {e : Event} {a : Share.Act} (hc : h.Concerns p e a) :
    a.use? = e.use? p := by
  cases hc with
  | client => exact (if_pos rfl).symm
  | advance | expire | wait => rfl

/-- An event leaves the matter to the stream if what it is to the peer does. -/
theorem Concerns.settles_eq {h : Hub δ} {p : Peer} {e : Event} {a : Share.Act} (hc : h.Concerns p e a) (waited : Nat) :
    (h.share p).settles h.patience waited a = h.settles p waited e := by
  rw [Share.settles, settles, isSending_share, hc.use?_eq]
  rfl

/-- What is no concern of a peer is no act of its client. -/
theorem use?_of_aside {h : Hub δ} {p : Peer} {e : Event} (ha : h.concern? p e = none) : e.use? p = none := by
  cases e with
  | client q act =>
    by_cases hq : q = p
    · rw [concern?, if_pos hq] at ha
      cases ha
    · exact if_neg hq
  | _ => rfl

/-! ## What can happen to a peer -/

/-- A courier can write exactly if the link lets it go on. -/
theorem isSome_write (h : Hub δ) (t d grant : Nat) (c : Courier) (p : Peer) (rest : Bytes) (l : Link) :
    (h.write t c p rest d grant l).isSome = l.accepts t rest grant := by
  unfold write Link.accepts
  cases hheld : l.isHeldBy t with
  | false => rfl
  | true =>
    cases hb : l.outbound.isBroken with
    | true => rfl
    | false =>
      generalize min (min grant l.outbound.room) rest.length = n
      by_cases hn : n = 0
      · simp [hn]
      · simp only [Bool.not_true, Bool.false_eq_true, if_false, if_neg hn, bne_iff_ne.2 hn]
        split <;> rfl

/-- A courier can go on with a peer exactly if this can happen to the peer's share. -/
theorem isSome_advanceCourier (h : Hub δ) (t grant : Nat) {c : Courier} {p : Peer} (hp : c.focus? = some p) :
    (h.advanceCourier t c grant).isSome = (h.shareOf t c p).admits (.advance grant) := by
  unfold Courier.focus? at hp
  unfold advanceCourier Share.admits shareOf
  cases hw : c.work with
  | idle =>
    cases hj : c.jobs with
    | nil =>
      simp only [hw, hj] at hp
      cases hp
    | cons j jobs =>
      simp only [hw, hj, List.head?_cons, Option.map_some, Option.some.injEq] at hp
      simp [hp, Work.share]
  | sending q rest d =>
    simp only [hw, Work.peer?, Option.some.injEq] at hp
    subst hp
    simp only [Work.share, if_true]
    cases h.links[q]? with
    | none => rfl
    | some l => exact isSome_write h t d grant c q rest l
  | shutting q d =>
    simp only [hw, Work.peer?, Option.some.injEq] at hp
    subst hp
    simp only [Work.share, if_true]
    cases h.links[q]? with
    | none => rfl
    | some l => cases hheld : l.isHeldBy t <;> simp [hheld]

/-- A courier can give up what it does for a peer exactly if this can happen to the peer's share. -/
theorem isSome_expireCourier (h : Hub δ) (t : Nat) {c : Courier} {p : Peer} (hp : c.work.peer? = some p) :
    (h.expireCourier t c).isSome = (h.shareOf t c p).admits .expire := by
  unfold expireCourier Share.admits shareOf
  cases hw : c.work with
  | idle =>
    rw [hw] at hp
    cases hp
  | sending q rest d | shutting q d =>
    simp only [hw, Work.peer?, Option.some.injEq] at hp
    by_cases hd : d ≤ h.clock
    · simp [Work.share, hp, hd, Nat.sub_eq_zero_of_le hd]
    · simp [Work.share, hp, hd, Nat.sub_ne_zero_of_lt (Nat.lt_of_not_le hd)]

section

variable [Service δ] {h h' : Hub δ} {p : Peer}

/-- An event is possible exactly if what it is to a peer can happen to the peer's share. -/
theorem Concerns.isSome_after? {e : Event} {a : Share.Act} (hc : h.Concerns p e a) (hnone : ∀ t p, ¬h.Conducts t p)
    (hturn : h.isInTurn e = true) : (h.after? e).isSome = (h.share p).admits a := by
  have moving : ∀ m, h.isInTurn (.move m) = true → ∃ c, m.task + 1 = h.tasks.length ∧ h.tasks[m.task]? = some (.errand c) := by
    intro m hturn
    have ht : m.task + 1 = h.tasks.length := by simpa [isInTurn] using hturn
    cases hb : h.tasks[m.task]? with
    | none =>
      have hle := List.getElem?_eq_none_iff.1 hb
      omega
    | some b =>
      cases b with
      | handler x => exact absurd (conducts_of_handler hb) (hnone m.task x.peer)
      | errand c => exact ⟨c, ht, rfl⟩
  cases hc with
  | @advance t grant hp =>
    obtain ⟨c, ht, hb⟩ := moving _ hturn
    simp only [Move.task] at hb ht
    simp only [after?, move?, hb, Option.isSome_map]
    rw [share_of_task ht hb p, isSome_advanceCourier h t grant (current_of_task ht hb ▸ hp)]
  | @expire t hp =>
    obtain ⟨c, ht, hb⟩ := moving _ hturn
    simp only [Move.task] at hb ht
    simp only [after?, move?, hb, Option.isSome_map]
    rw [share_of_task ht hb p, isSome_expireCourier h t (current_of_task ht hb ▸ hp)]
  | client => rfl
  | wait hp =>
    cases hw : h.current.work with
    | idle =>
      rw [hw] at hp
      cases hp
    | sending q | shutting q =>
      simp only [hw, Work.peer?, Option.some.injEq] at hp
      simp [after?, Share.admits, share, shareOf, hw, hp, Work.share]

/-- What an event is to a peer can happen to its share. -/
theorem Concerns.admits {e : Event} {a : Share.Act} (hc : h.Concerns p e a) (hnone : ∀ t p, ¬h.Conducts t p)
    (hturn : h.isInTurn e = true) (he : h.after? e = some h') : (h.share p).admits a = true := by
  rw [← hc.isSome_after? hnone hturn, he]
  rfl

/-- What happens meanwhile either is no concern of a peer, or it is something that can happen to the peer's share. -/
theorem concern_cases {h₁ : Hub δ} {e : Event} {log : List Mark} (ho : h.Orderly log) (hnone : ∀ t p, ¬h.Conducts t p)
    (hm : e.isMeanwhile = true) (hturn : h.isInTurn e = true) (he : h.after? e = some h₁) (p : Peer) (rest : List Event) :
    (h.concern? p e = none ∧ h₁.share p = h.share p ∧ h.concerns p (e :: rest) = h₁.concerns p rest) ∨
    ∃ a, h.Concerns p e a ∧ h.concern? p e = some a ∧ (h.share p).admits a = true ∧
      h₁.share p = (h.share p).step h.patience a ∧ h.concerns p (e :: rest) = a :: h₁.concerns p rest := by
  have hshare := share_after? ho hnone hturn he p
  rw [concerns, he, Option.map_some, Option.getD_some]
  cases ha : h.concern? p e with
  | none =>
    rw [ha] at hshare
    exact Or.inl ⟨rfl, hshare, rfl⟩
  | some a =>
    rw [ha] at hshare
    have hc := concerns_of_concern? hm ha
    exact Or.inr ⟨a, hc, rfl, hc.admits hnone hturn he, hshare, rfl⟩

/-! ## Runs -/

/-- How long the courier waits for a peer to take a frame. -/
def waitedFor (h : Hub δ) (p : Peer) : List Event → Nat
  | [] => 0
  | e :: rest => h.delay p e + ((h.after? e).map (·.waitedFor p rest)).getD 0

/-- Whether the courier, sending a frame to a peer, finds its link broken. -/
def meetsBroken (h : Hub δ) (p : Peer) : List Event → Bool
  | [] => false
  | e :: rest => h.snaps p e || (h.after? e).any (·.meetsBroken p rest)

/-- Whether all that happens leaves it to the stream to a peer what becomes of a frame: the stream takes the whole frame, or is
found broken, while there is patience, or it stalls and nothing comes of it any more. -/
def isDefinite (h : Hub δ) (p : Peer) (waited : Nat) : List Event → Bool
  | [] => true
  | e :: rest =>
    h.settles p waited e && (h.after? e).all (·.isDefinite p (waited + h.delay p e) rest)

/-- What every event carries on that concerns a peer, told of its share, of how long it was waited for, of whether its link was
found broken, and of what went wrong for it, holds after all of them. Where the stream is definite, every event may be taken to
leave the matter to the stream. -/
theorem account_run {P : Nat → Bool → Share × Option ExchangeError → Prop} {definite : Prop} {waited : Nat}
    {snapped : Bool} {failure? : Option ExchangeError} {es : List Event} {log more : List Mark} (ho : h.Orderly log)
    (hnone : ∀ t p, ¬h.Conducts t p) (hes : ∀ e ∈ es, e.isMeanwhile = true) (hturn : h.allInTurn es = true)
    (hr : h.run? es = some (h', more)) (hd : definite → h.isDefinite p waited es = true)
    (hp : P waited snapped (h.share p, failure?))
    (step : ∀ waited snapped x a, P waited snapped x → x.1.admits a = true →
      (definite → x.1.settles h.patience waited a = true) →
      P (waited + x.1.delay a) (snapped || x.1.snaps a) (Share.stepWith h.patience x a)) :
    P (waited + h.waitedFor p es) (snapped || h.meetsBroken p es)
      ((h.concerns p es).foldl (Share.stepWith h.patience) (h.share p, failure?)) := by
  induction es generalizing h waited snapped failure? log more with
  | nil =>
    cases hr
    rw [waitedFor, Nat.add_zero, meetsBroken, Bool.or_false]
    exact hp
  | cons e rest ih =>
    obtain ⟨h₁, more₁, hfirst, he, hrest, hr₁⟩ := run_cons_in_turn hturn hr
    simp only [isDefinite, he, Option.all_some, Bool.and_eq_true] at hd
    have next : ∀ {waited snapped failure?}, (definite → h₁.isDefinite p waited rest = true) →
        P waited snapped (h₁.share p, failure?) → P (waited + h₁.waitedFor p rest) (snapped || h₁.meetsBroken p rest)
          ((h₁.concerns p rest).foldl (Share.stepWith h.patience) (h₁.share p, failure?)) := by
      intro waited snapped failure? hd hp
      rw [← patience_after? he]
      exact ih (orderly_after? ho he) (conducts_of_isInTurn hnone hfirst he) (fun e he => hes e (List.mem_cons_of_mem _ he))
        hrest hr₁ hd hp (by rw [patience_after? he]; exact step)
    rw [waitedFor, meetsBroken, he, Option.map_some, Option.getD_some, Option.any_some, ← Nat.add_assoc, ← Bool.or_assoc]
    rcases concern_cases ho hnone (hes e List.mem_cons_self) hfirst he p rest with
      ⟨ha, hsame, heq⟩ | ⟨a, hc, ha, hadmits, hstep, heq⟩
    · rw [heq, delay_of_aside ha, snaps_of_aside ha, Nat.add_zero, Bool.or_false, ← hsame]
      exact next (fun h => by rw [← Nat.add_zero waited, ← delay_of_aside ha]; exact (hd h).2) (hsame ▸ hp)
    · have hboth : Share.stepWith h.patience (h.share p, failure?) a =
          (h₁.share p, ((h.share p).fault? h.patience a).or failure?) := Prod.ext hstep.symm rfl
      have hp₁ := step _ _ _ _ hp hadmits fun h => (hc.settles_eq waited).trans (hd h).1
      rw [hc.delay_eq, hc.snaps_eq, hboth] at hp₁
      rw [heq, List.foldl_cons, hboth]
      exact next (fun h => (hd h).2) hp₁

end

end Hub

end Peripheral
