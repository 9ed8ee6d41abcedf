import Peripheral.Proofs.Daemon.Run

/-!
# The sockets of a world

The disk that several servers share is kept in order (`Kempt`): whatever socket is on it was there before any of them or is
held by one of them, what no path of theirs leads to is as it was before, and nothing is left where the path of a server
leads that has come to the end of a run. A step of one server keeps it so (`Kempt.change`). Two paths may lead to the same
place, and so a socket may only be made while every server that was started holds its own.
-/

namespace Peripheral

namespace Station

variable {δ : Type}

/-- The path of the socket of a station. -/
def path (st : Station δ) : String := st.server.config.socketPath

/-- The path of a socket, whether it is up to the server to remove it, and how many runs of the server there were. -/
def claim (st : Station δ) : String × Bool × Nat := (st.path, st.server.holdsSocket, st.server.runs)

/-- Stations claim the same if their paths, what they hold and their runs are the same. -/
theorem claim_eq_iff {st st' : Station δ} :
    st'.claim = st.claim ↔ st'.path = st.path ∧ st'.server.holdsSocket = st.server.holdsSocket ∧
      st'.server.runs = st.server.runs := by
  rw [claim, claim, Prod.mk.injEq, Prod.mk.injEq]

end Station

namespace World

variable {δ : Type} {w w' : World δ} {d₀ d' : Disk} {i j : Nat} {st st' : Station δ} {f : Station δ → Station δ}

/-- What a world is like whose disk was once another. -/
structure Kempt (d₀ : Disk) (w : World δ) : Prop where
  alike : d₀.Alike w.disk
  /-- A socket that was not there before is held by a server. -/
  owned : ∀ p l, w.disk.node? p = some (.socket l) → d₀.node? p = some (.socket l) ∨
    ∃ (i : Nat) (st : Station δ), w.stations[i]? = some st ∧ st.server.holdsSocket = true ∧ d₀.place st.path = .ok p
  untouched : ∀ p, (∀ (i : Nat) (st : Station δ), w.stations[i]? = some st → d₀.place st.path ≠ .ok p) →
    w.disk.node? p = d₀.node? p
  /-- A socket that was made can be removed. -/
  removable : ∀ (i : Nat) (st : Station δ), w.stations[i]? = some st →
    st.server.holdsSocket = true ∨ 0 < st.server.runs →
    ∀ p, d₀.place st.path = .ok p → d₀.node? p ≠ some .directory ∧ Disk.wantsDirectory st.path = false
  cleared : ∀ (i : Nat) (st : Station δ), w.stations[i]? = some st → st.server.holdsSocket = false → 0 < st.server.runs →
    ∀ p, d₀.place st.path = .ok p → w.disk.node? p = none

/-- At the start there is nothing but what was there before. -/
theorem kempt_start (d : Disk) : (start d : World δ).Kempt d where
  alike := .refl d
  owned _ _ hnode := Or.inl hnode
  untouched _ _ := rfl
  removable _ _ hi := nomatch hi
  cleared _ _ hi := nomatch hi

/-- Only the disk and the claims of the stations matter. -/
theorem Kempt.congr (h : w.Kempt d₀) (hdisk : w'.disk = w.disk)
    (hclaims : ∀ i : Nat, w'.stations[i]?.map Station.claim = w.stations[i]?.map Station.claim) : w'.Kempt d₀ := by
  have back : ∀ {i : Nat} {st' : Station δ}, w'.stations[i]? = some st' →
      ∃ st, w.stations[i]? = some st ∧ st'.path = st.path ∧ st'.server.holdsSocket = st.server.holdsSocket ∧
        st'.server.runs = st.server.runs := by
    intro i st' hi
    have hsame := hclaims i
    rw [hi, Option.map_some] at hsame
    obtain ⟨st, hst, hclaim⟩ := Option.map_eq_some_iff.1 hsame.symm
    exact ⟨st, hst, Station.claim_eq_iff.1 hclaim.symm⟩
  have forth : ∀ {i : Nat} {st : Station δ}, w.stations[i]? = some st →
      ∃ st', w'.stations[i]? = some st' ∧ st'.path = st.path ∧ st'.server.holdsSocket = st.server.holdsSocket := by
    intro i st hi
    have hsame := hclaims i
    rw [hi, Option.map_some] at hsame
    obtain ⟨st', hst', hclaim⟩ := Option.map_eq_some_iff.1 hsame
    obtain ⟨hpath, hholds, -⟩ := Station.claim_eq_iff.1 hclaim
    exact ⟨st', hst', hpath, hholds⟩
  refine ⟨hdisk ▸ h.alike, fun p l hnode => ?_, fun p hp => ?_, fun i st' hi hheld => ?_, fun i st' hi hholds hruns => ?_⟩
  · rw [hdisk] at hnode
    refine (h.owned p l hnode).imp_right ?_
    rintro ⟨i, st, hi, hholds, hplace⟩
    obtain ⟨st', hi', hpath, hholds'⟩ := forth hi
    exact ⟨i, st', hi', hholds'.trans hholds, hpath ▸ hplace⟩
  · rw [hdisk]
    refine h.untouched p fun i st hi => ?_
    obtain ⟨st', hi', hpath, -⟩ := forth hi
    exact hpath ▸ hp i st' hi'
  · obtain ⟨st, hst, hpath, hholds, hruns⟩ := back hi
    rw [hholds, hruns] at hheld
    rw [hpath]
    exact h.removable i st hst hheld
  · obtain ⟨st, hst, hpath, hholds', hruns'⟩ := back hi
    rw [hdisk, hpath]
    exact h.cleared i st hst (hholds' ▸ hholds) (hruns' ▸ hruns)

/-- A server that was never started has nothing to do with the disk. -/
theorem Kempt.append (h : w.Kempt d₀) {server : Server δ} (hholds : server.holdsSocket = false) (hruns : server.runs = 0) :
    (w.append server).Kempt d₀ := by
  have kept : ∀ {i : Nat} {st : Station δ}, w.stations[i]? = some st → (w.append server).stations[i]? = some st := by
    intro i st hi
    have hlt := (List.getElem?_eq_some_iff.1 hi).1
    rwa [World.append, List.getElem?_append_left hlt]
  refine ⟨h.alike, fun p l hnode => ?_, fun p hp => ?_, fun i st hi hheld => ?_, fun i st hi hfree hpos => ?_⟩
  · refine (h.owned p l hnode).imp_right ?_
    rintro ⟨i, st, hi, hrest⟩
    exact ⟨i, st, kept hi, hrest⟩
  · exact h.untouched p fun i st hi => hp i st (kept hi)
  · rcases getElem?_append_cases hi with hi | ⟨-, rfl⟩
    · exact h.removable i st hi hheld
    · rcases hheld with hheld | hheld
      · cases hholds.symm.trans hheld
      · exact absurd hheld (Nat.not_lt_of_le (Nat.le_of_eq hruns))
  · rcases getElem?_append_cases hi with hi | ⟨-, rfl⟩
    · exact h.cleared i st hi hfree hpos
    · exact absurd hpos (Nat.not_lt_of_le (Nat.le_of_eq hruns))

/-- The stations after one of them has changed. -/
theorem station_cases (hi : w.stations[i]? = some st) (hj : (w.updateStation i f).stations[j]? = some st') :
    j = i ∧ st' = f st ∨ j ≠ i ∧ w.stations[j]? = some st' := by
  by_cases hij : j = i
  · subst hij
    rw [getElem?_updateStation_self hi] at hj
    exact Or.inl ⟨rfl, (Option.some.inj hj).symm⟩
  · rw [getElem?_updateStation_of_ne w hij] at hj
    exact Or.inr ⟨hij, hj⟩

/-- Nothing is left where the path of a server leads that has removed its socket. -/
theorem Kempt.node?_remove (h : w.Kempt d₀) (hi : w.stations[i]? = some st) (hheld : st.server.holdsSocket = true)
    {p : Place} (hplace : d₀.place st.path = .ok p) : (w.disk.remove st.path).node? p = none := by
  obtain ⟨hdir, hends⟩ := h.removable i st hi (Or.inl hheld) p hplace
  exact Disk.node?_remove_self (h.alike.place_eq_ok_iff.2 hplace) hends fun heq => hdir ((h.alike.directory_iff p).1 heq)

/-! ## One server makes a step -/

/-- A socket that is there after a step was there before everything, or belongs to a station that holds it. -/
theorem Kempt.owned_change (h : w.Kempt d₀) (hi : w.stations[i]? = some st) (hpath : (f st).path = st.path)
    (hs : st.server.SocketStep w.disk (f st).server d') {p : Place} {l : Listener} (hnode : d'.node? p = some (.socket l)) :
    d₀.node? p = some (.socket l) ∨ ∃ (j : Nat) (st' : Station δ), (w.updateStation i f).stations[j]? = some st' ∧
      st'.server.holdsSocket = true ∧ d₀.place st'.path = .ok p := by
  -- Whoever held the socket before holds it still, unless it was the server itself.
  have kept : (d₀.place st.path = .ok p → st.server.holdsSocket = false) → w.disk.node? p = some (.socket l) →
      d₀.node? p = some (.socket l) ∨ ∃ (j : Nat) (st' : Station δ), (w.updateStation i f).stations[j]? = some st' ∧
        st'.server.holdsSocket = true ∧ d₀.place st'.path = .ok p := by
    intro hfree hbefore
    refine (h.owned p l hbefore).imp_right ?_
    rintro ⟨j, st', hj, hheld, hplace⟩
    have hne : j ≠ i := by
      rintro rfl
      cases hi.symm.trans hj
      exact Bool.false_ne_true ((hfree hplace).symm.trans hheld)
    exact ⟨j, st', (getElem?_updateStation_of_ne w hne f).trans hj, hheld, hplace⟩
  by_cases hmine : d₀.place st.path = .ok p
  · cases hholds : (f st).server.holdsSocket with
    | true => exact Or.inr ⟨i, f st, getElem?_updateStation_self hi f, hholds, hpath ▸ hmine⟩
    | false =>
      cases hs with
      | kept hsame _ hless =>
        rcases hless.node?_eq p with heq | hnone
        · exact kept (fun _ => hsame.symm.trans hholds) (heq.symm.trans hnode)
        · cases hnone.symm.trans hnode
      | cleared hheld => cases (h.node?_remove hi hheld hmine).symm.trans hnode
      | made _ hheld => cases hholds.symm.trans hheld
  · have helse := hs.isLocal.elsewhere p fun heq => hmine (h.alike.place_eq_ok_iff.1 heq)
    exact kept (fun heq => absurd heq hmine) (helse.symm.trans hnode)

/-- A place that no station is for is as it was before everything, also after a step. -/
theorem Kempt.untouched_change (h : w.Kempt d₀) (hi : w.stations[i]? = some st) (hpath : (f st).path = st.path)
    (hs : st.server.SocketStep w.disk (f st).server d') {p : Place}
    (hp : ∀ (j : Nat) (st' : Station δ), (w.updateStation i f).stations[j]? = some st' → d₀.place st'.path ≠ .ok p) :
    d'.node? p = d₀.node? p := by
  have hmine : d₀.place st.path ≠ .ok p := hpath ▸ hp i (f st) (getElem?_updateStation_self hi f)
  have helse := hs.isLocal.elsewhere p fun heq => hmine (h.alike.place_eq_ok_iff.1 heq)
  refine helse.trans (h.untouched p fun j st' hj => ?_)
  by_cases hij : j = i
  · subst hij
    cases hi.symm.trans hj
    exact hmine
  · exact hp j st' ((getElem?_updateStation_of_ne w hij f).trans hj)

/-- A station that holds its socket, or did so in a run before, can remove what is at its path. -/
theorem Kempt.removable_change (h : w.Kempt d₀) (hi : w.stations[i]? = some st)
    (hs : st.server.SocketStep w.disk (f st).server d')
    (hheld : (f st).server.holdsSocket = true ∨ 0 < (f st).server.runs) {p : Place} (hplace : d₀.place st.path = .ok p) :
    d₀.node? p ≠ some .directory ∧ Disk.wantsDirectory st.path = false := by
  cases hs with
  | kept hsame hruns => exact h.removable i st hi (hsame ▸ hruns ▸ hheld) p hplace
  | cleared hmine => exact h.removable i st hi (Or.inl hmine) p hplace
  | made _ _ _ hbind =>
    have hremoved := w.disk.local_remove st.path
    obtain ⟨hnone, -, hends⟩ := (Disk.made_of_bind hbind).place p
      (hremoved.alike.place_eq_ok_iff.2 (h.alike.place_eq_ok_iff.2 hplace))
    refine ⟨fun hdir => ?_, hends⟩
    cases ((h.alike.trans hremoved.alike).directory_iff p |>.2 hdir).symm.trans hnone

/-- A station that has let go of its socket leaves nothing at its path. -/
theorem Kempt.cleared_self (h : w.Kempt d₀) (hi : w.stations[i]? = some st)
    (hs : st.server.SocketStep w.disk (f st).server d') (hfree : (f st).server.holdsSocket = false)
    (hruns : 0 < (f st).server.runs) {p : Place} (hplace : d₀.place st.path = .ok p) : d'.node? p = none := by
  cases hs with
  | kept hsame hruns' hless =>
    exact hless.node?_eq_none (h.cleared i st hi (hsame ▸ hfree) (hruns' ▸ hruns) p hplace)
  | cleared hheld => exact h.node?_remove hi hheld hplace
  | made _ hheld => cases hfree.symm.trans hheld

/-- Where nothing is left nothing comes about, since nobody makes a socket while another server is without its own. -/
theorem Kempt.cleared_other (h : w.Kempt d₀) (hj : w.stations[j]? = some st')
    (hs : st.server.SocketStep w.disk (f st).server d')
    (hholds : st.server.call = .binding → st'.server.holdsSocket = true) (hfree : st'.server.holdsSocket = false)
    (hruns : 0 < st'.server.runs) {p : Place} (hplace : d₀.place st'.path = .ok p) : d'.node? p = none := by
  have hnone := h.cleared j st' hj hfree hruns p hplace
  cases hs with
  | kept _ _ hless => exact hless.node?_eq_none hnone
  | cleared => exact (w.disk.lessened_remove st.path).node?_eq_none hnone
  | made hcall => cases hfree.symm.trans (hholds hcall)

/-- A step of one server keeps the disk in order. -/
theorem Kempt.change (h : w.Kempt d₀) (hi : w.stations[i]? = some st) (hpath : (f st).path = st.path)
    (hs : st.server.SocketStep w.disk (f st).server d')
    (hothers : st.server.call = .binding → ∀ (j : Nat) (st' : Station δ), j ≠ i → w.stations[j]? = some st' →
      st'.server.holdsSocket = true) : (({ w with disk := d' }).updateStation i f).Kempt d₀ where
  alike := h.alike.trans hs.isLocal.alike
  owned _ _ hnode := h.owned_change hi hpath hs hnode
  untouched _ hp := h.untouched_change hi hpath hs hp
  removable j st' hj hheld p hplace := by
    rcases station_cases hi hj with ⟨rfl, rfl⟩ | ⟨-, hj⟩
    · rw [hpath] at hplace ⊢
      exact h.removable_change hi hs hheld hplace
    · exact h.removable j st' hj hheld p hplace
  cleared j st' hj hfree hruns p hplace := by
    rcases station_cases hi hj with ⟨rfl, rfl⟩ | ⟨hij, hj⟩
    · rw [hpath] at hplace
      exact h.cleared_self hi hs hfree hruns hplace
    · exact h.cleared_other hj hs (fun hcall => hothers hcall j st' hij hj) hfree hruns hplace

/-! ## What is left -/

/-- Nothing is left where the path of a server leads that has come to the end of a run. -/
theorem Kempt.exists?_eq_false (h : w.Kempt d₀) (hi : w.stations[i]? = some st) (hfree : st.server.holdsSocket = false)
    (hruns : 0 < st.server.runs) : w.disk.exists? st.path = false :=
  Disk.exists?_eq_false fun p hplace => h.cleared i st hi hfree hruns p (h.alike.place_eq_ok_iff.1 hplace)

/-- When nobody holds a socket, the only sockets left are those that were there before. -/
theorem Kempt.sockets (h : w.Kempt d₀)
    (hfree : ∀ (i : Nat) (st : Station δ), w.stations[i]? = some st → st.server.holdsSocket = false) {p : Place}
    {l : Listener} (hnode : w.disk.node? p = some (.socket l)) : d₀.node? p = some (.socket l) := by
  rcases h.owned p l hnode with hbefore | ⟨i, st, hi, hheld, -⟩
  · exact hbefore
  · nomatch (hfree i st hi).symm.trans hheld

end World

end Peripheral
