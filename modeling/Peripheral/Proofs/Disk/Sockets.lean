import Peripheral.Proofs.Disk.Removal

/-!
# What a server does to a disk

A server removes what its path leads to and makes a socket there. So it changes a disk at one place at most, and no directory
comes or goes (`Local`); that is why every path leads to the same place before and afterwards (`Alike.place_eq_ok_iff`). What
it does but for making a socket only takes away (`Lessened`), and where a socket was made nothing is left once the path was
removed (`node?_remove_self`).
-/

namespace Peripheral.Disk

variable {d d' d'' : Disk} {p q : Place} {path other : String} {l : Listener}

/-- A disk has the directories that another one has, and no others. -/
structure Alike (d d' : Disk) : Prop where
  home_eq : d'.home = d.home
  directory_iff : ∀ q, d'.node? q = some .directory ↔ d.node? q = some .directory

/-- Every path leads to the same place. -/
theorem Alike.place_eq_ok_iff (h : d.Alike d') : d'.place other = .ok p ↔ d.place other = .ok p :=
  ⟨place_mono h.home_eq.symm fun q => (h.directory_iff q).1, place_mono h.home_eq fun q => (h.directory_iff q).2⟩

theorem Alike.refl (d : Disk) : d.Alike d := ⟨rfl, fun _ => Iff.rfl⟩

theorem Alike.trans (h : d.Alike d') (h' : d'.Alike d'') : d.Alike d'' :=
  ⟨h'.home_eq.trans h.home_eq, fun q => (h'.directory_iff q).trans (h.directory_iff q)⟩

/-- A disk has changed at most where a path leads, and no directory has come or gone. -/
structure Local (path : String) (d d' : Disk) : Prop where
  alike : d.Alike d'
  elsewhere : ∀ q, d.place path ≠ .ok q → d'.node? q = d.node? q

theorem Local.refl (path : String) (d : Disk) : d.Local path d := ⟨.refl d, fun _ _ => rfl⟩

theorem Local.trans (h : d.Local path d') (h' : d'.Local path d'') : d.Local path d'' where
  alike := h.alike.trans h'.alike
  elsewhere q hq := (h'.elsewhere q fun heq => hq (h.alike.place_eq_ok_iff.1 heq)).trans (h.elsewhere q hq)

/-! ## Removing and letting go -/

/-- Letting a listener go takes nothing off the disk. -/
theorem node?_release (d : Disk) (l : Listener) (q : Place) : (d.release l).node? q = d.node? q := rfl

/-- Letting a listener go happens at any path only. -/
theorem local_release (path : String) (d : Disk) (l : Listener) : d.Local path (d.release l) :=
  ⟨⟨rfl, fun _ => Iff.rfl⟩, fun _ _ => rfl⟩

/-- What removing a path comes to: what it leads to is erased, if that is no directory and fits the way the path ends. -/
theorem remove_cases (d : Disk) (path : String) :
    d.remove path = d ∨
      ∃ p n, d.place path = .ok p ∧ d.node? p = some n ∧ n ≠ .directory ∧ d.remove path = d.erase p := by
  rw [remove]
  split
  · rename_i p n hplace hfind
    by_cases hdir : n = .directory
    · exact Or.inl (if_pos hdir)
    · exact Or.inr ⟨p, n, hplace, find_of_place hplace hfind, hdir, if_neg hdir⟩
  · exact Or.inl rfl

/-- A removal happens at its path only. -/
theorem local_remove (d : Disk) (path : String) : d.Local path (d.remove path) := by
  rcases d.remove_cases path with hsame | ⟨p, n, hplace, hnode, hdir, herase⟩
  · rw [hsame]
    exact .refl path d
  · have hp : p ≠ [] := by
      rintro rfl
      exact hdir (Option.some.inj hnode).symm
    rw [herase]
    refine ⟨⟨rfl, fun q => ?_⟩, fun q hq => node?_erase_of_ne d fun heq => hq (heq ▸ hplace)⟩
    by_cases hq : q = p
    · subst hq
      rw [node?_erase_self d hp, hnode]
      simp [hdir]
    · rw [node?_erase_of_ne d hq]

/-- Removing a path brings nothing about. -/
theorem node?_remove (d : Disk) (path : String) (q : Place) :
    (d.remove path).node? q = d.node? q ∨ (d.remove path).node? q = none := by
  rcases d.remove_cases path with hsame | ⟨p, n, -, hnode, hdir, herase⟩
  · exact Or.inl (by rw [hsame])
  · rw [herase]
    by_cases hq : q = p
    · subst hq
      refine Or.inr (node?_erase_self d ?_)
      rintro rfl
      exact hdir (Option.some.inj hnode).symm
    · exact Or.inl (node?_erase_of_ne d hq)

/-- Nothing has happened to a disk but that what a path leads to may have gone. -/
structure Lessened (path : String) (d d' : Disk) : Prop where
  isLocal : d.Local path d'
  node?_eq : ∀ q, d'.node? q = d.node? q ∨ d'.node? q = none

theorem Lessened.refl (path : String) (d : Disk) : d.Lessened path d := ⟨.refl path d, fun _ => Or.inl rfl⟩

/-- Where nothing was nothing comes about. -/
theorem Lessened.node?_eq_none (h : d.Lessened path d') (hnone : d.node? q = none) : d'.node? q = none := by
  rcases h.node?_eq q with heq | heq
  · exact heq.trans hnone
  · exact heq

/-- After a removal there is no more at a path than before. -/
theorem lessened_remove (d : Disk) (path : String) : d.Lessened path (d.remove path) :=
  ⟨d.local_remove path, d.node?_remove path⟩

/-- After letting a listener go there is no more at a path than before. -/
theorem lessened_release (path : String) (d : Disk) (l : Listener) : d.Lessened path (d.release l) :=
  ⟨local_release path d l, fun q => Or.inl (node?_release d l q)⟩

/-- Nothing is left where a path leads that was removed, unless it leads to a directory or ends as only directories' paths
do. -/
theorem node?_remove_self (hplace : d.place path = .ok p) (hends : wantsDirectory path = false)
    (hdir : d.node? p ≠ some .directory) : (d.remove path).node? p = none := by
  cases hnode : (d.remove path).node? p with
  | none => rfl
  | some n =>
    have hsame : (d.remove path).place path = .ok p := (d.local_remove path).alike.place_eq_ok_iff.2 hplace
    have hne : n ≠ .directory := fun heq => hdir (((d.local_remove path).alike.directory_iff p).1 (heq ▸ hnode))
    have hfind : (d.remove path).find path = .ok n := by
      rw [find, hsame]
      dsimp only [Bind.bind, Except.bind]
      rw [hnode]
      cases n with
      | directory => exact absurd rfl hne
      | file | socket => simp [hends]
    exact absurd (d.find_remove path hfind) hne

/-- A path at which there is nothing does not exist. -/
theorem exists?_eq_false (h : ∀ p, d.place path = .ok p → d.node? p = none) : d.exists? path = false := by
  rw [exists?, find]
  cases hplace : d.place path with
  | error f => rfl
  | ok p =>
    dsimp only [Bind.bind, Except.bind]
    rw [h p hplace]

/-! ## Making a socket -/

/-- What is put at a place is there. -/
theorem node?_put_self (d : Disk) (n : Node) (hp : p ≠ []) : (d.put p n).node? p = some n := by
  rw [node?, if_neg hp, put, List.lookup_cons_self]

/-- What is put at a place leaves the other places as they are. -/
theorem node?_put_of_ne (d : Disk) (n : Node) (h : q ≠ p) : (d.put p n).node? q = d.node? q := by
  rw [← node?_erase_of_ne d h, node?, node?]
  by_cases hq : q = []
  · rw [if_pos hq, if_pos hq]
  · rw [if_neg hq, if_neg hq, put, List.lookup_cons, beq_eq_false_iff_ne.2 h, erase]

/-- A socket that was made stands where its path leads, where nothing was before. -/
structure Made (path : String) (l : Listener) (d d' : Disk) : Prop where
  isLocal : d.Local path d'
  place : ∀ p, d.place path = .ok p → d.node? p = none ∧ d'.node? p = some (.socket l) ∧ wantsDirectory path = false

/-- A socket that is put where a path leads happens at this path only. -/
theorem local_put (hplace : d.place path = .ok p) (hnode : d.node? p = none) : d.Local path (d.put p (.socket l)) := by
  have hp : p ≠ [] := by
    rintro rfl
    nomatch hnode
  refine ⟨⟨rfl, fun q => ?_⟩, fun q hq => node?_put_of_ne d _ fun heq => hq (heq ▸ hplace)⟩
  by_cases hq : q = p
  · subst hq
    rw [node?_put_self d _ hp, hnode]
    simp
  · rw [node?_put_of_ne d _ hq]

/-- A socket that was bound to a place was made there. -/
theorem made_of_bindAt (h : d.bindAt path l = .ok d') : d.Made path l d' := by
  rw [bindAt] at h
  cases hplace : d.place path with
  | error f =>
    rw [hplace] at h
    nomatch h
  | ok p =>
    rw [hplace] at h
    dsimp only [Bind.bind, Except.bind] at h
    cases hnode : d.node? p with
    | some n =>
      rw [hnode] at h
      cases n with
      | directory => nomatch h
      | file | socket =>
        dsimp only at h
        split at h <;> nomatch h
    | none =>
      rw [hnode] at h
      dsimp only at h
      cases hends : wantsDirectory path with
      | true =>
        rw [hends] at h
        nomatch h
      | false =>
        rw [hends] at h
        cases h
        refine ⟨local_put hplace hnode, fun q hq => ?_⟩
        cases hplace.symm.trans hq
        refine ⟨hnode, node?_put_self d _ ?_, hends⟩
        rintro rfl
        nomatch hnode

/-- A path that is no path of a socket leads nowhere. -/
theorem place_of_isAside (h : isAside path = true) : d.place path = .error .invalidInput := by
  have hnull : path.toList.contains '\x00' = true := by
    rw [isAside, beq_iff_eq, List.head?_eq_some_iff] at h
    obtain ⟨rest, hpath⟩ := h
    rw [hpath]
    rfl
  have hflaw : flaw? path = some .invalidInput := if_pos hnull
  rw [place, hflaw]

/-- A path that leads nowhere makes a socket that is not on the disk. -/
theorem made_of_nowhere {f : IoFault} (hplace : d.place path = .error f) (hisLocal : d.Local path d') :
    d.Made path l d' := by
  refine ⟨hisLocal, fun p hp => ?_⟩
  nomatch hplace.symm.trans hp

/-- A socket that was bound to a path was made there. -/
theorem made_of_bind (h : d.bind path l = .ok d') : d.Made path l d' := by
  rw [bind] at h
  by_cases haside : isAside path = true
  · rw [if_pos haside] at h
    split at h
    · nomatch h
    · split at h
      · nomatch h
      · cases h
        exact made_of_nowhere (place_of_isAside haside) ⟨⟨rfl, fun _ => Iff.rfl⟩, fun _ _ => rfl⟩
  · rw [if_neg haside] at h
    split at h
    · nomatch h
    · split at h
      · rename_i hempty
        cases h
        have hnot : path = "" := String.isEmpty_iff.1 hempty
        subst hnot
        exact made_of_nowhere rfl (.refl "" d)
      · exact made_of_bindAt h

end Peripheral.Disk
