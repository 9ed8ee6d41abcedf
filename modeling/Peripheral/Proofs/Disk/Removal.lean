import Peripheral.Disk

/-!
# Removing what a path leads to

After a path was removed it leads to nothing, unless it leads to a directory (`find_remove`). On the way to a place there are
directories only, so as long as these stay it leads there (`place_mono`), whatever else is removed; and to remove a path twice
is to remove it once (`remove_remove`).
-/

namespace Peripheral.Disk

variable {d d' : Disk} {p q r : Place} {path : String}

/-- Erasing a place leaves the other places as they are. -/
theorem node?_erase_of_ne (d : Disk) (h : q ≠ p) : (d.erase p).node? q = d.node? q := by
  rw [node?, node?]
  by_cases hq : q = []
  · rw [if_pos hq, if_pos hq]
  · rw [if_neg hq, if_neg hq, erase]
    induction d.nodes with
    | nil => rfl
    | cons x rest ih =>
      by_cases hx : x.1 = p
      · have hne : (q == x.1) = false := beq_eq_false_iff_ne.2 fun heq => h (heq.trans hx)
        rw [List.filter_cons_of_neg (by simp [hx]), List.lookup_cons, hne]
        exact ih
      · rw [List.filter_cons_of_pos (by simp [hx]), List.lookup_cons, List.lookup_cons, ih]

/-- Nothing is left at a place that was erased. -/
theorem node?_erase_self (d : Disk) (hp : p ≠ []) : (d.erase p).node? p = none := by
  rw [node?, if_neg hp, List.lookup_eq_none_iff]
  intro x hx
  have hkept : x.1 ≠ p := of_decide_eq_true (List.mem_filter.1 hx).2
  exact bne_iff_ne.2 hkept.symm

/-- As long as all directories stay, a walk that leads somewhere leads there still. -/
theorem walk_mono {names : List (List Char)} (h : ∀ q, d.node? q = some .directory → d'.node? q = some .directory)
    (hw : d.walk q names = .ok r) : d'.walk q names = .ok r := by
  induction names generalizing q with
  | nil => exact hw
  | cons n rest ih =>
    rw [walk] at hw ⊢
    cases hq : d.node? q with
    | none =>
      rw [hq] at hw
      nomatch hw
    | some node =>
      cases node with
      | file | socket =>
        rw [hq] at hw
        nomatch hw
      | directory =>
        rw [hq] at hw
        rw [h q hq]
        dsimp only at hw ⊢
        by_cases hup : n = ['.', '.']
        · rw [if_pos hup] at hw ⊢
          exact ih hw
        · rw [if_neg hup] at hw ⊢
          by_cases hlong : longestName < (String.ofList n).utf8ByteSize
          · rw [if_pos hlong] at hw
            nomatch hw
          · rw [if_neg hlong] at hw ⊢
            exact ih hw

/-- A path leads where it did if there are as many directories as before. -/
theorem place_mono (hhome : d'.home = d.home) (h : ∀ q, d.node? q = some .directory → d'.node? q = some .directory)
    (hplace : d.place path = .ok r) : d'.place path = .ok r := by
  rw [place] at hplace ⊢
  cases hflaw : flaw? path with
  | some f =>
    rw [hflaw] at hplace
    nomatch hplace
  | none =>
    rw [hflaw] at hplace
    dsimp only at hplace ⊢
    by_cases hempty : path.isEmpty = true
    · rw [if_pos hempty] at hplace
      nomatch hplace
    · rw [if_neg hempty] at hplace ⊢
      have hstart : d'.start path = d.start path := by rw [start, start, hhome]
      rw [hstart]
      exact walk_mono h hplace

/-- What is not a directory is not on the way to anything else. -/
theorem place_erase (hp : d.node? p ≠ some .directory) (hplace : d.place path = .ok r) : (d.erase p).place path = .ok r := by
  refine place_mono (d := d) rfl (fun q hq => ?_) hplace
  have hne : q ≠ p := by
    rintro rfl
    exact hp hq
  rw [node?_erase_of_ne d hne, hq]

/-- What a path leads to is at its place. -/
theorem find_of_place {p : Place} {n : Node} (hplace : d.place path = .ok p) (hfind : d.find path = .ok n) :
    d.node? p = some n := by
  rw [find, hplace] at hfind
  dsimp only [Bind.bind, Except.bind] at hfind
  cases hnode : d.node? p with
  | none =>
    rw [hnode] at hfind
    nomatch hfind
  | some m =>
    rw [hnode] at hfind
    cases m with
    | directory =>
      cases hfind
      rfl
    | file | socket =>
      dsimp only at hfind
      split at hfind
      · nomatch hfind
      · cases hfind
        rfl

/-- Nothing is left at a path that was removed, but for a directory. -/
theorem find_remove (d : Disk) (path : String) {n : Node} (hfind : (d.remove path).find path = .ok n) : n = .directory := by
  rw [remove] at hfind
  split at hfind
  · rename_i p m hplace hm
    by_cases hdir : m = .directory
    · rw [if_pos hdir, hm] at hfind
      cases hfind
      exact hdir
    · rw [if_neg hdir] at hfind
      have hnode := find_of_place hplace hm
      have hp : d.node? p ≠ some .directory := fun heq => hdir (Option.some.inj (hnode.symm.trans heq))
      have hroot : p ≠ [] := fun heq => hp (by rw [heq, node?, if_pos rfl])
      have hgone := find_of_place (place_erase hp hplace) hfind
      rw [node?_erase_self d hroot] at hgone
      nomatch hgone
  · rename_i hnone
    cases hplace : d.place path with
    | error f =>
      rw [find, hplace] at hfind
      nomatch hfind
    | ok p => exact absurd hfind (hnone p n hplace)

/-- Where there is nothing but a directory, nothing is removed. -/
theorem remove_eq_self (hnone : ∀ n, d.find path = .ok n → n = .directory) : d.remove path = d := by
  rw [remove]
  split
  · rename_i p n _ hfind
    exact if_pos (hnone n hfind)
  · rfl

/-- Removing twice is removing once. -/
theorem remove_remove (d : Disk) (path : String) : (d.remove path).remove path = d.remove path :=
  remove_eq_self fun _ hfind => d.find_remove path hfind

end Peripheral.Disk
