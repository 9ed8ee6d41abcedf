import Peripheral.Proofs.Json.Grammar
import Mathlib.Data.List.Forall2
import Mathlib.Data.List.Nodup

/-!
# What JSON values stand for

A `Form` says which JSON values stand for the values of a type, without reading any. A record has a `Layout`: slots with the
forms of their values, and what the record is like when nothing is said about it. The members of an object describe a record
if they give every slot at most once, and what they do not name is as it is at the start; members of other names do not
count. A value of one of several kinds has a `Family` of layouts, and names its kind.
-/

namespace Peripheral.Json

/-! ## Forms -/

/-- Which JSON values stand for what, and which of them differ in nothing that counts. -/
structure Form (α : Type) where
  means : Json → α → Prop
  alike : Json → Json → Prop
  refl : ∀ {j a}, means j a → alike j j
  sound : ∀ {j j' a a'}, alike j j' → means j a → means j' a' → a = a'

namespace Form

/-- A form in which everything counts. -/
def exact {α : Type} (means : Json → α → Prop) (unique : ∀ ⦃j a a'⦄, means j a → means j a' → a = a') : Form α where
  means := means
  alike := Eq
  refl := fun _ => rfl
  sound := by
    rintro j _ a a' rfl h h'
    exact unique h h'

/-- The items of an array that stand for a list. -/
def listMeans {α : Type} (f : Form α) : Json → List α → Prop
  | .array js, as => List.Forall₂ f.means js as
  | _, _ => False

/-- Arrays whose items are alike in turn. -/
def listAlike {α : Type} (f : Form α) : Json → Json → Prop
  | .array js, .array js' => List.Forall₂ f.alike js js'
  | _, _ => False

theorem forall₂_refl {α : Type} (f : Form α) {js : List Json} {as : List α} (h : List.Forall₂ f.means js as) :
    List.Forall₂ f.alike js js := by
  induction h with
  | nil => exact .nil
  | cons hj _ ih => exact .cons (f.refl hj) ih

/-- Items that are alike stand for the same list. -/
theorem forall₂_sound {α : Type} (f : Form α) {js js' : List Json} {as as' : List α} (h : List.Forall₂ f.alike js js')
    (hm : List.Forall₂ f.means js as) (hm' : List.Forall₂ f.means js' as') : as = as' := by
  induction h generalizing as as' with
  | nil =>
    cases hm
    cases hm'
    rfl
  | cons halike _ ih =>
    cases hm with
    | cons hj hjs =>
      cases hm' with
      | cons hj' hjs' => rw [f.sound halike hj hj', ih hjs hjs']

/-- Lists are written as arrays. -/
def list {α : Type} (f : Form α) : Form (List α) where
  means := f.listMeans
  alike := f.listAlike
  refl := by
    intro j as h
    cases j with
    | array js => exact f.forall₂_refl h
    | _ => exact h.elim
  sound := by
    intro j j' as as' h hm hm'
    cases j with
    | array js =>
      cases j' with
      | array js' => exact f.forall₂_sound h hm hm'
      | _ => exact h.elim
    | _ => exact h.elim

end Form

/-! ## Records -/

/-- The values of the members of a name. -/
def valuesOf (name : String) : List (List Char × Json) → List Json
  | [] => []
  | (n, j) :: rest => if String.ofList n = name then j :: valuesOf name rest else valuesOf name rest

theorem valuesOf_cons_same {name : String} {n : List Char} (h : String.ofList n = name) (j : Json)
    (ms : List (List Char × Json)) : valuesOf name ((n, j) :: ms) = j :: valuesOf name ms := if_pos h

theorem valuesOf_cons_other {name : String} {n : List Char} (h : String.ofList n ≠ name) (j : Json)
    (ms : List (List Char × Json)) : valuesOf name ((n, j) :: ms) = valuesOf name ms := if_neg h

/-- The values of a name are those of its members, in order. -/
theorem valuesOf_eq (name : String) (ms : List (List Char × Json)) :
    valuesOf name ms = (ms.filter fun m => String.ofList m.1 = name).map (·.2) := by
  induction ms with
  | nil => rfl
  | cons m ms ih =>
    obtain ⟨n, j⟩ := m
    by_cases hn : String.ofList n = name
    · rw [valuesOf_cons_same hn, List.filter_cons_of_pos (by simpa using hn), List.map_cons, ih]
    · rw [valuesOf_cons_other hn, List.filter_cons_of_neg (by simpa using hn), ih]

/-- Every member is among those of its name. -/
theorem mem_valuesOf {m : List Char × Json} {ms : List (List Char × Json)} (hm : m ∈ ms) :
    m.2 ∈ valuesOf (String.ofList m.1) ms := by
  induction ms with
  | nil => exact (List.not_mem_nil hm).elim
  | cons m' ms ih =>
    obtain ⟨n, j⟩ := m'
    rcases List.mem_cons.1 hm with rfl | hm
    · rw [valuesOf_cons_same rfl]
      exact List.mem_cons_self
    · by_cases hn : String.ofList n = String.ofList m.1
      · rw [valuesOf_cons_same hn]
        exact List.mem_cons_of_mem _ (ih hm)
      · rw [valuesOf_cons_other hn]
        exact ih hm

/-- A part of a record: its name, whether it may be left out, and the form of its values. -/
structure Slot (σ : Type) where
  Value : Type
  name : String
  required : Bool
  form : Form Value
  get : σ → Value
  put : Value → σ → σ

namespace Slot

variable {σ : Type}

/-- The values given to a slot are one of its form, or none if it may be left out. -/
def Typed (s : Slot σ) : List Json → Prop
  | [] => s.required = false
  | [j] => ∃ v, s.form.means j v
  | _ => False

/-- A record holds in a slot what is given to it, and what it held before if nothing is given. -/
def Holds (s : Slot σ) (before x : σ) : List Json → Prop
  | [] => s.get x = s.get before
  | [j] => s.form.means j (s.get x)
  | _ => False

/-- Values of the form of a slot are alike to themselves. -/
theorem Typed.alike {s : Slot σ} {js : List Json} (h : s.Typed js) : List.Forall₂ s.form.alike js js := by
  cases js with
  | nil => exact .nil
  | cons j rest =>
    cases rest with
    | nil =>
      obtain ⟨v, hv⟩ := h
      exact .cons (s.form.refl hv) .nil
    | cons _ _ => exact h.elim

/-- A slot is given at most one value, whose place among others does not count. -/
theorem Typed.eq_of_perm {s : Slot σ} {js js' : List Json} (h : s.Typed js) (hperm : js.Perm js') : js' = js := by
  cases js with
  | nil => exact hperm.nil_eq.symm
  | cons j rest =>
    cases rest with
    | nil => exact List.perm_singleton.1 hperm.symm
    | cons _ _ => exact h.elim

/-- Values that are alike make a slot hold the same. -/
theorem holds_sound {s : Slot σ} {before x x' : σ} {js js' : List Json} (halike : List.Forall₂ s.form.alike js js')
    (h : s.Holds before x js) (h' : s.Holds before x' js') : s.get x = s.get x' := by
  cases halike with
  | nil => exact Eq.trans h (Eq.symm h')
  | cons hj hrest =>
    cases hrest with
    | nil => exact s.form.sound hj h h'
    | cons _ _ => exact h.elim

/-- Whether a record holds in a slot what is given to it depends on the slot only. -/
theorem Holds.congr {s : Slot σ} {before before' x x' : σ} {js : List Json} (h : s.Holds before x js)
    (hbefore : s.get before' = s.get before) (hx : s.get x' = s.get x) : s.Holds before' x' js := by
  cases js with
  | nil => exact (hx.trans h).trans hbefore.symm
  | cons j rest =>
    cases rest with
    | nil =>
      show s.form.means j (s.get x')
      rw [hx]
      exact h
    | cons _ _ => exact h.elim

end Slot

/-- The slots of a record, and the record that they are filled in from. -/
structure Layout (σ : Type) where
  slots : List (Slot σ)
  start : σ
  nodup : (slots.map (·.name)).Nodup
  get_put : ∀ s ∈ slots, ∀ v x, s.get (s.put v x) = v
  get_put_of_ne : ∀ s ∈ slots, ∀ t ∈ slots, t.name ≠ s.name → ∀ v x, t.get (s.put v x) = t.get x
  ext : ∀ {x y : σ}, (∀ s ∈ slots, s.get x = s.get y) → x = y

/-- The items of an array give the slots in turn; those that are left out at the end hold what they held before. -/
inductive Lists {σ : Type} : List (Slot σ) → σ → List Json → σ → Prop
  | short {slots : List (Slot σ)} {x : σ} : (∀ s ∈ slots, s.required = false) → Lists slots x [] x
  | item {s : Slot σ} {slots : List (Slot σ)} {x y : σ} {j : Json} {js : List Json} {v : s.Value} :
      s.form.means j v → Lists slots (s.put v x) js y → Lists (s :: slots) x (j :: js) y

/-- Items for slots that are alike in turn. -/
def AlikeItems {σ : Type} : List (Slot σ) → List Json → List Json → Prop
  | _, [], [] => True
  | s :: slots, j :: js, j' :: js' => s.form.alike j j' ∧ AlikeItems slots js js'
  | _, _, _ => False

/-- Items that give slots in turn are alike to themselves. -/
theorem Lists.alike {σ : Type} {slots : List (Slot σ)} {x y : σ} {js : List Json} (h : Lists slots x js y) :
    AlikeItems slots js js := by
  induction h with
  | @short slots x _ => cases slots <;> trivial
  | item hv _ ih => exact ⟨Form.refl _ hv, ih⟩

/-- Items that are alike give the same record. -/
theorem Lists.sound {σ : Type} {slots : List (Slot σ)} {x y y' : σ} {js js' : List Json} (h : Lists slots x js y)
    (halike : AlikeItems slots js js') (h' : Lists slots x js' y') : y = y' := by
  induction h generalizing js' with
  | short hs =>
    cases js' with
    | nil =>
      cases h'
      rfl
    | cons _ _ =>
      cases h'
      exact halike.elim
  | item hv _ ih =>
    cases js' with
    | nil => exact halike.elim
    | cons j' js' =>
      cases h' with
      | item hv' hrest' =>
        rw [← Form.sound _ halike.1 hv hv'] at hrest'
        exact ih halike.2 hrest'

namespace Layout

variable {σ : Type} (l : Layout σ)

/-- There is a slot of the name. -/
def Knows (name : String) : Prop := ∃ s ∈ l.slots, s.name = name

/-- The members give every slot at most once and a value of its form; the values of other members are nested less than a
hundred levels deep. -/
structure Typed (ms : List (List Char × Json)) : Prop where
  slots : ∀ s ∈ l.slots, s.Typed (valuesOf s.name ms)
  asides : ∀ m ∈ ms, ¬ l.Knows (String.ofList m.1) → depth m.2 < 100

/-- The record is the one at the start, with exactly those slots replaced that the members give. -/
structure Describes (ms : List (List Char × Json)) (x : σ) : Prop where
  typed : l.Typed ms
  holds : ∀ s ∈ l.slots, s.Holds l.start x (valuesOf s.name ms)

/-- The members give the same slots, with values that are alike. -/
def Alike (ms ms' : List (List Char × Json)) : Prop :=
  ∀ s ∈ l.slots, List.Forall₂ s.form.alike (valuesOf s.name ms) (valuesOf s.name ms')

variable {l}

/-- Members that are in order are alike to themselves. -/
theorem Typed.alike {ms : List (List Char × Json)} (h : l.Typed ms) : l.Alike ms ms := fun s hs => (h.slots s hs).alike

/-- The members of names that there are slots of. -/
def known (l : Layout σ) (ms : List (List Char × Json)) : List (List Char × Json) :=
  ms.filter fun m => (l.slots.map (·.name)).contains (String.ofList m.1)

/-- The values of a slot are among those of known names. -/
theorem valuesOf_known {s : Slot σ} (hs : s ∈ l.slots) (ms : List (List Char × Json)) :
    valuesOf s.name (l.known ms) = valuesOf s.name ms := by
  rw [valuesOf_eq, valuesOf_eq, known, List.filter_filter]
  congr 1
  refine List.filter_congr fun m _ => ?_
  by_cases hname : String.ofList m.1 = s.name
  · have hmem : s.name ∈ l.slots.map (·.name) := List.mem_map.2 ⟨s, hs, rfl⟩
    simp [hname, List.mem_map.1 hmem]
  · simp [hname]

/-- Members are alike if those of names that there are slots of are the same, in whatever order. -/
theorem Typed.alike_of_perm {ms ms' : List (List Char × Json)} (h : l.Typed ms)
    (hperm : (l.known ms).Perm (l.known ms')) : l.Alike ms ms' := by
  intro s hs
  have hvalues : (valuesOf s.name ms).Perm (valuesOf s.name ms') := by
    rw [← valuesOf_known hs ms, ← valuesOf_known hs ms', valuesOf_eq, valuesOf_eq]
    exact (hperm.filter _).map _
  rw [(h.slots s hs).eq_of_perm hvalues]
  exact (h.slots s hs).alike

/-- Members that are alike describe the same record. -/
theorem Describes.sound {ms ms' : List (List Char × Json)} {x x' : σ} (h : l.Describes ms x) (halike : l.Alike ms ms')
    (h' : l.Describes ms' x') : x = x' := by
  refine l.ext fun s hs => ?_
  exact Slot.holds_sound (halike s hs) (h.holds s hs) (h'.holds s hs)

/-- Members that give the same values to every slot describe the same record. -/
theorem Describes.congr {ms ms' : List (List Char × Json)} {x : σ} (h : l.Describes ms x)
    (hvalues : ∀ s ∈ l.slots, valuesOf s.name ms' = valuesOf s.name ms)
    (hasides : ∀ m ∈ ms', ¬ l.Knows (String.ofList m.1) → depth m.2 < 100) : l.Describes ms' x := by
  refine ⟨⟨fun s hs => ?_, hasides⟩, fun s hs => ?_⟩
  · rw [hvalues s hs]
    exact h.typed.slots s hs
  · rw [hvalues s hs]
    exact h.holds s hs

/-- A member of a name that no slot has is not one of the values of any slot. -/
theorem valuesOf_aside {n : List Char} (hn : ¬ l.Knows (String.ofList n)) {s : Slot σ} (hs : s ∈ l.slots) (j : Json)
    (ms : List (List Char × Json)) : valuesOf s.name ((n, j) :: ms) = valuesOf s.name ms :=
  valuesOf_cons_other (fun heq => hn ⟨s, hs, heq.symm⟩) j ms

/-- A member of another name does not count. -/
theorem Describes.cons_aside {ms : List (List Char × Json)} {x : σ} (h : l.Describes ms x) {n : List Char}
    (hn : ¬ l.Knows (String.ofList n)) {j : Json} (hj : depth j < 100) : l.Describes ((n, j) :: ms) x :=
  h.congr (fun _ hs => valuesOf_aside hn hs j ms) (List.forall_mem_cons.2 ⟨fun _ => hj, h.typed.asides⟩)

/-- The JSON values that stand for a record: objects, or arrays of its slots in turn. -/
def formMeans (l : Layout σ) : Json → σ → Prop
  | .object ms, x => l.Describes ms x
  | .array js, x => Lists l.slots l.start js x
  | _, _ => False

/-- The JSON values for a record that differ in nothing that counts. -/
def formAlike (l : Layout σ) : Json → Json → Prop
  | .object ms, .object ms' => l.Alike ms ms'
  | .array js, .array js' => AlikeItems l.slots js js'
  | _, _ => False

/-- Records are written as objects or arrays. -/
def form (l : Layout σ) : Form σ where
  means := l.formMeans
  alike := l.formAlike
  refl := by
    intro j x h
    cases j with
    | object ms => exact Typed.alike (Describes.typed h)
    | array js => exact Lists.alike h
    | _ => exact h.elim
  sound := by
    intro j j' x x' h hx hx'
    cases j with
    | object ms =>
      cases j' with
      | object ms' => exact Describes.sound hx h hx'
      | _ => exact h.elim
    | array js =>
      cases j' with
      | array js' => exact Lists.sound hx h hx'
      | _ => exact h.elim
    | _ => exact h.elim

/-! ### Filling a record in -/

/-- Members that are taken one after the other, with the names of the slots that were given before, lead from one record to
another. -/
inductive Fill (l : Layout σ) : List String → σ → List (List Char × Json) → σ → Prop
  | done {seen : List String} {x : σ} : (∀ s ∈ l.slots, s.required = true → s.name ∈ seen) → Fill l seen x [] x
  | slot {seen : List String} {x y : σ} {s : Slot σ} {n : List Char} {j : Json} {v : s.Value}
      {ms : List (List Char × Json)} : s ∈ l.slots → String.ofList n = s.name → s.name ∉ seen → s.form.means j v →
      Fill l (s.name :: seen) (s.put v x) ms y → Fill l seen x ((n, j) :: ms) y
  | aside {seen : List String} {x y : σ} {n : List Char} {j : Json} {ms : List (List Char × Json)} :
      ¬ l.Knows (String.ofList n) → depth j < 100 → Fill l seen x ms y → Fill l seen x ((n, j) :: ms) y

/-- What members do to a record from some place on, where the slots of some names were given before. -/
structure Rest (l : Layout σ) (seen : List String) (x : σ) (ms : List (List Char × Json)) (y : σ) : Prop where
  given : ∀ s ∈ l.slots, s.name ∈ seen → valuesOf s.name ms = [] ∧ s.get y = s.get x
  ahead : ∀ s ∈ l.slots, s.name ∉ seen → s.Typed (valuesOf s.name ms) ∧ s.Holds x y (valuesOf s.name ms)
  asides : ∀ m ∈ ms, ¬ l.Knows (String.ofList m.1) → depth m.2 < 100

/-- A slot that is given at the head of the members is given nowhere else. -/
theorem Rest.next {seen : List String} {x y : σ} {s : Slot σ} {n : List Char} {j : Json} {ms : List (List Char × Json)}
    (h : l.Rest seen x ((n, j) :: ms) y) (hs : s ∈ l.slots) (hn : String.ofList n = s.name) :
    s.name ∉ seen ∧ s.form.means j (s.get y) ∧ l.Rest (s.name :: seen) (s.put (s.get y) x) ms y := by
  have hvalues := valuesOf_cons_same hn j ms
  have hseen : s.name ∉ seen := by
    intro hseen
    nomatch hvalues.symm.trans (h.given s hs hseen).1
  obtain ⟨-, hholds⟩ := h.ahead s hs hseen
  rw [hvalues] at hholds
  have honly : valuesOf s.name ms = [] ∧ s.form.means j (s.get y) := by
    cases hrest : valuesOf s.name ms with
    | nil =>
      rw [hrest] at hholds
      exact ⟨rfl, hholds⟩
    | cons _ _ =>
      rw [hrest] at hholds
      exact hholds.elim
  -- What is said about the other slots was said by the members that are still to come.
  have hother : ∀ t ∈ l.slots, t.name ≠ s.name →
      valuesOf t.name ((n, j) :: ms) = valuesOf t.name ms ∧ t.get (s.put (s.get y) x) = t.get x := by
    intro t ht hname
    exact ⟨valuesOf_cons_other (fun h => hname (h.symm.trans hn)) j ms, l.get_put_of_ne s hs t ht hname _ _⟩
  refine ⟨hseen, honly.2, ?_, ?_, fun m hm => h.asides m (List.mem_cons_of_mem _ hm)⟩
  · intro t ht hts
    by_cases hname : t.name = s.name
    · obtain rfl := List.inj_on_of_nodup_map l.nodup ht hs hname
      exact ⟨honly.1, (l.get_put t hs _ _).symm⟩
    · obtain ⟨hvalues, hget⟩ := hother t ht hname
      obtain ⟨hnone, hkept⟩ := h.given t ht ((List.mem_cons.1 hts).resolve_left hname)
      exact ⟨hvalues.symm.trans hnone, hkept.trans hget.symm⟩
  · intro t ht hts
    obtain ⟨hname, hunseen⟩ := not_or.1 (mt List.mem_cons.2 hts)
    obtain ⟨hvalues, hget⟩ := hother t ht hname
    obtain ⟨htyped, hheld⟩ := h.ahead t ht hunseen
    rw [hvalues] at htyped hheld
    exact ⟨htyped, hheld.congr hget rfl⟩

/-- Members that describe a record lead to it. By induction on the members. -/
theorem Rest.fill {seen : List String} {x y : σ} {ms : List (List Char × Json)} (h : l.Rest seen x ms y) :
    l.Fill seen x ms y := by
  induction ms generalizing seen x with
  | nil =>
    have hxy : x = y := by
      refine l.ext fun s hs => ?_
      by_cases hseen : s.name ∈ seen
      · exact (h.given s hs hseen).2.symm
      · exact (h.ahead s hs hseen).2.symm
    rw [hxy]
    refine .done fun s hs hrequired => ?_
    by_contra hseen
    nomatch hrequired.symm.trans (h.ahead s hs hseen).1
  | cons m ms ih =>
    obtain ⟨n, j⟩ := m
    by_cases hknown : l.Knows (String.ofList n)
    · obtain ⟨s, hs, hn⟩ := hknown
      obtain ⟨hseen, hmeans, hrest⟩ := h.next hs hn.symm
      exact .slot hs hn.symm hseen hmeans (ih hrest)
    · have hvalues : ∀ s ∈ l.slots, valuesOf s.name ((n, j) :: ms) = valuesOf s.name ms :=
        fun s hs => valuesOf_aside hknown hs j ms
      refine .aside hknown (h.asides _ List.mem_cons_self hknown) (ih ⟨?_, ?_, ?_⟩)
      · intro s hs hseen
        rw [← hvalues s hs]
        exact h.given s hs hseen
      · intro s hs hseen
        rw [← hvalues s hs]
        exact h.ahead s hs hseen
      · exact fun m hm => h.asides m (List.mem_cons_of_mem _ hm)

/-- A record that is described by members is the one that they fill in. -/
theorem Describes.fill {ms : List (List Char × Json)} {x : σ} (h : l.Describes ms x) : l.Fill [] l.start ms x :=
  Rest.fill ⟨fun _ _ hs => (List.not_mem_nil hs).elim, fun s hs _ => ⟨h.typed.slots s hs, h.holds s hs⟩, h.typed.asides⟩

/-! ### Every choice of slots describes a record -/

/-- A record can be made to hold in a slot what is given to it. -/
theorem exists_holds {s : Slot σ} (hs : s ∈ l.slots) {js : List Json} (h : s.Typed js) (x : σ) :
    ∃ y, s.Holds x y js ∧ ∀ t ∈ l.slots, t.name ≠ s.name → t.get y = t.get x := by
  cases js with
  | nil => exact ⟨x, rfl, fun _ _ _ => rfl⟩
  | cons j rest =>
    cases rest with
    | nil =>
      obtain ⟨v, hv⟩ := h
      refine ⟨s.put v x, ?_, fun t ht hname => l.get_put_of_ne s hs t ht hname v x⟩
      show s.form.means j (s.get (s.put v x))
      rw [l.get_put s hs]
      exact hv
    | cons _ _ => exact h.elim

/-- The slots of a list are filled in one after the other, while the others are still as they are at the start. -/
theorem Typed.holds_each {ms : List (List Char × Json)} (h : l.Typed ms) {slots : List (Slot σ)}
    (hslots : ∀ s ∈ slots, s ∈ l.slots) (hnodup : (slots.map (·.name)).Nodup) :
    ∃ x, (∀ s ∈ slots, s.Holds l.start x (valuesOf s.name ms)) ∧
      ∀ t ∈ l.slots, t.name ∉ slots.map (·.name) → t.get x = t.get l.start := by
  induction slots with
  | nil => exact ⟨l.start, fun s hs => (List.not_mem_nil hs).elim, fun _ _ _ => rfl⟩
  | cons s rest ih =>
    obtain ⟨hfresh, hrest⟩ := List.nodup_cons.1 hnodup
    obtain ⟨hs, hmore⟩ := List.forall_mem_cons.1 hslots
    obtain ⟨x, hx, hkept⟩ := ih hmore hrest
    obtain ⟨y, hy, hothers⟩ := exists_holds hs (h.slots s hs) x
    refine ⟨y, List.forall_mem_cons.2 ⟨hy.congr (hkept s hs hfresh).symm rfl, ?_⟩, ?_⟩
    · intro t ht
      have hname : t.name ≠ s.name := fun heq => hfresh (List.mem_map.2 ⟨t, ht, heq⟩)
      exact (hx t ht).congr rfl (hothers t (hmore t ht) hname)
    · intro t ht hname
      obtain ⟨hne, hnot⟩ := not_or.1 (mt List.mem_cons.2 hname)
      exact (hothers t ht hne).trans (hkept t ht hnot)

/-- Members that give every slot at most once, and a value of its form, describe a record. -/
theorem Typed.describes {ms : List (List Char × Json)} (h : l.Typed ms) : ∃ x, l.Describes ms x := by
  obtain ⟨x, hx, -⟩ := h.holds_each (fun _ hs => hs) l.nodup
  exact ⟨x, h, hx⟩

end Layout

/-! ## Values of one of several kinds -/

/-- One of several kinds: its tag, and the records that it is made of. -/
structure Kind (α : Type) where
  Content : Type
  tag : String
  layout : Layout Content
  wrap : Content → α

/-- Kinds that are told apart by a member, the first item if they are written as arrays. -/
structure Family (α : Type) where
  key : String
  kinds : List (Kind α)
  tag_inj : ∀ k ∈ kinds, ∀ k' ∈ kinds, k.tag = k'.tag → k = k'
  /-- No kind has a slot of the name that tells the kinds apart. -/
  key_free : ∀ k ∈ kinds, ¬ k.layout.Knows key
  shallow : ∀ k ∈ kinds, ∀ s ∈ k.layout.slots, ∀ j v, s.form.means j v → depth j < 100

namespace Family

variable {α : Type} (f : Family α)

/-- The members name a kind. -/
def Names (ms : List (List Char × Json)) (k : Kind α) : Prop := valuesOf f.key ms = [.text k.tag.toList]

/-- The JSON values that stand for a value of some kind. -/
def formMeans : Json → α → Prop
  | .object ms, a => ∃ k ∈ f.kinds, ∃ x, a = k.wrap x ∧ f.Names ms k ∧ k.layout.Describes ms x
  | .array (j :: js), a =>
    ∃ k ∈ f.kinds, ∃ x, a = k.wrap x ∧ j = .text k.tag.toList ∧ Lists k.layout.slots k.layout.start js x
  | _, _ => False

/-- The JSON values for values of the same kind that differ in nothing that counts. -/
def formAlike : Json → Json → Prop
  | .object ms, .object ms' => ∃ k ∈ f.kinds, f.Names ms k ∧ f.Names ms' k ∧ k.layout.Alike ms ms'
  | .array (j :: js), .array (j' :: js') =>
    ∃ k ∈ f.kinds, j = .text k.tag.toList ∧ j' = .text k.tag.toList ∧ AlikeItems k.layout.slots js js'
  | _, _ => False

variable {f}

/-- Kinds have different tags. -/
theorem eq_of_text {k k' : Kind α} (hk : k ∈ f.kinds) (hk' : k' ∈ f.kinds)
    (h : Json.text k.tag.toList = .text k'.tag.toList) : k = k' := by
  refine f.tag_inj k hk k' hk' ?_
  injection h with h
  exact String.toList_inj.1 h

/-- Members name one kind only. -/
theorem Names.unique {ms : List (List Char × Json)} {k k' : Kind α} (hk : k ∈ f.kinds) (hk' : k' ∈ f.kinds)
    (h : f.Names ms k) (h' : f.Names ms k') : k = k' := by
  injection Eq.trans (Eq.symm h) h' with htext
  exact eq_of_text hk hk' htext

variable (f)

/-- Values of one of several kinds are written as objects or arrays. -/
def form : Form α where
  means := f.formMeans
  alike := f.formAlike
  refl := by
    intro j a h
    match j, h with
    | .object ms, ⟨k, hk, x, _, hnames, hx⟩ => exact ⟨k, hk, hnames, hnames, hx.typed.alike⟩
    | .array (j :: js), ⟨k, hk, x, _, hj, hx⟩ => exact ⟨k, hk, hj, hj, hx.alike⟩
  sound := by
    intro j j' a a' h ha ha'
    match j, j', h with
    | .object ms, .object ms', ⟨k, hk, hnames, hnames', halike⟩ =>
      obtain ⟨k₁, hk₁, x, rfl, hn, hx⟩ := ha
      obtain ⟨k₂, hk₂, x', rfl, hn', hx'⟩ := ha'
      obtain rfl := Names.unique hk hk₁ hnames hn
      obtain rfl := Names.unique hk hk₂ hnames' hn'
      rw [hx.sound halike hx']
    | .array (j :: js), .array (j' :: js'), ⟨k, hk, htag, htag', halike⟩ =>
      obtain ⟨k₁, hk₁, x, rfl, hj, hx⟩ := ha
      obtain ⟨k₂, hk₂, x', rfl, hj', hx'⟩ := ha'
      obtain rfl := eq_of_text hk hk₁ (htag.symm.trans hj)
      obtain rfl := eq_of_text hk hk₂ (htag'.symm.trans hj')
      rw [hx.sound halike hx']

end Family

end Peripheral.Json
