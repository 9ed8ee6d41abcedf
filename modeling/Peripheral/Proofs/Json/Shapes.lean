import Peripheral.Json.Tagged
import Peripheral.Proofs.Json.Layout
import Peripheral.Proofs.Json.Lexing
import Peripheral.Proofs.Json.Reading

/-!
# Reading values of a form

A shape reads a form if it arrives at the value that is meant, at the end of the words of every JSON value that means it.
Leaves do so by themselves; a list does if its items do, a record if its slots do, and a value of one of several kinds if
what stands beside the tag can be taken apart again.
-/

namespace Peripheral.Json

/-- The shape reads the words of every value of the form. -/
def Shape.Reads {α : Type} (s : Shape α) (f : Form α) : Prop :=
  ∀ ⦃j a⦄, f.means j a → ∀ ⦃ts⦄, Phrase (.value j) ts → ∀ rest, s.read (ts ++ rest) = .ok (a, rest)

/-- The shape takes every value of the form apart. -/
def Shape.Parts {α : Type} (s : Shape α) (f : Form α) : Prop := ∀ ⦃j a⦄, f.means j a → s.ofJson? j = some a

/-- A text of a form is read to its end. -/
theorem Shape.Reads.parse {α : Type} {s : Shape α} {f : Form α} (h : s.Reads f) {text : String} {j : Json} {a : α}
    (ht : Denotes text j) (hj : f.means j a) : s.parse text = .ok a := by
  obtain ⟨ts, hphrase, hspelling⟩ := ht
  have hread := h hj hphrase []
  rw [List.append_nil] at hread
  rw [Shape.parse, tokens_spelling hspelling, hread]
  rfl

/-! ## Leaves -/

/-- A value that is a number is a single word. -/
theorem Phrase.number_inv {v : Number} {ts : List Token} (h : Phrase (.value (.number v)) ts) :
    ∃ n : Numeral, ts = [.number n] ∧ n.value? = some v := by
  cases h with
  | leaf hl =>
    cases hl with
    | number hv => exact ⟨_, rfl, hv⟩

/-- Only nothing is written as null. -/
theorem Phrase.null_inv {j : Json} {ts : List Token} (h : Phrase (.value j) (.null :: ts)) : j = .null := by
  cases h with
  | leaf hl =>
    cases hl
    rfl

/-- A value that is a text is a single word. -/
theorem Phrase.text_inv {s : List Char} {ts : List Token} (h : Phrase (.value (.text s)) ts) :
    ∃ q : Quoted, ts = [.text q] ∧ q.chars = .ok s := by
  cases h with
  | leaf hl =>
    cases hl with
    | text hs => exact ⟨_, rfl, hs⟩

namespace Form

/-- Numbers of some type, each by its value. -/
def number {α : Type} (toNat : α → Nat) (inj : ∀ ⦃a a'⦄, toNat a = toNat a' → a = a') : Form α :=
  .exact (fun j a => j = .number (.natural (toNat a))) (by
    rintro j a a' rfl h
    injection h with h
    injection h with h
    exact inj h)

/-- Floating-point numbers, for which every number stands. -/
def real : Form Float :=
  .exact (fun j x => ∃ n, j = .number n ∧ x = n.toFloat) (by
    rintro j x x' ⟨n, rfl, rfl⟩ ⟨n', h, rfl⟩
    cases h
    rfl)

/-- Texts. -/
def text : Form String :=
  .exact (fun j s => j = .text s.toList) (by
    rintro j s s' rfl h
    injection h with h
    exact String.toList_inj.1 h)

/-- What may be null, besides the values of a form in which everything counts. -/
def optional {α : Type} (means : Json → α → Prop) (unique : ∀ ⦃j a a'⦄, means j a → means j a' → a = a')
    (hnull : ∀ a, ¬ means .null a) : Form (Option α) :=
  .exact (fun j a? => match a? with | none => j = .null | some a => means j a) (by
    intro j a? a?' h h'
    cases a? with
    | none =>
      cases h
      cases a?' with
      | none => rfl
      | some a' => exact (hnull a' h').elim
    | some a =>
      cases a?' with
      | none =>
        cases h'
        exact (hnull a h).elim
      | some a' => rw [unique h h'])

end Form

namespace Shape

/-- A bounded number is read as it stands. -/
theorem reads_number {α : Type} {toNat : α → Nat} {inj : ∀ ⦃a a'⦄, toNat a = toNat a' → a = a'} {bound : Nat} {ofNat : Nat → α}
    (hlt : ∀ a, toNat a < bound) (hof : ∀ a, ofNat (toNat a) = a) :
    ((natural bound).map ofNat).Reads (.number toNat inj) := by
  rintro j a rfl ts hts rest
  obtain ⟨n, rfl, hn⟩ := hts.number_inv
  simp only [map, natural, List.singleton_append, readLeaf, hn, Option.bind_some, hlt, if_true, Except.map, hof]

theorem parts_number {α : Type} {toNat : α → Nat} {inj : ∀ ⦃a a'⦄, toNat a = toNat a' → a = a'} {bound : Nat} {ofNat : Nat → α}
    (hlt : ∀ a, toNat a < bound) (hof : ∀ a, ofNat (toNat a) = a) :
    ((natural bound).map ofNat).Parts (.number toNat inj) := by
  rintro j a rfl
  simp only [map, natural, hlt, if_true, Option.map_some, hof]

/-- A floating-point number is read as it stands. -/
theorem reads_real : real.Reads .real := by
  rintro j _ ⟨v, rfl, rfl⟩ ts hts rest
  obtain ⟨n, rfl, hn⟩ := hts.number_inv
  simp only [real, List.singleton_append, readLeaf, hn, Option.map_some]

theorem parts_real : real.Parts .real := by
  rintro j _ ⟨v, rfl, rfl⟩
  rfl

/-- A text is read as it stands. -/
theorem reads_text : text.Reads .text := by
  rintro j s rfl ts hts rest
  obtain ⟨q, rfl, hq⟩ := hts.text_inv
  simp [text, readLeaf, hq, Except.toOption]

/-- A value that may be null is read as it stands, if the others are. -/
theorem reads_optional {α : Type} {s : Shape α} {means : Json → α → Prop} {unique} {hnull : ∀ a, ¬ means .null a}
    (h : s.Reads (.exact means unique)) : s.optional.Reads (.optional means unique hnull) := by
  intro j a? ha ts hts rest
  cases a? with
  | none =>
    cases ha
    cases hts with
    | leaf hl =>
      cases hl
      rfl
  | some a =>
    have hread := h ha hts rest
    obtain ⟨t, us, rfl, -⟩ := hts.opens
    have hword : t ≠ .null := by
      rintro rfl
      rw [hts.null_inv] at ha
      exact hnull a ha
    have hsome : s.optional.read (t :: us ++ rest) = (s.read (t :: us ++ rest)).map fun r => (some r.1, r.2) := by
      cases t with
      | null => exact absurd rfl hword
      | _ => rfl
    rw [hsome, hread]
    rfl

/-- The first word of an array whose items start with it. -/
theorem nextItem_separator {j : Json} {ts : List Token} (h : Phrase (.value j) ts) (first : Bool) (rest : List Token) :
    nextItem first (separator first ++ ts ++ rest) = .ok (some (ts ++ rest)) := by
  obtain ⟨t, us, rfl, ht⟩ := h.opens
  cases first <;> cases t <;> first | rfl | nomatch ht

/-- The words of a list are as many as there are items, at least. -/
theorem length_items {first : Bool} {js : List Json} {ts : List Token} (h : Phrase (.items first js) ts) :
    js.length ≤ ts.length := by
  induction js generalizing first ts with
  | nil => exact Nat.zero_le _
  | cons j js ih =>
    cases h with
    | item _ hj hjs =>
      obtain ⟨t, us, rfl, -⟩ := hj.opens
      have := ih hjs
      simp
      omega

/-- The items of an array are read one by one. -/
theorem itemsWithin_phrase {α : Type} {s : Shape α} {f : Form α} (h : s.Reads f) {js : List Json} {as : List α}
    (hjs : List.Forall₂ f.means js as) {first : Bool} {ts : List Token} (hts : Phrase (.items first js) ts) {n : Nat}
    (hn : js.length < n) (rest : List Token) :
    itemsWithin s n first (ts ++ .closeArray :: rest) = .ok (as, rest) := by
  induction hjs generalizing first ts n with
  | nil =>
    cases hts
    obtain ⟨m, rfl⟩ := Nat.exists_eq_add_of_lt hn
    cases first <;> simp [itemsWithin, nextItem, bind, Except.bind]
  | @cons j a js as hj _ ih =>
    obtain ⟨m, rfl⟩ := Nat.exists_eq_add_of_lt hn
    cases hts with
    | @item _ _ _ us vs hus hvs =>
      have hread := h hj hus (vs ++ .closeArray :: rest)
      have hmore := ih hvs (n := js.length + 1 + m) (by omega)
      rw [List.append_assoc, itemsWithin, nextItem_separator hus]
      simp [bind, Except.bind, hread, hmore]

/-- A list is read from an array, if its items are. -/
theorem reads_array {α : Type} {s : Shape α} {f : Form α} (h : s.Reads f) : s.array.Reads f.list := by
  intro j as hj ts hts rest
  cases j with
  | array js =>
    cases hts with
    | leaf hl => nomatch hl
    | @array _ us hus =>
      have hlen := length_items hus
      simp only [array, List.cons_append, List.append_assoc, List.nil_append]
      refine itemsWithin_phrase h hj hus ?_ rest
      simp
      omega
  | _ => exact hj.elim

theorem parts_array {α : Type} {s : Shape α} {f : Form α} (h : s.Parts f) : s.array.Parts f.list := by
  intro j as hj
  cases j with
  | array js =>
    have hall : ∀ {js as}, List.Forall₂ f.means js as → js.mapM s.ofJson? = some as := by
      intro js as hjs
      induction hjs with
      | nil => rfl
      | cons ha _ ih => simp [List.mapM_cons, h ha, ih]
    exact hall hj
  | _ => exact hj.elim

end Shape

end Peripheral.Json
