import Peripheral.Json.Shape
import Peripheral.Proofs.Json.Lexing
import Peripheral.Proofs.Json.Printing

/-!
# Written numbers

What is written for a natural number of 64 bits is found again as it stands. What is written for a finite floating-point
number is always a number of JSON, and never one that is read as an integer; so where it is read as a floating-point number,
it is found again as well.
-/

namespace Peripheral.Json

/-! ## Digits -/

theorem isDigit_of_char {c : Char} (h : c.isDigit = true) : isDigit c = true := by
  simp only [Char.isDigit, ge_iff_le, Bool.and_eq_true, decide_eq_true_eq] at h
  simp only [isDigit, Char.le_def, Bool.and_eq_true, decide_eq_true_eq]
  exact h

/-- The digits of a number are digits, and there is at least one. -/
theorem digits_digitsOf (n : Nat) : Digits (digitsOf n) where
  ne_nil := Nat.toDigits_ne_nil
  isDigit := fun _ hd => isDigit_of_char (Nat.isDigit_of_mem_toDigits (by decide) (by decide) hd)

/-- The digits of a number do not begin with a zero, unless it is zero itself. By strong induction, digit by digit from the
end. -/
theorem head?_digitsOf {n : Nat} (hn : n ≠ 0) : (digitsOf n).head? ≠ some '0' := by
  induction n using Nat.strongRecOn with
  | ind n ih =>
    rw [digitsOf, Nat.toDigits_eq_if (by decide)]
    split
    · next hlt => simpa using hn
    · next hge =>
      have hsmaller : n / 10 ≠ 0 := by omega
      have hhead := ih (n / 10) (by omega) hsmaller
      rw [digitsOf] at hhead
      rw [List.head?_append]
      cases hdigits : Nat.toDigits 10 (n / 10) with
      | nil => exact absurd hdigits Nat.toDigits_ne_nil
      | cons d ds =>
        rw [hdigits] at hhead
        exact hhead

/-! ## Natural numbers -/

/-- Digits make a number no smaller. -/
theorem le_ofDigitChars (ds : List Char) (v : Nat) : v ≤ Nat.ofDigitChars 10 ds v := by
  induction ds generalizing v with
  | nil => exact Nat.le_refl v
  | cons d ds ih =>
    rw [Nat.ofDigitChars_cons]
    exact Nat.le_trans (by omega) (ih _)

/-- Digits that fit are all taken. -/
theorem foldl_add {ds : List Char} {v taken skipped : Nat} (h : Nat.ofDigitChars 10 ds v ≤ Numeral.limit) :
    ds.foldl Numeral.Significand.add ⟨v, taken, skipped, false⟩ =
      ⟨Nat.ofDigitChars 10 ds v, taken + ds.length, skipped, false⟩ := by
  induction ds generalizing v taken with
  | nil => rfl
  | cons d ds ih =>
    rw [Nat.ofDigitChars_cons] at h ⊢
    have hnext : v * 10 + Numeral.digitValue d = 10 * v + (d.toNat - '0'.toNat) := by
      rw [Nat.mul_comm]
      rfl
    have hfits : ¬ Numeral.limit < v * 10 + Numeral.digitValue d := by
      rw [hnext]
      exact Nat.not_lt_of_le (Nat.le_trans (le_ofDigitChars ds _) h)
    have hadd : Numeral.Significand.add ⟨v, taken, skipped, false⟩ d =
        ⟨10 * v + (d.toNat - '0'.toNat), taken + 1, skipped, false⟩ := by
      rw [Numeral.Significand.add, Bool.false_or, if_neg (by simpa using hfits), hnext]
    rw [List.foldl_cons, hadd, ih h, List.length_cons]
    congr 1
    omega

/-- The numeral of a natural number. -/
def Numeral.ofNat (n : Nat) : Numeral := ⟨false, digitsOf n, [], none⟩

/-- The numeral of a natural number is spelled with its digits. -/
theorem spells_ofNat (n : Nat) : (Numeral.ofNat n).Spells (digitsOf n) := by
  have hzero : (digitsOf n).head? = some '0' → digitsOf n = ['0'] := by
    intro h
    by_cases hn : n = 0
    · rw [hn]
      rfl
    · exact absurd h (head?_digitsOf hn)
  have hall := Numeral.Spells.intro (n := .ofNat n) (digits_digitsOf n) hzero .absent .absent
  simpa [Numeral.ofNat] using hall

/-- A number that fits is found again in its digits. -/
theorem legible_natural {n : Nat} (hn : n ≤ Numeral.limit) : (Number.natural n).Legible := by
  refine ⟨.ofNat n, spells_ofNat n, ?_⟩
  have hvalue : Nat.ofDigitChars 10 (digitsOf n) 0 = n := Nat.ofDigitChars_ten_toDigits
  have hpart : (Numeral.ofNat n).wholePart = ⟨n, 0 + (digitsOf n).length, 0, false⟩ := by
    rw [Numeral.wholePart, Numeral.ofNat]
    dsimp only
    rw [foldl_add (by rw [hvalue]; exact hn), hvalue]
  have hinteger : (Numeral.ofNat n).isInteger = true := by
    rw [Numeral.isInteger, hpart]
    rfl
  rw [Numeral.value?, if_pos hinteger, hpart]
  rfl

/-! ## Floating-point numbers -/

/-- The characters of a number without a sign that is not written as an integer. -/
structure SpellsFraction (m : Numeral) (cs : List Char) : Prop where
  spells : m.Spells cs
  negative_eq : m.negative = false
  isInteger_eq : m.isInteger = false

/-- Whole digits, a fraction and an exponent spell a number that is no integer. -/
theorem spellsFraction {whole ds fraction exponent : List Char} {e : Option (Bool × List Char)} (hwhole : Digits whole)
    (hzero : whole.head? = some '0' → whole = ['0']) (hf : Fraction ds fraction) (he : Exponent e exponent)
    (hne : ds ≠ [] ∨ e ≠ none) : SpellsFraction ⟨false, whole, ds, e⟩ (whole ++ (fraction ++ exponent)) where
  spells := .intro hwhole hzero hf he
  negative_eq := rfl
  isInteger_eq := by
    rcases hne with hds | he
    · cases ds with
      | nil => exact absurd rfl hds
      | cons d ds => rfl
    · cases e with
      | none => exact absurd rfl he
      | some e => simp [Numeral.isInteger]

theorem digits_append {ds es : List Char} (hds : Digits ds) (hes : ∀ e ∈ es, isDigit e = true) : Digits (ds ++ es) where
  ne_nil := by simp [hds.ne_nil]
  isDigit := List.forall_mem_append.2 ⟨hds.isDigit, hes⟩

theorem isDigit_replicate (n : Nat) : ∀ d ∈ List.replicate n '0', isDigit d = true := by
  intro d hd
  rw [List.eq_of_mem_replicate hd]
  rfl

theorem digits_zero : Digits ['0'] := ⟨List.cons_ne_nil _ _, List.forall_mem_singleton.2 rfl⟩

section Decimals

variable {ds : List Char} (hds : Digits ds) (hhead : ds.head? ≠ some '0')

include hds hhead

/-- Zeros after the digits, and a fraction of nothing. -/
theorem spellsFraction_whole (n : Nat) :
    SpellsFraction ⟨false, ds ++ List.replicate n '0', ['0'], none⟩ (ds ++ List.replicate n '0' ++ ['.', '0']) := by
  have hzero : (ds ++ List.replicate n '0').head? = some '0' → ds ++ List.replicate n '0' = ['0'] := by
    intro h
    cases ds with
    | nil => exact absurd rfl hds.ne_nil
    | cons d ds => exact absurd h hhead
  exact spellsFraction (digits_append hds (isDigit_replicate n)) hzero (.digits digits_zero) .absent (Or.inl (by simp))

/-- A point between the digits. -/
theorem spellsFraction_point {n : Nat} (hpos : 0 < n) (hlt : n < ds.length) :
    SpellsFraction ⟨false, ds.take n, ds.drop n, none⟩ (ds.take n ++ '.' :: ds.drop n) := by
  have htake : Digits (ds.take n) := by
    refine ⟨?_, fun d hd => hds.isDigit d (List.mem_of_mem_take hd)⟩
    rw [Ne, List.take_eq_nil_iff]
    rintro (h | h)
    · omega
    · exact hds.ne_nil h
  have hdrop : Digits (ds.drop n) := by
    refine ⟨?_, fun d hd => hds.isDigit d (List.mem_of_mem_drop hd)⟩
    rw [Ne, List.drop_eq_nil_iff]
    omega
  have hzero : (ds.take n).head? = some '0' → ds.take n = ['0'] := by
    rw [List.head?_take, if_neg (by omega)]
    exact fun h => absurd h hhead
  have hall := spellsFraction htake hzero (.digits hdrop) .absent (Or.inl hdrop.ne_nil)
  rwa [List.append_nil] at hall

omit hhead in
/-- Zeros before the digits, after the point. -/
theorem spellsFraction_small (n : Nat) :
    SpellsFraction ⟨false, ['0'], List.replicate n '0' ++ ds, none⟩ ('0' :: '.' :: (List.replicate n '0' ++ ds)) := by
  have hfraction : Digits (List.replicate n '0' ++ ds) := by
    refine ⟨by simp [hds.ne_nil], List.forall_mem_append.2 ⟨isDigit_replicate n, hds.isDigit⟩⟩
  have hall := spellsFraction digits_zero (fun _ => rfl) (.digits hfraction) .absent (Or.inl hfraction.ne_nil)
  rwa [List.append_nil] at hall

/-- One digit before the point, and an exponent. -/
theorem spellsFraction_exponent {negative : Bool} {sign es : List Char} (hsign : ExponentSign negative sign)
    (hes : Digits es) :
    SpellsFraction ⟨false, ds.take 1, ds.drop 1, some (negative, es)⟩
      (ds.take 1 ++ (if ds.length = 1 then [] else '.' :: ds.drop 1) ++ 'e' :: (sign ++ es)) := by
  cases ds with
  | nil => exact absurd rfl hds.ne_nil
  | cons d ds =>
    have hd : isDigit d = true := hds.isDigit d List.mem_cons_self
    have hwhole : Digits [d] := ⟨List.cons_ne_nil _ _, List.forall_mem_singleton.2 hd⟩
    have hzero : [d].head? = some '0' → [d] = ['0'] := fun h => absurd h hhead
    have hfraction : Fraction ds (if (d :: ds).length = 1 then [] else '.' :: ds) := by
      cases ds with
      | nil => exact .absent
      | cons c ds => exact .digits ⟨List.cons_ne_nil _ _, fun c hc => hds.isDigit c (List.mem_cons_of_mem _ hc)⟩
    have hall := spellsFraction hwhole hzero hfraction (.digits (Or.inl rfl) hsign hes) (Or.inr (by simp))
    rw [List.append_assoc]
    exact hall

end Decimals

/-- What is written for a positive decimal is a number that is no integer. -/
theorem write_spellsFraction {d : Decimal} (hd : d.digits ≠ 0) : ∃ m, SpellsFraction m (realFormat.write d) := by
  have hds := digits_digitsOf d.digits
  have hhead := head?_digitsOf hd
  rw [RealFormat.write]
  generalize digitsOf d.digits = ds at hds hhead
  dsimp only
  split
  · split
    · exact ⟨_, spellsFraction_whole hds hhead _⟩
    · split
      · exact ⟨_, spellsFraction_point hds hhead (by omega) (by omega)⟩
      · exact ⟨_, spellsFraction_small hds _⟩
  · split
    · have hall := spellsFraction_exponent hds hhead .plus (digits_digitsOf (d.exponent + ds.length - 1).toNat)
      exact ⟨_, by simpa [realFormat] using hall⟩
    · have hall := spellsFraction_exponent hds hhead .minus (digits_digitsOf (-(d.exponent + ds.length - 1)).toNat)
      exact ⟨_, by simpa [realFormat] using hall⟩

/-- A sign may come before a number. -/
theorem SpellsFraction.signed {m : Numeral} {cs : List Char} (h : SpellsFraction m cs) (negative : Bool) :
    ∃ m : Numeral, m.Spells ((if negative then ['-'] else []) ++ cs) ∧ m.isInteger = false := by
  obtain ⟨hspells, hnegative, hinteger⟩ := h
  obtain ⟨hwhole, hzero, hf, he⟩ := hspells
  refine ⟨{ m with negative }, ?_, hinteger⟩
  rw [hnegative]
  exact .intro hwhole hzero hf he

/-- What is written for a finite floating-point number is a number that is no integer. -/
theorem writeReal_spells {x : Float} (hnan : x.isNaN = false) (hinf : x.isInf = false) :
    ∃ m : Numeral, m.Spells (writeReal x) ∧ m.isInteger = false := by
  have hsize : ∃ m, SpellsFraction m (if (Decimal.Binary.ofBits x.toBits).shortest.digits = 0
      then '0' :: realFormat.wholeMark.toList else realFormat.write (Decimal.Binary.ofBits x.toBits).shortest) := by
    split
    · exact ⟨_, spellsFraction digits_zero (fun _ => rfl) (.digits digits_zero) .absent (Or.inl (by simp))⟩
    · next hd => exact write_spellsFraction hd
  obtain ⟨m, hm⟩ := hsize
  rw [writeReal, hnan, hinf, if_neg (by decide)]
  by_cases hsign : x.toBits.toNat < Nat.pow 2 63
  · have hall := hm.signed false
    simp only [hsign, if_true]
    exact hall
  · have hall := hm.signed true
    simp only [hsign, if_false]
    exact hall

/-- Null is no number. -/
theorem parse_null : Shape.real.parse "null" = .error .mismatch := by decide +kernel

/-- A floating-point number that is read where one is wanted is found again anywhere. -/
theorem legible_real {x : Float} (h : Shape.real.parse (String.ofList (writeReal x)) = .ok x) : (Number.real x).Legible := by
  have hfinite : (x.isNaN || x.isInf) = false := by
    rw [Bool.eq_false_iff]
    intro hinfinite
    rw [writeReal, if_pos hinfinite] at h
    nomatch parse_null.symm.trans h
  obtain ⟨hnan, hinf⟩ := Bool.or_eq_false_iff.1 hfinite
  obtain ⟨m, hm, hinteger⟩ := writeReal_spells hnan hinf
  refine ⟨m, hm, ?_⟩
  have htokens : tokens (writeReal x) = [.number m] := tokens_spelling (Spells.word (.number hm)).spelling
  rw [Shape.parse, String.toList_ofList, htokens] at h
  have hvalue : m.value? = m.size?.map fun y => .real (if m.negative then -y else y) := by
    rw [Numeral.value?, if_neg (by rw [hinteger]; decide)]
  rw [hvalue]
  cases hsize : m.size? with
  | none =>
    rw [hsize] at hvalue
    simp [Shape.real, readLeaf, hvalue, bind, Except.bind] at h
  | some y =>
    rw [hsize] at hvalue
    simp only [Shape.real, readLeaf, hvalue, Option.map_some, Number.toFloat, bind, Except.bind] at h
    injection h with h
    rw [Option.map_some, h]

end Peripheral.Json
