import Peripheral.Proofs.Json.Grammar

/-!
# Reading words

The words of a text are found again, however it is spelled: whatever the grammar allows as the characters of a word is read
as that word, and reading stops where the word ends.
-/

namespace Peripheral.Json

/-! ## Digits -/

/-- Characters that digits before them do not go on with. -/
def EndsDigits (cs : List Char) : Prop := ∀ c, cs.head? = some c → isDigit c = false

/-- What a number does not go on with is no digit. -/
theorem Delimits.endsDigits {cs : List Char} (h : Delimits cs) : EndsDigits cs := fun c hc => (h c hc).1

/-- The digits that come first are taken whole. -/
theorem takeWhile_digits {ds cs : List Char} (hds : ∀ d ∈ ds, isDigit d = true) (hcs : EndsDigits cs) :
    (ds ++ cs).takeWhile isDigit = ds := by
  rw [List.takeWhile_append_of_pos hds]
  cases cs with
  | nil => simp
  | cons c rest => simp [hcs c rfl]

/-- What comes after the digits remains. -/
theorem dropWhile_digits {ds cs : List Char} (hds : ∀ d ∈ ds, isDigit d = true) (hcs : EndsDigits cs) :
    (ds ++ cs).dropWhile isDigit = cs := by
  rw [List.dropWhile_append_of_pos hds]
  cases cs with
  | nil => rfl
  | cons c rest => simp [hcs c rfl]

/-- Digits are not nothing. -/
theorem Digits.isEmpty_eq {ds : List Char} (h : Digits ds) : ds.isEmpty = false := by
  cases ds with
  | nil => exact absurd rfl h.ne_nil
  | cons d rest => rfl

/-- A digit is no other character that has a meaning of its own. -/
theorem ne_of_isDigit {c x : Char} (hc : isDigit c = true) (hx : isDigit x = false) : c ≠ x := by
  rintro rfl
  nomatch hc.symm.trans hx

/-! ## Numbers -/

section Numbers

variable {n : Numeral} {cs rest : List Char}

/-- Neither a digit nor a point comes after the fraction of a number. -/
theorem Exponent.head {e : Option (Bool × List Char)} (h : Exponent e cs) (hrest : Delimits rest) {c : Char}
    (hc : (cs ++ rest).head? = some c) : isDigit c = false ∧ c ≠ '.' := by
  cases h with
  | absent => exact ⟨(hrest c hc).1, (hrest c hc).2.1⟩
  | digits hmark _ _ =>
    cases hc
    rcases hmark with rfl | rfl <;> decide

/-- No digit comes after the whole part of a number. -/
theorem Fraction.head {ds : List Char} (h : Fraction ds cs) (hrest : EndsDigits rest) : EndsDigits (cs ++ rest) := by
  cases h with
  | absent => exact hrest
  | digits _ =>
    rintro c hc
    cases hc
    rfl

/-- An exponent is scanned as it is spelled. -/
theorem scanExponent_spells {negative : Bool} {whole fraction : List Char} {e : Option (Bool × List Char)}
    (h : Exponent e cs) (hrest : Delimits rest) :
    scanExponent ⟨negative, whole, fraction, none⟩ (cs ++ rest) = (.number ⟨negative, whole, fraction, e⟩, rest) := by
  cases h with
  | absent =>
    cases rest with
    | nil => rfl
    | cons c rest =>
      obtain ⟨-, -, he, hE⟩ := hrest c rfl
      simp [scanExponent, he, hE]
  | @digits mark negative sign ds hmark hsign hds =>
    have hempty := hds.isEmpty_eq
    have htake := takeWhile_digits hds.isDigit hrest.endsDigits
    have hdrop := dropWhile_digits hds.isDigit hrest.endsDigits
    cases hsign with
    | absent =>
      cases ds with
      | nil => nomatch hempty
      | cons d ds =>
        have hplus : d ≠ '+' := ne_of_isDigit (hds.isDigit d List.mem_cons_self) rfl
        have hminus : d ≠ '-' := ne_of_isDigit (hds.isDigit d List.mem_cons_self) rfl
        simp only [List.cons_append] at htake hdrop
        simp [scanExponent, hmark, hplus, hminus, htake, hdrop]
    | plus => simp [scanExponent, hmark, htake, hdrop, hempty]
    | minus => simp [scanExponent, hmark, htake, hdrop, hempty]

/-- A fraction and what follows it are scanned as they are spelled. -/
theorem scanFraction_spells (negative : Bool) (whole : List Char) {ds fraction exponent : List Char}
    {e : Option (Bool × List Char)} (hf : Fraction ds fraction) (he : Exponent e exponent) (hrest : Delimits rest) :
    scanFraction ⟨negative, whole, [], none⟩ (fraction ++ (exponent ++ rest)) =
      (.number ⟨negative, whole, ds, e⟩, rest) := by
  cases hf with
  | absent =>
    have hpoint : ∀ r, exponent ++ rest ≠ '.' :: r := by
      intro r hr
      exact (he.head hrest (by rw [hr]; rfl)).2 rfl
    rw [List.nil_append, scanFraction]
    · exact scanExponent_spells he hrest
    · exact hpoint
  | digits hds =>
    have hends : EndsDigits (exponent ++ rest) := fun c hc => (he.head hrest hc).1
    rw [List.cons_append, scanFraction]
    simp only [takeWhile_digits hds.isDigit hends, dropWhile_digits hds.isDigit hends, hds.isEmpty_eq,
      Bool.false_eq_true, if_false]
    exact scanExponent_spells he hrest

/-- The characters of a number without its sign are read as that number. -/
theorem scanNumber_spells {fraction exponent : List Char} (hwhole : Digits n.whole)
    (hzero : n.whole.head? = some '0' → n.whole = ['0']) (hf : Fraction n.fraction fraction)
    (he : Exponent n.exponent exponent) (hrest : Delimits rest) :
    scanNumber n.negative (n.whole ++ (fraction ++ (exponent ++ rest))) = (.number n, rest) := by
  have hends : EndsDigits (fraction ++ (exponent ++ rest)) := hf.head fun c hc => (he.head hrest hc).1
  have hscan := scanFraction_spells n.negative n.whole hf he hrest
  rw [scanNumber]
  simp only [takeWhile_digits hwhole.isDigit hends, dropWhile_digits hwhole.isDigit hends]
  split
  · next h => exact absurd h hwhole.ne_nil
  · next d ds h =>
    rw [h] at hzero
    nomatch hzero rfl
  · exact hscan

end Numbers

/-- A digit begins a number. -/
theorem scanToken_digit {c : Char} (hc : isDigit c = true) (rest : List Char) :
    scanToken c rest = scanNumber false (c :: rest) := by
  have hne : ∀ x : Char, isDigit x = false → c ≠ x := fun x hx => ne_of_isDigit hc hx
  rw [scanToken, if_neg (hne _ rfl), if_neg (hne _ rfl), if_neg (hne _ rfl), if_neg (hne _ rfl), if_neg (hne _ rfl),
    if_neg (hne _ rfl), if_neg (hne _ rfl), if_neg (hne _ rfl), if_pos hc]

/-- A digit is no blank. -/
theorem not_isBlank_digit {c : Char} (hc : isDigit c = true) : isBlank c = false := by
  have hne : ∀ x : Char, isDigit x = false → c ≠ x := fun x hx => ne_of_isDigit hc hx
  simp [isBlank, hne ' ' rfl, hne '\n' rfl, hne '\t' rfl, hne '\r' rfl]

/-- A number is scanned as it is spelled. -/
theorem scanToken_number {n : Numeral} {c : Char} {ls rest : List Char} (h : n.Spells (c :: ls)) (hrest : Delimits rest) :
    scanToken c (ls ++ rest) = (.number n, rest) ∧ isBlank c = false := by
  generalize hcs : c :: ls = cs at h
  obtain ⟨hwhole, hzero, hf, he⟩ := h
  have hscan := scanNumber_spells hwhole hzero hf he hrest
  cases hsign : n.negative with
  | true =>
    simp only [hsign, if_true, List.cons_append, List.nil_append, List.cons.injEq] at hcs
    obtain ⟨rfl, rfl⟩ := hcs
    refine ⟨?_, rfl⟩
    rw [hsign] at hscan
    simp only [List.append_assoc]
    exact hscan
  | false =>
    cases hw : n.whole with
    | nil => exact absurd hw hwhole.ne_nil
    | cons d ds =>
      simp only [hsign, hw, Bool.false_eq_true, if_false, List.cons_append, List.nil_append, List.cons.injEq] at hcs
      obtain ⟨rfl, rfl⟩ := hcs
      rw [hsign, hw] at hscan
      have hd : isDigit c = true := hwhole.isDigit c (by rw [hw]; exact List.mem_cons_self)
      refine ⟨?_, not_isBlank_digit hd⟩
      rw [scanToken_digit hd]
      simp only [List.append_assoc]
      exact hscan

/-! ## Quoted texts -/

/-- A quoted text is scanned as it is spelled. -/
theorem scanQuoted_quotation {ps : List Piece} {cs : List Char} (h : Quotation ps cs) (rest : List Char) :
    scanQuoted (cs ++ '"' :: rest) = (⟨ps, none⟩, rest) := by
  induction h with
  | nil => rfl
  | @plain c ps cs hcontrol hquote hbackslash _ ih =>
    have hlow : ¬ c.toNat < 32 := Nat.not_lt_of_le hcontrol
    rw [List.cons_append, scanQuoted, if_neg hlow, ih]
    · rfl
    · exact hquote
    -- The other ways to go on all begin with a backslash.
    all_goals
      intros
      contradiction
  | @escape letter c ps cs hescape _ ih =>
    have hunit : letter ≠ 'u' := by
      rintro rfl
      nomatch hescape
    simp only [List.cons_append]
    rw [scanQuoted, hescape]
    · simp only [ih]
      rfl
    all_goals
      intros
      contradiction
  | @unit a b c d u ps cs hunit _ ih =>
    simp only [List.cons_append]
    rw [scanQuoted, hunit]
    simp only [ih]
    rfl

/-! ## Words -/

/-- The characters of a word are read as that word, which is nowhere the end of JSON. -/
theorem scanToken_lexeme {t : Token} {c : Char} {ls rest : List Char} (h : Lexeme t (c :: ls))
    (hrest : ∀ n, t = .number n → Delimits rest) :
    scanToken c (ls ++ rest) = (t, rest) ∧ isBlank c = false ∧ t.isLast = false := by
  generalize hcs : c :: ls = cs at h
  cases h with
  | number hn =>
    cases hcs
    obtain ⟨hscan, hblank⟩ := scanToken_number hn (hrest _ rfl)
    exact ⟨hscan, hblank, rfl⟩
  | @text ps cs hq =>
    cases hcs
    refine ⟨?_, rfl, rfl⟩
    have hscan := scanQuoted_quotation hq rest
    simp [scanToken, hscan]
  | _ =>
    cases hcs
    exact ⟨rfl, rfl, rfl⟩

/-- A word has characters. -/
theorem Lexeme.ne_nil {t : Token} {ls : List Char} (h : Lexeme t ls) : ls ≠ [] := by
  cases h with
  | number hn =>
    obtain ⟨hwhole, -, -, -⟩ := hn
    simp [hwhole.ne_nil]
  | _ => exact List.cons_ne_nil _ _

/-- The words of a text are found, if as many are looked for as there are characters. -/
theorem tokensWithin_spelling {ts : List Token} {cs : List Char} (h : Spelling ts cs) {n : Nat} (hn : cs.length ≤ n) :
    tokensWithin n cs = ts := by
  induction h generalizing n with
  | nil => cases n <;> rfl
  | @blank b ts cs hb _ ih =>
    obtain ⟨m, rfl⟩ : ∃ m, n = m + 1 := ⟨n - 1, by simp at hn; omega⟩
    rw [tokensWithin, if_pos hb]
    exact ih (by simpa using hn)
  | @word t ts ls cs hl hrest _ ih =>
    cases ls with
    | nil => exact absurd rfl hl.ne_nil
    | cons c ls =>
      obtain ⟨m, rfl⟩ : ∃ m, n = m + 1 := ⟨n - 1, by simp at hn; omega⟩
      obtain ⟨hscan, hblank, hlast⟩ := scanToken_lexeme hl hrest
      have hmore : cs.length ≤ m := by
        simp at hn
        omega
      simp [tokensWithin, hblank, hscan, hlast, ih hmore]

/-- The words of a text are found, however it is spelled. -/
theorem tokens_spelling {ts : List Token} {cs : List Char} (h : Spelling ts cs) : tokens cs = ts :=
  tokensWithin_spelling h (Nat.le_refl _)

end Peripheral.Json
