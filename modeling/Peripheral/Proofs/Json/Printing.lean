import Mathlib.Data.List.Forall2
import Peripheral.Json.Printer
import Peripheral.Proofs.Json.Grammar

/-!
# Written values

What is written for a value stands for that value, without blanks and with one item to a line alike, whatever characters its
texts are made of. Of its numbers it is asked that each is found again in what is written for it.
-/

namespace Peripheral.Json

/-! ## Words and their characters -/

/-- The characters are those of the words, whatever comes after them that a number does not go on with. -/
def Spells (ts : List Token) (cs : List Char) : Prop :=
  ∀ us rest, Delimits rest → Spelling us rest → Spelling (ts ++ us) (cs ++ rest)

theorem delimits_nil : Delimits [] := fun _ h => nomatch h

/-- A number ends before a character that it does not go on with. -/
theorem delimits_cons {c : Char} (h : isDigit c = false ∧ c ≠ '.' ∧ c ≠ 'e' ∧ c ≠ 'E') (rest : List Char) :
    Delimits (c :: rest) := by
  intro d hd
  cases hd
  exact h

/-- What spells words whatever comes after them spells them when nothing does. -/
theorem Spells.spelling {ts : List Token} {cs : List Char} (h : Spells ts cs) : Spelling ts cs := by
  have hall := h [] [] delimits_nil .nil
  rwa [List.append_nil, List.append_nil] at hall

/-- The characters of a word spell it. -/
theorem Spells.word {t : Token} {ls : List Char} (h : Lexeme t ls) : Spells [t] ls :=
  fun _ _ hrest hus => .word h (fun _ _ => hrest) hus

/-- A word that is no number may be followed by anything. -/
theorem Spelling.mark {t : Token} {ls : List Char} (h : Lexeme t ls) (ht : ∀ n, t ≠ .number n) {ts : List Token}
    {cs : List Char} (hcs : Spelling ts cs) : Spelling (t :: ts) (ls ++ cs) :=
  .word h (fun n hn => absurd hn (ht n)) hcs

/-- Blanks before words do not count. -/
theorem Spelling.blanks {bs : List Char} (hbs : ∀ b ∈ bs, isBlank b = true) {ts : List Token} {cs : List Char}
    (h : Spelling ts cs) : Spelling ts (bs ++ cs) := by
  induction bs with
  | nil => exact h
  | cons b bs ih =>
    obtain ⟨hb, hrest⟩ := List.forall_mem_cons.1 hbs
    exact .blank hb (ih hrest)

/-- Blanks before words do not count, whatever comes after them. -/
theorem Spells.blanks {bs : List Char} (hbs : ∀ b ∈ bs, isBlank b = true) {ts : List Token} {cs : List Char}
    (h : Spells ts cs) : Spells ts (bs ++ cs) := by
  intro us rest hrest hus
  rw [List.append_assoc]
  exact (h us rest hrest hus).blanks hbs

/-! ## Items and members -/

/-- The words of items or members, with commas between them. -/
def separatedWords : List (List Token) → List Token
  | [] => []
  | ts :: rest => ts ++ rest.flatMap (.comma :: ·)

/-- Parts with commas between them are the first part, and then each other part behind a comma. -/
theorem separated_cons (p : List Char) (ps : List (List Char)) :
    separated (p :: ps) = p ++ ps.flatMap (',' :: ·) := by
  induction ps generalizing p with
  | nil => simp [separated]
  | cons q ps ih => rw [separated, ih, List.flatMap_cons, List.cons_append]

/-- A number ends before a comma. -/
theorem delimits_flatMap (ps : List (List Char)) {rest : List Char} (h : Delimits rest) :
    Delimits (ps.flatMap (',' :: ·) ++ rest) := by
  cases ps with
  | nil => exact h
  | cons p ps => exact delimits_cons (by decide) _

/-- Parts that are spelled each are spelled with a comma before each. -/
theorem spells_flatMap {tss : List (List Token)} {ps : List (List Char)} (h : List.Forall₂ Spells tss ps) :
    Spells (tss.flatMap (.comma :: ·)) (ps.flatMap (',' :: ·)) := by
  induction h with
  | nil => exact fun _ _ _ hus => hus
  | @cons ts p tss ps hp _ ih =>
    intro us rest hrest hus
    have hhere := hp _ _ (delimits_flatMap ps hrest) (ih us rest hrest hus)
    simp only [List.flatMap_cons, List.append_assoc, List.cons_append]
    exact hhere.mark .comma (fun _ h => nomatch h)

/-- Parts that are spelled each are spelled with commas between them. -/
theorem spells_separated {tss : List (List Token)} {ps : List (List Char)} (h : List.Forall₂ Spells tss ps) :
    Spells (separatedWords tss) (separated ps) := by
  cases h with
  | nil => exact fun _ _ _ hus => hus
  | @cons ts p tss ps hp hps =>
    intro us rest hrest hus
    have hhere := hp _ _ (delimits_flatMap ps hrest) (spells_flatMap hps us rest hrest hus)
    rw [separated_cons, separatedWords, List.append_assoc, List.append_assoc]
    exact hhere

/-- The words of values, with a comma before each, are those of further items. -/
theorem phrase_moreItems {js : List Json} {tss : List (List Token)}
    (h : List.Forall₂ (fun j ts => Phrase (.value j) ts) js tss) : Phrase (.items false js) (tss.flatMap (.comma :: ·)) := by
  induction h with
  | nil => exact .noItems false
  | cons hj _ ih => exact .item false hj ih

/-- The words of values, with commas between them, are those of items. -/
theorem phrase_items {js : List Json} {tss : List (List Token)}
    (h : List.Forall₂ (fun j ts => Phrase (.value j) ts) js tss) : Phrase (.items true js) (separatedWords tss) := by
  cases h with
  | nil => exact .noItems true
  | cons hj hjs => exact .item true hj (phrase_moreItems hjs)

/-- The words of a member. -/
inductive MemberPhrase : List Char × Json → List Token → Prop
  | intro {q : Quoted} {n : List Char} {j : Json} {ts : List Token} :
      q.chars = .ok n → Phrase (.value j) ts → MemberPhrase (n, j) (.text q :: .colon :: ts)

/-- The words of members, with a comma before each, are those of further members. -/
theorem phrase_moreMembers {ms : List (List Char × Json)} {tss : List (List Token)} (h : List.Forall₂ MemberPhrase ms tss) :
    Phrase (.members false ms) (tss.flatMap (.comma :: ·)) := by
  induction h with
  | nil => exact .noMembers false
  | cons hm _ ih =>
    cases hm with
    | intro hq hj => exact .member false hq hj ih

/-- The words of members, with commas between them, are those of members. -/
theorem phrase_members {ms : List (List Char × Json)} {tss : List (List Token)} (h : List.Forall₂ MemberPhrase ms tss) :
    Phrase (.members true ms) (separatedWords tss) := by
  cases h with
  | nil => exact .noMembers true
  | cons hm hms =>
    cases hm with
    | intro hq hj => exact .member true hq hj (phrase_moreMembers hms)

/-! ## Quoted texts -/

/-- Two hexadecimal digits are read as they are written. -/
theorem hexUnit?_lowerHex : ∀ n < 32, hexUnit? '0' '0' (lowerHex (n / 16)) (lowerHex (n % 16)) = some n := by decide

/-- A character is escaped to what stands for it. -/
theorem quotation_escape (c : Char) {ps : List Piece} {cs : List Char} (h : Quotation ps cs) :
    Quotation (.char c :: ps) (escape c ++ cs) := by
  rw [escape]
  split_ifs with h₁ h₂ h₃ h₄ h₅ h₆ h₇ h₈
  · subst h₁; exact .escape rfl h
  · subst h₂; exact .escape rfl h
  · subst h₃; exact .escape rfl h
  · subst h₄; exact .escape rfl h
  · subst h₅; exact .escape rfl h
  · subst h₆; exact .escape rfl h
  · subst h₇; exact .escape rfl h
  · have hpiece : Piece.ofUnit c.toNat = .char c := by
      have hplain : (Quoted.isHigh c.toNat || Quoted.isLow c.toNat) = false := by
        simp [Quoted.isHigh, Quoted.isLow]
        omega
      rw [Piece.ofUnit, hplain]
      simp
    rw [← hpiece]
    exact .unit (hexUnit?_lowerHex _ h₈) h
  · exact .plain (Nat.le_of_not_lt h₈) h₁ h₂ h

/-- Characters are escaped to what stands for them. -/
theorem quotation_flatMap (s : List Char) : Quotation (s.map .char) (s.flatMap escape) := by
  induction s with
  | nil => exact .nil
  | cons c s ih => exact quotation_escape c ih

/-- A quoted text without a fault has the characters of its pieces. -/
theorem charsOf_map (s : List Char) : Quoted.charsOf none (s.map .char) = .ok s := by
  induction s with
  | nil => rfl
  | cons c s ih =>
    rw [List.map_cons, Quoted.charsOf, ih]
    rfl

/-- The word for a text as it is written. -/
def quoted (s : List Char) : Quoted := ⟨s.map .char, none⟩

/-- A text has its own characters when it is quoted. -/
theorem chars_quoted (s : List Char) : (quoted s).chars = .ok s := charsOf_map s

/-- A text is quoted as a word for it. -/
theorem lexeme_quote (s : List Char) : Lexeme (.text (quoted s)) (quote s) := .text (quotation_flatMap s)

/-! ## Values -/

/-- The characters are those of words for the value. -/
def Writes (j : Json) (cs : List Char) : Prop := ∃ ts, Phrase (.value j) ts ∧ Spells ts cs

/-- What writes a value denotes it. -/
theorem Writes.denotes {j : Json} {cs : List Char} (h : Writes j cs) : Denotes (String.ofList cs) j := by
  obtain ⟨ts, hts, hcs⟩ := h
  refine ⟨ts, hts, ?_⟩
  rw [String.toList_ofList]
  exact hcs.spelling

/-- A word that is a value by itself writes it. -/
theorem Writes.leaf {t : Token} {j : Json} {ls : List Char} (hj : Leaf t j) (hls : Lexeme t ls) : Writes j ls :=
  ⟨[t], .leaf hj, .word hls⟩

/-- Blanks before a value do not count. -/
theorem Writes.blanks {bs : List Char} (hbs : ∀ b ∈ bs, isBlank b = true) {j : Json} {cs : List Char} (h : Writes j cs) :
    Writes j (bs ++ cs) := by
  obtain ⟨ts, hts, hcs⟩ := h
  exact ⟨ts, hts, hcs.blanks hbs⟩

/-- The characters are those of words for the member. -/
def WritesMember (m : List Char × Json) (cs : List Char) : Prop := ∃ ts, MemberPhrase m ts ∧ Spells ts cs

/-- Blanks before a member do not count. -/
theorem WritesMember.blanks {bs : List Char} (hbs : ∀ b ∈ bs, isBlank b = true) {m : List Char × Json} {cs : List Char}
    (h : WritesMember m cs) : WritesMember m (bs ++ cs) := by
  obtain ⟨ts, hts, hcs⟩ := h
  exact ⟨ts, hts, hcs.blanks hbs⟩

/-- A member is its name, a colon and its value. -/
theorem Writes.member {j : Json} {cs : List Char} (h : Writes j cs) (n : List Char) :
    WritesMember (n, j) (quote n ++ ':' :: cs) := by
  obtain ⟨ts, hts, hcs⟩ := h
  refine ⟨.text (quoted n) :: .colon :: ts, .intro (chars_quoted n) hts, fun us rest hrest hus => ?_⟩
  have hvalue := (hcs us rest hrest hus).mark .colon (fun _ h => nomatch h)
  rw [List.append_assoc]
  exact hvalue.mark (lexeme_quote n) (fun _ h => nomatch h)

/-- Words for each of several things, side by side. -/
theorem exists_words {α : Type} {P : α → List Token → Prop} {as : List α} {ps : List (List Char)}
    (h : List.Forall₂ (fun a p => ∃ ts, P a ts ∧ Spells ts p) as ps) :
    ∃ tss, List.Forall₂ P as tss ∧ List.Forall₂ Spells tss ps := by
  induction h with
  | nil => exact ⟨[], .nil, .nil⟩
  | cons ha _ ih =>
    obtain ⟨ts, hts, hp⟩ := ha
    obtain ⟨tss, htss, hps⟩ := ih
    exact ⟨ts :: tss, .cons hts htss, .cons hp hps⟩

/-- Words between two brackets, with blanks before the second one. -/
theorem spells_brackets {opening closing : Token} {o c : Char} (ho : Lexeme opening [o]) (hc : Lexeme closing [c])
    (hopening : ∀ n, opening ≠ .number n) (hclosing : ∀ n, closing ≠ .number n) {ts : List Token} {cs bs : List Char}
    (hcs : Spells ts cs) (hbs : ∀ b ∈ bs, isBlank b = true) (hdelimits : ∀ rest, Delimits (bs ++ c :: rest)) :
    Spells (opening :: (ts ++ [closing])) (o :: (cs ++ bs ++ [c])) := by
  intro us rest _ hus
  have hend := (hus.mark hc hclosing).blanks hbs
  have hall := (hcs _ _ (hdelimits rest) hend).mark ho hopening
  simp only [List.cons_append, List.append_assoc, List.nil_append] at hall ⊢
  exact hall

/-- A number ends before blanks if it ends before what follows them. -/
theorem delimits_blanks {bs : List Char} (hbs : ∀ b ∈ bs, isBlank b = true) {rest : List Char} (h : Delimits rest) :
    Delimits (bs ++ rest) := by
  cases bs with
  | nil => exact h
  | cons b bs =>
    have hb : isBlank b = true := hbs b List.mem_cons_self
    refine delimits_cons ?_ _
    simp only [isBlank, Bool.or_eq_true, decide_eq_true_eq] at hb
    rcases hb with ((rfl | rfl) | rfl) | rfl <;> decide

/-- An array is its items between brackets. -/
theorem writes_array {js : List Json} {ps : List (List Char)} (h : List.Forall₂ Writes js ps) {bs : List Char}
    (hbs : ∀ b ∈ bs, isBlank b = true) : Writes (.array js) ('[' :: (separated ps ++ bs ++ [']'])) := by
  obtain ⟨tss, hjs, hps⟩ := exists_words h
  refine ⟨_, .array (phrase_items hjs), ?_⟩
  exact spells_brackets .openArray .closeArray (fun _ h => nomatch h) (fun _ h => nomatch h) (spells_separated hps) hbs
    fun rest => delimits_blanks hbs (delimits_cons (by decide) rest)

/-- An object is its members between braces. -/
theorem writes_object {ms : List (List Char × Json)} {ps : List (List Char)} (h : List.Forall₂ WritesMember ms ps)
    {bs : List Char} (hbs : ∀ b ∈ bs, isBlank b = true) :
    Writes (.object ms) ('\x7b' :: (separated ps ++ bs ++ ['\x7d'])) := by
  obtain ⟨tss, hms, hps⟩ := exists_words h
  refine ⟨_, .object (phrase_members hms), ?_⟩
  exact spells_brackets .openObject .closeObject (fun _ h => nomatch h) (fun _ h => nomatch h) (spells_separated hps) hbs
    fun rest => delimits_blanks hbs (delimits_cons (by decide) rest)

/-- A number is found again in what is written for it. -/
def Number.Legible (n : Number) : Prop := ∃ m : Numeral, m.Spells (writeNumber n) ∧ m.value? = some n

mutual

/-- Every number of a value is found again in what is written for it. -/
def Legible : Json → Prop
  | .null => True
  | .bool _ => True
  | .number n => n.Legible
  | .text _ => True
  | .array items => LegibleItems items
  | .object members => LegibleMembers members

/-- Every number of some items is found again. -/
def LegibleItems : List Json → Prop
  | [] => True
  | j :: rest => Legible j ∧ LegibleItems rest

/-- Every number of some members is found again. -/
def LegibleMembers : List (List Char × Json) → Prop
  | [] => True
  | (_, j) :: rest => Legible j ∧ LegibleMembers rest

end

theorem writes_null : Writes .null ['n', 'u', 'l', 'l'] := .leaf .null .null

theorem writes_true : Writes (.bool true) ['t', 'r', 'u', 'e'] := .leaf (.bool true) .true

theorem writes_false : Writes (.bool false) ['f', 'a', 'l', 's', 'e'] := .leaf (.bool false) .false

/-- A number that is legible is written as a value. -/
theorem writes_number {n : Number} (h : n.Legible) : Writes (.number n) (writeNumber n) := by
  obtain ⟨m, hm, hn⟩ := h
  exact .leaf (.number hn) (.number hm)

/-- A text is written as a value. -/
theorem writes_text (s : List Char) : Writes (.text s) (quote s) := .leaf (.text (chars_quoted s)) (lexeme_quote s)

/-! ### Without blanks -/

mutual

/-- What is written for a value without blanks stands for it. -/
theorem writes_compact : ∀ j, Legible j → Writes j (compact j)
  | .null, _ => by
    rw [compact]
    exact writes_null
  | .bool true, _ => by
    rw [compact]
    exact writes_true
  | .bool false, _ => by
    rw [compact]
    exact writes_false
  | .number n, h => by
    rw [Legible] at h
    rw [compact]
    exact writes_number h
  | .text s, _ => by
    rw [compact]
    exact writes_text s
  | .array items, h => by
    rw [Legible] at h
    have hall := writes_array (writes_compactItems items h) (List.forall_mem_nil _)
    rwa [List.append_nil, ← compact] at hall
  | .object members, h => by
    rw [Legible] at h
    have hall := writes_object (writes_compactMembers members h) (List.forall_mem_nil _)
    rwa [List.append_nil, ← compact] at hall

/-- The items of an array are written one by one. -/
theorem writes_compactItems : ∀ js, LegibleItems js → List.Forall₂ Writes js (compactItems js)
  | [], _ => by
    rw [compactItems]
    exact .nil
  | j :: rest, h => by
    rw [LegibleItems] at h
    rw [compactItems]
    exact .cons (writes_compact j h.1) (writes_compactItems rest h.2)

/-- The members of an object are written one by one. -/
theorem writes_compactMembers : ∀ ms, LegibleMembers ms → List.Forall₂ WritesMember ms (compactMembers ms)
  | [], _ => by
    rw [compactMembers]
    exact .nil
  | (n, j) :: rest, h => by
    rw [LegibleMembers] at h
    rw [compactMembers]
    exact .cons ((writes_compact j h.1).member n) (writes_compactMembers rest h.2)

end

/-! ### With one item to a line -/

/-- A new line and its indentation are blanks. -/
theorem isBlank_newLine (depth : Nat) : ∀ b ∈ newLine depth, isBlank b = true := by
  intro b hb
  rcases List.mem_cons.1 hb with rfl | hb
  · rfl
  · rw [List.eq_of_mem_replicate hb]
    rfl

/-- Items on lines of their own write an array. -/
theorem writes_arrayBlock {js : List Json} {ps : List (List Char)} (h : List.Forall₂ Writes js ps) (depth : Nat) :
    Writes (.array js) (block '[' ']' depth ps) := by
  cases h with
  | nil => exact writes_array .nil (List.forall_mem_nil _)
  | cons hj hjs =>
    have hlines := (List.Forall₂.cons hj hjs).imp fun _ _ h => h.blanks (isBlank_newLine (depth + 1))
    exact writes_array (List.forall₂_map_right_iff.2 hlines) (isBlank_newLine depth)

/-- Members on lines of their own write an object. -/
theorem writes_objectBlock {ms : List (List Char × Json)} {ps : List (List Char)} (h : List.Forall₂ WritesMember ms ps)
    (depth : Nat) : Writes (.object ms) (block '\x7b' '\x7d' depth ps) := by
  cases h with
  | nil => exact writes_object .nil (List.forall_mem_nil _)
  | cons hm hms =>
    have hlines := (List.Forall₂.cons hm hms).imp fun _ _ h => h.blanks (isBlank_newLine (depth + 1))
    exact writes_object (List.forall₂_map_right_iff.2 hlines) (isBlank_newLine depth)

mutual

/-- What is written for a value with one item to a line stands for it. -/
theorem writes_prettyAt (depth : Nat) : ∀ j, Legible j → Writes j (prettyAt depth j)
  | .null, _ => by
    rw [prettyAt]
    exact writes_null
  | .bool true, _ => by
    rw [prettyAt]
    exact writes_true
  | .bool false, _ => by
    rw [prettyAt]
    exact writes_false
  | .number n, h => by
    rw [Legible] at h
    rw [prettyAt]
    exact writes_number h
  | .text s, _ => by
    rw [prettyAt]
    exact writes_text s
  | .array items, h => by
    rw [Legible] at h
    rw [prettyAt]
    exact writes_arrayBlock (writes_prettyItems (depth + 1) items h) depth
  | .object members, h => by
    rw [Legible] at h
    rw [prettyAt]
    exact writes_objectBlock (writes_prettyMembers (depth + 1) members h) depth

/-- The items of an array are written one by one, further inside. -/
theorem writes_prettyItems (depth : Nat) : ∀ js, LegibleItems js → List.Forall₂ Writes js (prettyItems depth js)
  | [], _ => by
    rw [prettyItems]
    exact .nil
  | j :: rest, h => by
    rw [LegibleItems] at h
    rw [prettyItems]
    exact .cons (writes_prettyAt depth j h.1) (writes_prettyItems depth rest h.2)

/-- The members of an object are written one by one, further inside. -/
theorem writes_prettyMembers (depth : Nat) :
    ∀ ms, LegibleMembers ms → List.Forall₂ WritesMember ms (prettyMembers depth ms)
  | [], _ => by
    rw [prettyMembers]
    exact .nil
  | (n, j) :: rest, h => by
    rw [LegibleMembers] at h
    rw [prettyMembers]
    have hspace : ∀ b ∈ [' '], isBlank b = true := List.forall_mem_singleton.2 rfl
    exact .cons (((writes_prettyAt depth j h.1).blanks hspace).member n) (writes_prettyMembers depth rest h.2)

end

/-! ### Texts -/

/-- What is written in one line denotes the value. -/
theorem denotes_compact {j : Json} (h : Legible j) : Denotes (String.ofList (compact j)) j := (writes_compact j h).denotes

/-- What is written on several lines denotes the value. -/
theorem denotes_pretty {j : Json} (h : Legible j) : Denotes (String.ofList (pretty j)) j := (writes_prettyAt 0 j h).denotes

end Peripheral.Json
