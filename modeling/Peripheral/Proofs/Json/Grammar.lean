import Peripheral.Json.Token

/-!
# The grammar of JSON texts

What JSON texts there are for a value, said without reading any. A text is a sequence of words with blanks before, between
and after them; `Phrase` says which words stand for a value, and `Spelling` which characters for words. What a number or a
quoted text is worth is taken from the reader: a number has to be in the range of floating-point numbers, and the halves of
characters in a quoted text have to come in pairs.
-/

namespace Peripheral.Json

/-! ## How deep values are nested -/

mutual

/-- The greatest number of arrays and objects in a value that lie inside of one another. -/
def depth : Json → Nat
  | .null => 0
  | .bool _ => 0
  | .number _ => 0
  | .text _ => 0
  | .array items => depthOfItems items + 1
  | .object members => depthOfMembers members + 1

/-- The greatest depth of the items of an array. -/
def depthOfItems : List Json → Nat
  | [] => 0
  | j :: rest => max (depth j) (depthOfItems rest)

/-- The greatest depth of the members of an object. -/
def depthOfMembers : List (List Char × Json) → Nat
  | [] => 0
  | (_, j) :: rest => max (depth j) (depthOfMembers rest)

end

/-! ## Words -/

/-- The words that are values by themselves. -/
inductive Leaf : Token → Json → Prop
  | null : Leaf .null .null
  | bool (b : Bool) : Leaf (.bool b) (.bool b)
  | number {n : Numeral} {v : Number} : n.value? = some v → Leaf (.number n) (.number v)
  | text {q : Quoted} {s : List Char} : q.chars = .ok s → Leaf (.text q) (.text s)

/-- What a sequence of words stands for: a value, or the items or members of one from some place on, which is the first place
or one after a comma. -/
inductive Part
  | value (j : Json)
  | items (first : Bool) (js : List Json)
  | members (first : Bool) (ms : List (List Char × Json))

/-- The word before an item or a member. -/
def separator (first : Bool) : List Token := if first then [] else [.comma]

/-- The words for a value, or for a part of one. -/
inductive Phrase : Part → List Token → Prop
  | leaf {t : Token} {j : Json} : Leaf t j → Phrase (.value j) [t]
  | array {js : List Json} {ts : List Token} :
      Phrase (.items true js) ts → Phrase (.value (.array js)) (.openArray :: (ts ++ [.closeArray]))
  | object {ms : List (List Char × Json)} {ts : List Token} :
      Phrase (.members true ms) ts → Phrase (.value (.object ms)) (.openObject :: (ts ++ [.closeObject]))
  | noItems (first : Bool) : Phrase (.items first []) []
  | item (first : Bool) {j : Json} {js : List Json} {ts us : List Token} :
      Phrase (.value j) ts → Phrase (.items false js) us → Phrase (.items first (j :: js)) (separator first ++ ts ++ us)
  | noMembers (first : Bool) : Phrase (.members first []) []
  | member (first : Bool) {q : Quoted} {n : List Char} {j : Json} {ms : List (List Char × Json)} {ts us : List Token} :
      q.chars = .ok n → Phrase (.value j) ts → Phrase (.members false ms) us →
        Phrase (.members first ((n, j) :: ms)) (separator first ++ .text q :: .colon :: ts ++ us)

/-! ## Characters -/

/-- Digits, at least one of them. -/
structure Digits (ds : List Char) : Prop where
  ne_nil : ds ≠ []
  isDigit : ∀ d ∈ ds, isDigit d = true

/-- The fraction of a number: nothing, or a point and digits. -/
inductive Fraction : List Char → List Char → Prop
  | absent : Fraction [] []
  | digits {ds : List Char} : Digits ds → Fraction ds ('.' :: ds)

/-- The sign of an exponent, which may be left out if it is not negative. -/
inductive ExponentSign : Bool → List Char → Prop
  | absent : ExponentSign false []
  | plus : ExponentSign false ['+']
  | minus : ExponentSign true ['-']

/-- The exponent of a number. -/
inductive Exponent : Option (Bool × List Char) → List Char → Prop
  | absent : Exponent none []
  | digits {mark : Char} {negative : Bool} {sign ds : List Char} :
      mark = 'e' ∨ mark = 'E' → ExponentSign negative sign → Digits ds →
        Exponent (some (negative, ds)) (mark :: (sign ++ ds))

/-- The characters of a number. Digits after a zero that comes first are not allowed. -/
inductive Numeral.Spells (n : Numeral) : List Char → Prop
  | intro {fraction exponent : List Char} : Digits n.whole → (n.whole.head? = some '0' → n.whole = ['0']) →
      Fraction n.fraction fraction → Exponent n.exponent exponent →
        Spells n ((if n.negative then ['-'] else []) ++ (n.whole ++ (fraction ++ exponent)))

/-- The characters between the quotes of a quoted text. -/
inductive Quotation : List Piece → List Char → Prop
  | nil : Quotation [] []
  | plain {c : Char} {ps : List Piece} {cs : List Char} :
      32 ≤ c.toNat → c ≠ '"' → c ≠ '\\' → Quotation ps cs → Quotation (.char c :: ps) (c :: cs)
  | escape {letter c : Char} {ps : List Piece} {cs : List Char} :
      escaped? letter = some c → Quotation ps cs → Quotation (.char c :: ps) ('\\' :: letter :: cs)
  | unit {a b c d : Char} {u : Nat} {ps : List Piece} {cs : List Char} :
      hexUnit? a b c d = some u → Quotation ps cs → Quotation (.ofUnit u :: ps) ('\\' :: 'u' :: a :: b :: c :: d :: cs)

/-- The characters of a word. -/
inductive Lexeme : Token → List Char → Prop
  | openArray : Lexeme .openArray ['[']
  | closeArray : Lexeme .closeArray [']']
  | openObject : Lexeme .openObject ['\x7b']
  | closeObject : Lexeme .closeObject ['\x7d']
  | comma : Lexeme .comma [',']
  | colon : Lexeme .colon [':']
  | null : Lexeme .null ['n', 'u', 'l', 'l']
  | true : Lexeme (.bool true) ['t', 'r', 'u', 'e']
  | false : Lexeme (.bool false) ['f', 'a', 'l', 's', 'e']
  | number {n : Numeral} {cs : List Char} : n.Spells cs → Lexeme (.number n) cs
  | text {ps : List Piece} {cs : List Char} : Quotation ps cs → Lexeme (.text ⟨ps, none⟩) ('"' :: (cs ++ ['"']))

/-- Characters that a number before them does not go on with. -/
def Delimits (cs : List Char) : Prop :=
  ∀ c, cs.head? = some c → isDigit c = false ∧ c ≠ '.' ∧ c ≠ 'e' ∧ c ≠ 'E'

/-- The characters of a sequence of words. -/
inductive Spelling : List Token → List Char → Prop
  | nil : Spelling [] []
  | blank {b : Char} {ts : List Token} {cs : List Char} : isBlank b = true → Spelling ts cs → Spelling ts (b :: cs)
  | word {t : Token} {ts : List Token} {ls cs : List Char} :
      Lexeme t ls → (∀ n, t = .number n → Delimits cs) → Spelling ts cs → Spelling (t :: ts) (ls ++ cs)

/-- The text is JSON and stands for the value. -/
def Denotes (text : String) (j : Json) : Prop := ∃ ts, Phrase (.value j) ts ∧ Spelling ts text.toList

end Peripheral.Json
