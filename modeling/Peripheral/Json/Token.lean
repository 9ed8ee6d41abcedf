import Peripheral.Json.Numeral

/-!
# Tokens

A JSON text as a list of tokens. Reading tokens never fails: where the text stops being JSON, the list ends with a token
that says so. What is wrong with a number or a text may depend on whether its value is wanted or only passed over, so
these tokens carry what was written and the fault is decided later.
-/

namespace Peripheral.Json

/-- One character of a quoted text as it is written: a character, or half of a pair of 16-bit units. -/
inductive Piece
  | char (c : Char)
  | half (unit : Nat)
  deriving DecidableEq, Repr

/-- A quoted text as it is written, with what is wrong with its end. -/
structure Quoted where
  pieces : List Piece
  fault : Option Fault
  deriving DecidableEq, Repr

/-- A unit of a JSON text. -/
inductive Token
  | openArray
  | closeArray
  | openObject
  | closeObject
  | comma
  | colon
  | null
  | bool (b : Bool)
  | number (n : Numeral)
  /-- A number that breaks off, either with the text or at a character that cannot stand there. -/
  | brokenNumber (textEnds : Bool)
  | text (q : Quoted)
  | fault (f : Fault)
  deriving DecidableEq, Repr

namespace Quoted

/-- Whether a 16-bit unit is the first half of a pair. -/
def isHigh (unit : Nat) : Bool := 0xD800 ≤ unit && unit < 0xDC00

/-- Whether a 16-bit unit is the second half of a pair. -/
def isLow (unit : Nat) : Bool := 0xDC00 ≤ unit && unit < 0xE000

/-- The character of a pair of halves. -/
def joined (high low : Nat) : Char := Char.ofNat (0x10000 + (high - 0xD800) * 0x400 + (low - 0xDC00))

/-- The characters of a quoted text. A half that is not part of a pair stands for no character. -/
def charsOf (fault : Option Fault) : List Piece → Except Fault (List Char)
  | [] =>
    match fault with
    | some f => .error f
    | none => .ok []
  | .char c :: rest => do
    let cs ← charsOf fault rest
    .ok (c :: cs)
  | .half h :: .half l :: rest =>
    if isHigh h && isLow l then do
      let cs ← charsOf fault rest
      .ok (joined h l :: cs)
    else .error .malformed
  | .half _ :: .char _ :: _ => .error .malformed
  | [.half h] => .error (if isHigh h then fault.getD .malformed else .malformed)

/-- The characters of a quoted text. -/
def chars (q : Quoted) : Except Fault (List Char) := charsOf q.fault q.pieces

end Quoted

/-- Whether a character separates tokens. -/
def isBlank (c : Char) : Bool := c = ' ' || c = '\n' || c = '\t' || c = '\r'

/-- Whether a character is a decimal digit. -/
def isDigit (c : Char) : Bool := '0' ≤ c && c ≤ '9'

/-- The value of a hexadecimal digit. -/
def hexValue? (c : Char) : Option Nat :=
  if isDigit c then some (c.toNat - 48)
  else if 'a' ≤ c && c ≤ 'f' then some (c.toNat - 87)
  else if 'A' ≤ c && c ≤ 'F' then some (c.toNat - 55)
  else none

/-- The value of four hexadecimal digits. -/
def hexUnit? (a b c d : Char) : Option Nat := do
  let a ← hexValue? a
  let b ← hexValue? b
  let c ← hexValue? c
  let d ← hexValue? d
  some (a * 4096 + b * 256 + c * 16 + d)

/-- What a 16-bit unit contributes to a text. -/
def Piece.ofUnit (unit : Nat) : Piece :=
  if Quoted.isHigh unit || Quoted.isLow unit then .half unit else .char (Char.ofNat unit)

/-- The character of a one-letter escape. -/
def escaped? (c : Char) : Option Char :=
  if c = '"' || c = '\\' || c = '/' then some c
  else if c = 'b' then some '\x08'
  else if c = 'f' then some '\x0c'
  else if c = 'n' then some '\n'
  else if c = 'r' then some '\r'
  else if c = 't' then some '\t'
  else none

/-- The length of a text in bytes, as it is stored. -/
def byteLength (cs : List Char) : Nat := cs.foldr (fun c n => c.utf8Size + n) 0

/-- Adds a piece in front of a quoted text that was scanned. -/
def Piece.cons (p : Piece) (r : Quoted × List Char) : Quoted × List Char :=
  ({ r.1 with pieces := p :: r.1.pieces }, r.2)

/-- Scans a quoted text after its opening quote. A text that ends within the four bytes after a unit's mark ends too
early, whatever they are. -/
def scanQuoted : List Char → Quoted × List Char
  | [] => (⟨[], some .cutShort⟩, [])
  | '"' :: rest => (⟨[], none⟩, rest)
  | '\\' :: 'u' :: a :: b :: c :: d :: rest =>
    match hexUnit? a b c d with
    | some u => (Piece.ofUnit u).cons (scanQuoted rest)
    | none => (⟨[], some .malformed⟩, rest)
  | '\\' :: 'u' :: rest =>
    (⟨[], some (if byteLength rest < 4 then .cutShort else .malformed)⟩, [])
  | '\\' :: c :: rest =>
    match escaped? c with
    | some e => (Piece.char e).cons (scanQuoted rest)
    | none => (⟨[], some .malformed⟩, rest)
  | ['\\'] => (⟨[], some .cutShort⟩, [])
  | c :: rest =>
    if c.toNat < 32 then (⟨[], some .malformed⟩, rest) else (Piece.char c).cons (scanQuoted rest)

/-- Scans the exponent of a number, if there is one. -/
def scanExponent (n : Numeral) (cs : List Char) : Token × List Char :=
  match cs with
  | c :: rest =>
    if c = 'e' || c = 'E' then
      let (negative, rest) := match rest with
        | '+' :: r => (false, r)
        | '-' :: r => (true, r)
        | r => (false, r)
      let ds := rest.takeWhile isDigit
      let rest := rest.dropWhile isDigit
      if ds.isEmpty then (.brokenNumber rest.isEmpty, rest)
      else (.number { n with exponent := some (negative, ds) }, rest)
    else (.number n, cs)
  | [] => (.number n, cs)

/-- Scans the fraction of a number, if there is one, and what follows it. -/
def scanFraction (n : Numeral) (cs : List Char) : Token × List Char :=
  match cs with
  | '.' :: rest =>
    let ds := rest.takeWhile isDigit
    let rest := rest.dropWhile isDigit
    if ds.isEmpty then (.brokenNumber rest.isEmpty, rest) else scanExponent { n with fraction := ds } rest
  | cs => scanExponent n cs

/-- Scans a number without its sign. No digit may follow a leading zero. -/
def scanNumber (negative : Bool) (cs : List Char) : Token × List Char :=
  let ds := cs.takeWhile isDigit
  let rest := cs.dropWhile isDigit
  match ds with
  | [] => (.brokenNumber rest.isEmpty, rest)
  | '0' :: _ :: _ => (.fault .malformed, rest)
  | ds => scanFraction ⟨negative, ds, [], none⟩ rest

/-- Scans the letters of a name that are still to come. -/
def scanName (t : Token) : List Char → List Char → Token × List Char
  | [], cs => (t, cs)
  | _ :: _, [] => (.fault .cutShort, [])
  | e :: es, c :: cs => if c = e then scanName t es cs else (.fault .malformed, cs)

/-- Scans one token that starts with the given character. -/
def scanToken (c : Char) (rest : List Char) : Token × List Char :=
  if c = '[' then (.openArray, rest)
  else if c = ']' then (.closeArray, rest)
  else if c = '\x7b' then (.openObject, rest)
  else if c = '\x7d' then (.closeObject, rest)
  else if c = ',' then (.comma, rest)
  else if c = ':' then (.colon, rest)
  else if c = '"' then (.text (scanQuoted rest).1, (scanQuoted rest).2)
  else if c = '-' then scanNumber true rest
  else if isDigit c then scanNumber false (c :: rest)
  else if c = 'n' then scanName .null ['u', 'l', 'l'] rest
  else if c = 't' then scanName (.bool true) ['r', 'u', 'e'] rest
  else if c = 'f' then scanName (.bool false) ['a', 'l', 's', 'e'] rest
  else (.fault .malformed, rest)

/-- Whether the text after a token is not looked at, because the token is where the text stops being JSON. -/
def Token.isLast : Token → Bool
  | .brokenNumber _ => true
  | .fault _ => true
  | .text q => q.fault.isSome
  | _ => false

/-- The tokens of a text, at most as many as the first argument says. -/
def tokensWithin : Nat → List Char → List Token
  | 0, _ => []
  | _ + 1, [] => []
  | n + 1, c :: rest =>
    if isBlank c then tokensWithin n rest
    else
      let (t, rest) := scanToken c rest
      if t.isLast then [t] else t :: tokensWithin n rest

/-- The tokens of a text. Every token takes at least one character. -/
def tokens (cs : List Char) : List Token := tokensWithin cs.length cs

end Peripheral.Json
