import Peripheral.Decimal.Shortest
import Peripheral.Json.Basic

/-!
# Writing values

A JSON value as text, either without any blanks or with one item to a line. Quotes, backslashes and control characters are
escaped and everything else is written as it is; floating-point numbers are written with the fewest digits that read back
and always show that they are not integers.
-/

namespace Peripheral.Json

/-- How floating-point numbers are written. -/
structure RealFormat where
  /-- The powers of ten of the first digit for which no exponent is written. -/
  positional : Int → Bool
  /-- What ends a number that has no other mark of being a fraction. -/
  wholeMark : String
  /-- What comes before an exponent that is not negative. -/
  exponentMark : String
  negativeExponentMark : String

/-- Numbers from 10^-5 to below 10^16 are written without an exponent and with at least one digit after the point; the
exponents of the others have a sign. -/
def realFormat : RealFormat where
  positional e := -5 ≤ e && e < 16
  wholeMark := ".0"
  exponentMark := "e+"
  negativeExponentMark := "e-"

/-- The decimal digits of a natural number. -/
def digitsOf (n : Nat) : List Char := (Nat.toDigits 10 n)

/-- A positive decimal in a format. -/
def RealFormat.write (fmt : RealFormat) (d : Decimal) : List Char :=
  let ds := digitsOf d.digits
  let e : Int := d.exponent + ds.length - 1
  if fmt.positional e then
    if 0 ≤ d.exponent then ds ++ List.replicate d.exponent.toNat '0' ++ fmt.wholeMark.toList
    else if 0 ≤ e then ds.take (e.toNat + 1) ++ '.' :: ds.drop (e.toNat + 1)
    else '0' :: '.' :: (List.replicate ((-e).toNat - 1) '0' ++ ds)
  else
    let mantissa := ds.take 1 ++ (if ds.length = 1 then [] else '.' :: ds.drop 1)
    if 0 ≤ e then mantissa ++ fmt.exponentMark.toList ++ digitsOf e.toNat
    else mantissa ++ fmt.negativeExponentMark.toList ++ digitsOf (-e).toNat

/-- A floating-point number; what is not a finite number is null. -/
def writeReal (x : Float) : List Char :=
  if x.isNaN || x.isInf then ['n', 'u', 'l', 'l']
  else
    let sign := if x.toBits.toNat < Nat.pow 2 63 then [] else ['-']
    let d := (Decimal.Binary.ofBits x.toBits).shortest
    sign ++ (if d.digits = 0 then '0' :: realFormat.wholeMark.toList else realFormat.write d)

/-- A number. -/
def writeNumber : Number → List Char
  | .natural n => digitsOf n
  | .negative n => '-' :: digitsOf n
  | .real x => writeReal x

/-- A lower-case hexadecimal digit. -/
def lowerHex (n : Nat) : Char := if n < 10 then Char.ofNat (48 + n) else Char.ofNat (87 + n)

/-- A character inside a quoted text. -/
def escape (c : Char) : List Char :=
  if c = '"' then ['\\', '"']
  else if c = '\\' then ['\\', '\\']
  else if c = '\x08' then ['\\', 'b']
  else if c = '\x0c' then ['\\', 'f']
  else if c = '\n' then ['\\', 'n']
  else if c = '\r' then ['\\', 'r']
  else if c = '\t' then ['\\', 't']
  else if c.toNat < 32 then ['\\', 'u', '0', '0', lowerHex (c.toNat / 16), lowerHex (c.toNat % 16)]
  else [c]

/-- A quoted text. -/
def quote (s : List Char) : List Char := '"' :: (s.flatMap escape ++ ['"'])

/-- Pieces with commas between them. -/
def separated : List (List Char) → List Char
  | [] => []
  | [p] => p
  | p :: q :: rest => p ++ ',' :: separated (q :: rest)

mutual

/-- A value without blanks. -/
def compact : Json → List Char
  | .null => ['n', 'u', 'l', 'l']
  | .bool true => ['t', 'r', 'u', 'e']
  | .bool false => ['f', 'a', 'l', 's', 'e']
  | .number n => writeNumber n
  | .text s => quote s
  | .array items => '[' :: (separated (compactItems items) ++ [']'])
  | .object members => '\x7b' :: (separated (compactMembers members) ++ ['\x7d'])

/-- The items of an array. -/
def compactItems : List Json → List (List Char)
  | [] => []
  | j :: rest => compact j :: compactItems rest

/-- The members of an object. -/
def compactMembers : List (List Char × Json) → List (List Char)
  | [] => []
  | (n, j) :: rest => (quote n ++ ':' :: compact j) :: compactMembers rest

end

/-- A new line at a depth of indentation. -/
def newLine (depth : Nat) : List Char := '\n' :: List.replicate (2 * depth) ' '

/-- Pieces on lines of their own between two brackets, which stand together if there is nothing between them. -/
def block (opening closing : Char) (depth : Nat) : List (List Char) → List Char
  | [] => [opening, closing]
  | pieces =>
    opening :: (separated (pieces.map fun p => newLine (depth + 1) ++ p) ++ newLine depth ++ [closing])

mutual

/-- A value with one item to a line, inside the given number of other values. -/
def prettyAt (depth : Nat) : Json → List Char
  | .array items => block '[' ']' depth (prettyItems (depth + 1) items)
  | .object members => block '\x7b' '\x7d' depth (prettyMembers (depth + 1) members)
  | .null => ['n', 'u', 'l', 'l']
  | .bool true => ['t', 'r', 'u', 'e']
  | .bool false => ['f', 'a', 'l', 's', 'e']
  | .number n => writeNumber n
  | .text s => quote s

/-- The items of an array, each inside the given number of values. -/
def prettyItems (depth : Nat) : List Json → List (List Char)
  | [] => []
  | j :: rest => prettyAt depth j :: prettyItems depth rest

/-- The members of an object, each inside the given number of values. -/
def prettyMembers (depth : Nat) : List (List Char × Json) → List (List Char)
  | [] => []
  | (n, j) :: rest => (quote n ++ ':' :: ' ' :: prettyAt depth j) :: prettyMembers depth rest

end

/-- A value with one item to a line. -/
def pretty (j : Json) : List Char := prettyAt 0 j

end Peripheral.Json
