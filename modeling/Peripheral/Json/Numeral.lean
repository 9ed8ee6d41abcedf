import Peripheral.Json.Basic

/-!
# Numerals

The parts of a number as it is written, and its value. An integer that fits into 64 bits is exact. Everything else becomes
a floating-point number: as many leading digits as fit into 64 bits are taken as an integer, which is then scaled by a
power of ten with at most one rounding for each power used. The result may differ from the nearest floating-point number
in its last bit; a numeral beyond the range of floating-point numbers has no value.
-/

namespace Peripheral.Json

/-- A number as it is written. The fraction is empty if there is no point. -/
structure Numeral where
  negative : Bool
  whole : List Char
  fraction : List Char
  exponent : Option (Bool × List Char)
  deriving DecidableEq, Repr

namespace Numeral

/-- The value of a digit. -/
def digitValue (c : Char) : Nat := c.toNat - 48

/-- The largest significand. -/
def limit : Nat := 18446744073709551615

/-- A significand that takes digits as long as they fit, and counts what it took and what it left out. -/
structure Significand where
  value : Nat
  taken : Nat
  skipped : Nat
  full : Bool

/-- The significand after one more digit. Once a digit did not fit, the digits after it are left out as well. -/
def Significand.add (s : Significand) (c : Char) : Significand :=
  if s.full || limit < s.value * 10 + digitValue c then { s with skipped := s.skipped + 1, full := true }
  else { s with value := s.value * 10 + digitValue c, taken := s.taken + 1 }

/-- The significand of the digits before the point. -/
def wholePart (n : Numeral) : Significand :=
  n.whole.foldl .add ⟨0, 0, 0, false⟩

/-- The significand of all digits; those after the point are counted anew. -/
def allDigits (n : Numeral) : Significand :=
  n.fraction.foldl .add { n.wholePart with taken := 0, skipped := 0, full := false }

/-- The written exponent. -/
def writtenExponent (n : Numeral) : Int :=
  match n.exponent with
  | none => 0
  | some (negative, ds) =>
    let size : Nat := ds.foldl (fun e c => e * 10 + digitValue c) 0
    if negative then -size else size

/-- The power of ten that the significand is scaled by. -/
def scale (n : Numeral) : Int :=
  (n.wholePart.skipped : Int) - n.allDigits.taken + n.writtenExponent

/-- A power of ten, correctly rounded. -/
def pow10 (e : Nat) : Float := Float.ofScientific 1 false e

/-- Divides by a power of ten, in steps that are in the range of floating-point numbers. -/
def scaleDown (x : Float) (e : Nat) : Float :=
  if e ≤ 308 then x / pow10 e
  else if x == 0 then x
  else scaleDown (x / pow10 308) (e - 308)
termination_by e
decreasing_by omega

/-- Multiplies by a power of ten; the result may lie beyond the range of floating-point numbers. -/
def scaleUp? (x : Float) (e : Nat) : Option Float :=
  if e ≤ 308 then
    let y := x * pow10 e
    if y.isInf then none else some y
  else if x == 0 then some x
  else none

/-- The size of a numeral as a floating-point number. -/
def size? (n : Numeral) : Option Float :=
  let x := (UInt64.ofNat n.allDigits.value).toFloat
  if 0 ≤ n.scale then scaleUp? x n.scale.toNat else some (scaleDown x (-n.scale).toNat)

/-- Whether a numeral is written as an integer that fits into 64 bits. -/
def isInteger (n : Numeral) : Bool :=
  n.fraction.isEmpty && n.exponent.isNone && !n.wholePart.full

/-- The value of a numeral. Zero with a minus sign is a floating-point number, as is a negative integer below -2^63. -/
def value? (n : Numeral) : Option Number :=
  if n.isInteger then
    let v := n.wholePart.value
    if !n.negative then some (.natural v)
    else if 1 ≤ v ∧ v ≤ Nat.pow 2 63 then some (.negative v)
    else some (.real (-(UInt64.ofNat v).toFloat))
  else
    n.size?.map fun x => .real (if n.negative then -x else x)

end Numeral

end Peripheral.Json
