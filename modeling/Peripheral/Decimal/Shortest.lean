/-!
# Shortest decimals

The decimal with the fewest digits that still identifies a binary floating-point number. The numbers that round to it
form an interval around it; on the decimal grids from coarse to fine the two neighbours of the number are tried, and the
first grid that has one inside the interval wins. Of two hits the nearer counts, and of two equally near ones the even.
-/

namespace Peripheral

/-- A decimal without a sign: the value is `digits * 10 ^ exponent`. -/
structure Decimal where
  digits : Nat
  exponent : Int
  deriving DecidableEq, Repr

namespace Decimal

/-- A finite binary number without a sign: the value is `mantissa * 2 ^ exponent`. The flag says that the next smaller
number is only half as far away as the next larger one. -/
structure Binary where
  mantissa : Nat
  exponent : Int
  narrow : Bool
  deriving DecidableEq, Repr

/-- The parts of a finite floating-point number, from its bits; the sign is left out. -/
def Binary.ofBits (bits : UInt64) : Binary :=
  let n : Nat := bits.toNat % Nat.pow 2 63
  let stored : Nat := n / Nat.pow 2 52
  let fraction : Nat := n % Nat.pow 2 52
  if stored = 0 then ⟨fraction, -1074, false⟩
  else ⟨Nat.pow 2 52 + fraction, (stored : Int) - 1075, fraction == 0 && 1 < stored⟩

/-- A quotient of natural numbers. -/
structure Ratio where
  num : Nat
  den : Nat

/-- The number `n * b ^ e` as a quotient. -/
def Ratio.scaled (n b : Nat) (e : Int) : Ratio :=
  if 0 ≤ e then ⟨n * Nat.pow b e.toNat, 1⟩ else ⟨n, Nat.pow b (-e).toNat⟩

/-- Comparison of quotients with positive denominators. -/
def Ratio.le (x y : Ratio) : Bool := x.num * y.den ≤ y.num * x.den

/-- Strict comparison of quotients with positive denominators. -/
def Ratio.lt (x y : Ratio) : Bool := x.num * y.den < y.num * x.den

/-- The largest `k` up to a bound with `10 ^ k ≤ n`, counted up from zero. -/
def magnitudeWithin (n : Nat) : Nat → Nat
  | 0 => 0
  | k + 1 => if Nat.pow 10 (k + 1) ≤ n then k + 1 else magnitudeWithin n k

/-- The power of ten of the first digit of a positive quotient between 10^-400 and 10^400. -/
def Ratio.magnitude (x : Ratio) : Int :=
  (magnitudeWithin (x.num * Nat.pow 10 400 / x.den) 800 : Int) - 400

/-- The lower end of the interval of numbers that round to a binary number: half way to the next smaller one. -/
def Binary.lower (b : Binary) : Ratio :=
  .scaled (4 * b.mantissa - (if b.narrow then 1 else 2)) 2 (b.exponent - 2)

/-- The upper end of the interval of numbers that round to a binary number: half way to the next larger one. -/
def Binary.upper (b : Binary) : Ratio := .scaled (4 * b.mantissa + 2) 2 (b.exponent - 2)

/-- Whether a decimal identifies a binary number. The ends of the interval count for an even mantissa. -/
def Binary.identifiedBy (b : Binary) (d : Decimal) : Bool :=
  let x := Ratio.scaled d.digits 10 d.exponent
  if b.mantissa % 2 = 0 then b.lower.le x && x.le b.upper else b.lower.lt x && x.lt b.upper

/-- The neighbour on a decimal grid that identifies a binary number, the nearer one if both do. -/
def Binary.onGrid? (b : Binary) (k : Int) : Option Decimal :=
  let v := Ratio.scaled b.mantissa 2 b.exponent
  let unit := Ratio.scaled 1 10 k
  let num := v.num * unit.den
  let den := v.den * unit.num
  let down := num / den
  let rest := 2 * (num % den)
  let below : Decimal := ⟨down, k⟩
  let above : Decimal := ⟨down + 1, k⟩
  match b.identifiedBy below, b.identifiedBy above with
  | true, true =>
    if rest < den || (rest = den && down % 2 = 0) then some below else some above
  | true, false => some below
  | false, true => some above
  | false, false => none

/-- Takes zeros off the end of the digits. -/
def trimmed : Nat → Decimal → Decimal
  | 0, d => d
  | n + 1, d => if d.digits ≠ 0 ∧ d.digits % 10 = 0 then trimmed n ⟨d.digits / 10, d.exponent + 1⟩ else d

/-- The first grid with a hit, from the given one to the next finer ones. -/
def Binary.search (b : Binary) : Nat → Int → Decimal
  | 0, k => ⟨0, k⟩
  | n + 1, k =>
    match b.onGrid? k with
    | some d => d
    | none => b.search n (k - 1)

/-- The shortest decimal that identifies a binary number. Seventeen digits are always enough. -/
def Binary.shortest (b : Binary) : Decimal :=
  if b.mantissa = 0 then ⟨0, 0⟩
  else (b.search 18 (Ratio.scaled b.mantissa 2 b.exponent).magnitude).trimmed 20

end Decimal

end Peripheral
