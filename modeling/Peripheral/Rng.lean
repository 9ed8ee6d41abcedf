/-!
# Random numbers

A generator of 64-bit numbers whose state advances by a fixed odd step, so that it runs through all states before one
comes back. Fractions and indices are drawn by rejection: a draw that would not be fair is thrown away and the next one
is taken. A rejection loop is given one period of the generator, after which it could only repeat itself.
-/

namespace Peripheral

/-- The state of a generator. -/
structure Rng where
  state : UInt64
  deriving DecidableEq, Repr

namespace Rng

/-- A generator that starts from a seed. -/
def ofSeed (seed : UInt64) : Rng := ⟨seed⟩

/-- The number of states of a generator. -/
def period : Nat := 18446744073709551616

/-- The next 64 random bits: the two halves of a product of the state with a mask of itself, added without carry. -/
def next (g : Rng) : UInt64 × Rng :=
  let s := g.state + 0x2d358dccaa6c78a5
  let product := s.toNat * (s ^^^ 0x8bb84b93962eacc9).toNat
  (UInt64.ofNat product ^^^ UInt64.ofNat (product / period), ⟨s⟩)

/-- The fraction made of the upper 63 of 64 random bits; rounding may bring it up to one. -/
def fraction (r : UInt64) : Float :=
  (r >>> 1).toFloat / 9223372036854775808

/-- Draws fractions until one is below one, at most as often as the first argument says. -/
def unitWithin : Nat → Rng → Float × Rng
  | 0, g => (0, g)
  | tries + 1, g =>
    let (r, g) := g.next
    if 1 ≤ fraction r then unitWithin tries g else (fraction r, g)

/-- A random fraction below one. -/
def unit (g : Rng) : Float × Rng := unitWithin period g

/-- Scales draws down to a bound until one lies outside the remainder that would favour small results, at most as often
as the first argument says. -/
def belowWithin (bound : Nat) : Nat → Rng → Nat × Rng
  | 0, g => (0, g)
  | tries + 1, g =>
    let (r, g) := g.next
    let scaled := r.toNat * bound
    if scaled % period < period % bound then belowWithin bound tries g else (scaled / period, g)

/-- A random number below a bound. -/
def below (bound : Nat) (g : Rng) : Nat × Rng := belowWithin bound period g

/-- A number that is drawn is below the bound, however often the drawing is tried. -/
theorem belowWithin_lt (bound tries : Nat) (g : Rng) (h : 0 < bound) : (belowWithin bound tries g).1 < bound := by
  induction tries generalizing g with
  | zero => exact h
  | succ tries ih =>
    simp only [belowWithin]
    split
    · exact ih _
    · exact Nat.div_lt_of_lt_mul (Nat.mul_lt_mul_of_lt_of_le g.next.1.toNat_lt (Nat.le_refl _) h)

/-- A number drawn below a bound is below it. -/
theorem below_lt (bound : Nat) (g : Rng) (h : 0 < bound) : (below bound g).1 < bound :=
  belowWithin_lt bound period g h

end Rng

end Peripheral
