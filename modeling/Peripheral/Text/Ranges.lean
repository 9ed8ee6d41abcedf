/-!
# Ranges of characters

A property of characters as a list of closed ranges of code points.
-/

namespace Peripheral.Text

/-- Whether a code point lies in one of the ranges. -/
def inRanges (ranges : List (Nat × Nat)) (n : Nat) : Bool := ranges.any fun r => r.1 ≤ n && n ≤ r.2

end Peripheral.Text
