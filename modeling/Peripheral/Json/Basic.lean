/-!
# JSON values

A JSON value as a tree. A number is a natural number of 64 bits, a negative one down to -2^63 (given by its size), or a
floating-point number; the members of an object keep their order and may repeat a name. A text can be unfit in three
ways: it is no JSON, it ends too early, or it is JSON of another shape than asked for.
-/

namespace Peripheral

/-- Why a text could not be read. -/
inductive Json.Fault
  | malformed
  | cutShort
  | mismatch
  deriving DecidableEq, Repr

/-- A number of a JSON text. -/
inductive Json.Number
  | natural (n : Nat)
  | negative (size : Nat)
  | real (x : Float)
  deriving DecidableEq

/-- A JSON value. -/
inductive Json
  | null
  | bool (b : Bool)
  | number (n : Json.Number)
  | text (s : List Char)
  | array (items : List Json)
  | object (members : List (List Char × Json))

namespace Json

instance : Inhabited Json := ⟨.null⟩

/-- The value of a number as a floating-point number. -/
def Number.toFloat : Number → Float
  | natural n => (UInt64.ofNat n).toFloat
  | negative n => -(UInt64.ofNat n).toFloat
  | real x => x

end Json

end Peripheral
