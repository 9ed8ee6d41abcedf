/-!
# Paths

A path is a text. Two paths name the same place for sure if their components are the same: repeated separators, a separator
at the end and dots that are not first do not count, while a pair of dots is a component like any other.
-/

namespace Peripheral.Path

/-- A component of a path. -/
inductive Component
  | root
  | here
  | name (s : List Char)
  deriving DecidableEq, Repr

/-- The runs of characters between separators. -/
def split : List Char → List (List Char)
  | [] => [[]]
  | c :: rest =>
    if c = '/' then [] :: split rest
    else
      match split rest with
      | [] => [[c]]
      | s :: more => (c :: s) :: more

/-- Whether a path starts at the root. -/
def isAbsolute (p : String) : Bool := p.toList.head? = some '/'

/-- The names of a path. -/
def names (p : String) : List (List Char) :=
  (split p.toList).filter fun s => s ≠ [] ∧ s ≠ ['.']

/-- The components of a path. A dot counts only where a relative path begins with it. -/
def components (p : String) : List Component :=
  let start : List Component :=
    if isAbsolute p then [.root]
    else if (split p.toList).head? = some ['.'] then [.here]
    else []
  start ++ (names p).map .name

end Peripheral.Path
