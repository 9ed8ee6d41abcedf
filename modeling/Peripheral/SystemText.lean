import Peripheral.Bytes

/-!
# Texts of the system

What the system hands over as text, such as the value of a variable or the name of a file, is a run of bytes that need not be
Unicode: between its characters there may be bytes that are none.
-/

namespace Peripheral

/-- A part of a text of the system: a character, or bytes that are none. -/
inductive SystemText.Piece
  | char (c : Char)
  | stray (bytes : Bytes)
  deriving DecidableEq, Repr

/-- A text of the system. -/
structure SystemText where
  pieces : List SystemText.Piece
  deriving DecidableEq, Repr

namespace SystemText

/-- The character of a part, if it is one. -/
def Piece.char? : Piece → Option Char
  | char c => some c
  | stray _ => none

/-- How a part is shown. -/
def Piece.shown : Piece → Char
  | char c => c
  | stray _ => '\ufffd'

/-- A text as a text of the system. -/
def ofString (s : String) : SystemText := ⟨s.toList.map .char⟩

/-- The text that a text of the system is, if it is Unicode. -/
def text? (t : SystemText) : Option String := (t.pieces.mapM Piece.char?).map String.ofList

/-- A text of the system as it is shown; bytes that are no character are shown as one that stands for them. -/
def shown (t : SystemText) : String := String.ofList (t.pieces.map Piece.shown)

/-- Whether a text of the system, as a path, starts at the root. -/
def isAbsolute (t : SystemText) : Bool := t.pieces.head? = some (.char '/')

/-- A path continued by another; an absolute one replaces what comes before it. -/
def join (p q : SystemText) : SystemText :=
  if q.isAbsolute then q
  else if p.pieces.isEmpty ∨ p.pieces.getLast? = some (.char '/') then ⟨p.pieces ++ q.pieces⟩
  else ⟨p.pieces ++ .char '/' :: q.pieces⟩

/-- The text of the system that is made from a text is this text. -/
theorem text?_ofString (s : String) : (ofString s).text? = some s := by
  have hall : ∀ cs : List Char, (cs.map Piece.char).mapM Piece.char? = some cs := by
    intro cs
    induction cs with
    | nil => rfl
    | cons c rest ih => simp [Piece.char?, ih]
  rw [text?, ofString, hall, Option.map_some, String.ofList_toList]

end SystemText

end Peripheral
