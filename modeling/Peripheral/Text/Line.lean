/-!
# Lines

A line ends with a line feed, and a carriage return right before that belongs to the end of the line too.
-/

namespace Peripheral.Text

/-- The first line of a text that a line feed follows. -/
def firstLine (cs : List Char) : List Char :=
  let line := cs.takeWhile (· ≠ '\n')
  if line.getLast? = some '\r' then line.dropLast else line

end Peripheral.Text
