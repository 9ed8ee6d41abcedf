import Peripheral.Text.Extending
import Peripheral.Text.Invisible

/-!
# Texts that show what they hold

A text is shown between quotation marks. A character that could be mistaken is written by an escape: a quotation mark, a
backslash, the usual controls by their letters, and every other character that is invisible or would merge with the one
before it by its code point.
-/

namespace Peripheral.Text

/-- A character by its code point. -/
def byCode (c : Char) : List Char := ['\\', 'u', '\x7b'] ++ Nat.toDigits 16 c.toNat ++ ['\x7d']

/-- A character inside quotation marks. -/
def escaped (c : Char) : List Char :=
  if c = '"' then ['\\', '"']
  else if c = '\\' then ['\\', '\\']
  else if c = '\n' then ['\\', 'n']
  else if c = '\r' then ['\\', 'r']
  else if c = '\t' then ['\\', 't']
  else if c = '\x00' then ['\\', '0']
  else if isExtending c || isInvisible c then byCode c
  else [c]

/-- A text between quotation marks. -/
def shown (s : String) : String := String.ofList ('"' :: (s.toList.flatMap escaped ++ ['"']))

end Peripheral.Text
