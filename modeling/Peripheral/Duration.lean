/-!
# Spans of time

Time is counted in whole milliseconds. A span below a second is shown in milliseconds, a longer one in seconds with as many
digits after the point as it needs; no time at all is shown in the smallest unit.
-/

namespace Peripheral.Duration

/-- A digit. -/
def digit (n : Nat) : Char := Char.ofNat (48 + n % 10)

/-- Thousandths without zeros at their end. -/
def fraction (ms : Nat) : String :=
  if ms = 0 then ""
  else if ms % 100 = 0 then String.ofList ['.', digit (ms / 100)]
  else if ms % 10 = 0 then String.ofList ['.', digit (ms / 100), digit (ms / 10)]
  else String.ofList ['.', digit (ms / 100), digit (ms / 10), digit ms]

/-- A span of milliseconds as text. -/
def text (ms : Nat) : String :=
  if ms = 0 then "0ns" else if ms < 1000 then s!"{ms}ms" else s!"{ms / 1000}" ++ fraction (ms % 1000) ++ "s"

end Peripheral.Duration
