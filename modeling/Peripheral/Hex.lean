/-!
# Hexadecimal text

Numbers in log lines and messages are written in base sixteen with upper-case digits, either as short as possible or
padded with zeros to a fixed width.
-/

namespace Peripheral.Hex

/-- The upper-case digit of a value below sixteen. -/
def digit (n : Nat) : Char :=
  if n < 10 then Char.ofNat (48 + n) else Char.ofNat (55 + n)

/-- The digits of a number, none for zero. -/
def digits (n : Nat) : List Char :=
  if n = 0 then [] else digits (n / 16) ++ [digit (n % 16)]
termination_by n
decreasing_by omega

/-- A number as short as possible: zero is one digit. -/
def short (n : Nat) : String :=
  if n = 0 then "0" else String.ofList (digits n)

/-- A number with zeros in front of it up to a width. -/
def padded (width n : Nat) : String :=
  let ds := digits n
  String.ofList (List.replicate (width - ds.length) '0' ++ ds)

/-- A 32-bit address: a marker and eight digits. -/
def address (a : UInt32) : String :=
  "0x" ++ padded 8 a.toNat

/-- A byte: a marker and two digits. -/
def byte (b : UInt8) : String :=
  "0x" ++ padded 2 b.toNat

/-- A register value: a marker and as few digits as it needs. -/
def value (v : UInt32) : String :=
  "0x" ++ short v.toNat

end Peripheral.Hex
