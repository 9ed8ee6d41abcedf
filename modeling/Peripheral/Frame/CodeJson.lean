import Peripheral.Frame.Code
import Peripheral.Json.Shape

/-!
# Codes in JSON

A code with a meaning is written as its name, one without as an object that gives its number. A code with a meaning is also
read from an object that holds null under its name.
-/

namespace Peripheral

/-- What may stand for a code: a name, by itself or with null, or a name with a number. -/
structure CodeNames (κ : Type) where
  plain : List (String × κ)
  numbered : String
  ofNumber : UInt32 → κ

namespace CodeNames

open Json

/-- The content of an object with one member: null under a plain name, a number under the numbered one. -/
def content {κ : Type} (c : CodeNames κ) (name : String) (ts : List Token) : Except Fault (κ × List Token) := do
  match c.plain.lookup name with
  | some k =>
    let ts ← Shape.afterColon ts
    let ((), ts) ← Shape.unit.read ts
    .ok (k, ts)
  | none =>
    if name = c.numbered then
      let ts ← Shape.afterColon ts
      let (n, ts) ← (Shape.natural UInt32.size).read ts
      .ok (c.ofNumber (UInt32.ofNat n), ts)
    else .error .mismatch

/-- Reads a code. What is neither a text nor an object, and an object without a member or with a second one, is
malformed. -/
def read {κ : Type} (c : CodeNames κ) : List Token → Except Fault (κ × List Token)
  | [] => .error .cutShort
  | .text q :: rest => do
    let (name, ts) ← Shape.text.read (.text q :: rest)
    match c.plain.lookup name with
    | some k => .ok (k, ts)
    | none => .error .mismatch
  | [.openObject] => .error .cutShort
  | .openObject :: .text q :: rest => do
    let (name, ts) ← Shape.text.read (.text q :: rest)
    let (k, ts) ← c.content name ts
    match ts with
    | [] => .error .cutShort
    | .closeObject :: ts => .ok (k, ts)
    | _ => .error .malformed
  | _ :: _ => .error .malformed

/-- The shape of a code. -/
def shape {κ : Type} (c : CodeNames κ) : Shape κ where
  read := c.read
  ofJson? _ := none

end CodeNames

/-- The names of the commands. -/
def Command.names : CodeNames Command where
  plain := [("Read", .read), ("Write", .write), ("Interrupt", .interrupt), ("Init", .init), ("Deinit", .deinit)]
  numbered := "Unknown"
  ofNumber := .unknown

/-- The names of the outcomes. -/
def Outcome.names : CodeNames Outcome where
  plain := [("Success", .success), ("Error", .error), ("Timeout", .timeout), ("InvalidAddr", .invalidAddress)]
  numbered := "Unknown"
  ofNumber := .unknown

/-- The JSON form of a command. -/
def Command.toJson : Command → Json
  | read => .text "Read".toList
  | write => .text "Write".toList
  | interrupt => .text "Interrupt".toList
  | init => .text "Init".toList
  | deinit => .text "Deinit".toList
  | unknown c => .object [("Unknown".toList, .number (.natural c.toNat))]

/-- The JSON form of an outcome. -/
def Outcome.toJson : Outcome → Json
  | success => .text "Success".toList
  | error => .text "Error".toList
  | timeout => .text "Timeout".toList
  | invalidAddress => .text "InvalidAddr".toList
  | unknown c => .object [("Unknown".toList, .number (.natural c.toNat))]

end Peripheral
