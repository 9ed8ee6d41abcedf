import Peripheral.Json.Token

/-!
# Reading values

A value is read from a list of tokens by a machine that takes one token at a time and keeps the arrays and objects that
are still open on a stack. The same machine reads a value that is wanted and passes over one that is not: a `Reading` says
what a single token is worth and how many arrays and objects may be open at once.
-/

namespace Peripheral.Json

/-- What becomes of the tokens of a value. -/
structure Reading where
  /-- The value of a token that is a value by itself. -/
  leaf : Token → Except Fault Json
  /-- The name that a quoted text gives to a member. -/
  name : Quoted → Except Fault (List Char)
  /-- Whether one more array or object may be opened when the given number are open. -/
  room : Nat → Bool

/-- The fault of a token that cannot begin a value of the type that is asked for. A value of another type is read whole
first if it is a single token, and what is wrong inside it comes before its being of another type. -/
def Token.unsuitable : Token → Fault
  | .null => .mismatch
  | .bool _ => .mismatch
  | .number n => if n.value?.isSome then .mismatch else .malformed
  | .brokenNumber textEnds => if textEnds then .cutShort else .malformed
  | .text q =>
    match q.chars with
    | .ok _ => .mismatch
    | .error f => f
  | .openArray => .mismatch
  | .openObject => .mismatch
  | .fault f => f
  | .closeArray => .malformed
  | .closeObject => .malformed
  | .comma => .malformed
  | .colon => .malformed

/-- Reads values that are wanted; `levels` arrays and objects may be open at once. -/
def Reading.whole (levels : Nat) : Reading where
  leaf
    | .null => .ok .null
    | .bool b => .ok (.bool b)
    | .number n =>
      match n.value? with
      | some v => .ok (.number v)
      | none => .error .malformed
    | .text q => q.chars.map .text
    | t => .error t.unsuitable
  name q := q.chars
  room n := n < levels

/-- Passes over values: numbers may be of any size, halves of characters may stand alone, and any depth is allowed. -/
def Reading.passing : Reading where
  leaf
    | .null => .ok .null
    | .bool _ => .ok .null
    | .number _ => .ok .null
    | .text q =>
      match q.fault with
      | some f => .error f
      | none => .ok .null
    | .fault f => .error f
    | _ => .error .malformed
  name q :=
    match q.fault with
    | some f => .error f
    | none => .ok []
  room _ := true

/-- An array or object that is still open, with what it holds so far, the latest first. -/
inductive Partial
  | items (done : List Json)
  | members (done : List (List Char × Json)) (name : List Char)

/-- What may come next. -/
inductive Expecting
  | value
  | itemOrEnd
  | nameOrEnd
  | name
  | colon
  | separator
  deriving DecidableEq, Repr

/-- A value that is being read. -/
structure Progress where
  expecting : Expecting
  stack : List Partial

/-- What a token leads to. -/
inductive Advance
  | done (v : Json)
  | more (p : Progress)

/-- A value is complete: it is the result, or belongs to the innermost open array or object. -/
def complete (v : Json) : List Partial → Advance
  | [] => .done v
  | .items done :: rest => .more ⟨.separator, .items (v :: done) :: rest⟩
  | .members done name :: rest => .more ⟨.separator, .members ((name, v) :: done) name :: rest⟩

/-- A value begins. -/
def begin (r : Reading) (t : Token) (stack : List Partial) : Except Fault Advance :=
  match t with
  | .openArray => if r.room stack.length then .ok (.more ⟨.itemOrEnd, .items [] :: stack⟩) else .error .malformed
  | .openObject => if r.room stack.length then .ok (.more ⟨.nameOrEnd, .members [] [] :: stack⟩) else .error .malformed
  | t => (r.leaf t).map (complete · stack)

/-- The name of a member. -/
def named (r : Reading) (t : Token) (done : List (List Char × Json)) (stack : List Partial) : Except Fault Advance :=
  match t with
  | .text q => (r.name q).map fun n => .more ⟨.colon, .members done n :: stack⟩
  | _ => .error .malformed

/-- Takes one token. -/
def advance (r : Reading) (p : Progress) (t : Token) : Except Fault Advance :=
  match p.expecting, p.stack with
  | .value, stack => begin r t stack
  | .itemOrEnd, .items done :: stack =>
    match t with
    | .closeArray => .ok (complete (.array done.reverse) stack)
    | t => begin r t (.items done :: stack)
  | .nameOrEnd, .members done _ :: stack =>
    match t with
    | .closeObject => .ok (complete (.object done.reverse) stack)
    | t => named r t done stack
  | .name, .members done _ :: stack => named r t done stack
  | .colon, stack =>
    match t with
    | .colon => .ok (.more ⟨.value, stack⟩)
    | _ => .error .malformed
  | .separator, .items done :: stack =>
    match t with
    | .comma => .ok (.more ⟨.value, .items done :: stack⟩)
    | .closeArray => .ok (complete (.array done.reverse) stack)
    | _ => .error .malformed
  | .separator, .members done n :: stack =>
    match t with
    | .comma => .ok (.more ⟨.name, .members done n :: stack⟩)
    | .closeObject => .ok (complete (.object done.reverse) stack)
    | _ => .error .malformed
  | _, _ => .error .malformed

/-- Takes tokens until the value is complete. -/
def readFrom (r : Reading) : Progress → List Token → Except Fault (Json × List Token)
  | _, [] => .error .cutShort
  | p, t :: rest =>
    match advance r p t with
    | .error f => .error f
    | .ok (.done v) => .ok (v, rest)
    | .ok (.more p) => readFrom r p rest

/-- Reads one value. -/
def readValue (r : Reading) (ts : List Token) : Except Fault (Json × List Token) := readFrom r ⟨.value, []⟩ ts

/-- Passes over one value. -/
def skipValue (ts : List Token) : Except Fault (List Token) := (readValue .passing ts).map (·.2)

end Peripheral.Json
