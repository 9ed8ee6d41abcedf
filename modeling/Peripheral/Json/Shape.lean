import Peripheral.Json.Value

/-!
# Shapes

A shape reads values of one type, either straight from tokens or from a value that was read before. Straight from tokens,
the fault that is met first from left to right is the one reported. A record is read from an object, whose members come in
any order and may include others that are passed over, or from an array of the fields in the order of their declaration.
-/

namespace Peripheral.Json

/-- How values of a type are read. -/
structure Shape (α : Type) where
  /-- Reads a value from tokens. -/
  read : List Token → Except Fault (α × List Token)
  /-- The value that a JSON value stands for. -/
  ofJson? : Json → Option α

/-- Reads a single token, or says why it cannot be one. -/
def readLeaf {α : Type} (f : Token → Option α) : List Token → Except Fault (α × List Token)
  | [] => .error .cutShort
  | t :: rest =>
    match f t with
    | some a => .ok (a, rest)
    | none => .error t.unsuitable

namespace Shape

/-- A natural number below a bound. -/
def natural (bound : Nat) : Shape Nat :=
  let check (n : Number) : Option Nat :=
    match n with
    | .natural n => if n < bound then some n else none
    | _ => none
  { read := readLeaf fun t =>
      match t with
      | .number n => n.value?.bind check
      | _ => none
    ofJson? := fun j =>
      match j with
      | .number n => check n
      | _ => none }

/-- A floating-point number; integers count as such. -/
def real : Shape Float where
  read := readLeaf fun t =>
    match t with
    | .number n => n.value?.map Number.toFloat
    | _ => none
  ofJson?
    | .number n => some n.toFloat
    | _ => none

/-- A text. -/
def text : Shape String where
  read := readLeaf fun t =>
    match t with
    | .text q => q.chars.toOption.map String.ofList
    | _ => none
  ofJson?
    | .text s => some (String.ofList s)
    | _ => none

/-- Nothing, written as null. -/
def unit : Shape Unit where
  read := readLeaf fun t =>
    match t with
    | .null => some ()
    | _ => none
  ofJson?
    | .null => some ()
    | _ => none

/-- A value that may be null. -/
def optional {α : Type} (s : Shape α) : Shape (Option α) where
  read
    | .null :: rest => .ok (none, rest)
    | ts => (s.read ts).map fun r => (some r.1, r.2)
  ofJson?
    | .null => some none
    | j => (s.ofJson? j).map some

/-- A shape seen through a function. -/
def map {α β : Type} (f : α → β) (s : Shape α) : Shape β where
  read ts := (s.read ts).map fun r => (f r.1, r.2)
  ofJson? j := (s.ofJson? j).map f

/-- What is left of an array before its next item: nothing if the array ends here. -/
def nextItem (first : Bool) : List Token → Except Fault (Option (List Token))
  | [] => .error .cutShort
  | .closeArray :: _ => .ok none
  | .comma :: rest =>
    if first then .error .malformed
    else
      match rest with
      | [] => .error .cutShort
      | .closeArray :: _ => .error .malformed
      | rest => .ok (some rest)
  | ts => if first then .ok (some ts) else .error .malformed

/-- Reads the items of an array after its opening, at most as many as the number says. -/
def itemsWithin {α : Type} (s : Shape α) : Nat → Bool → List Token → Except Fault (List α × List Token)
  | 0, _, _ => .error .cutShort
  | n + 1, first, ts => do
    match ← nextItem first ts with
    | none => .ok ([], ts.drop 1)
    | some ts =>
      let (a, ts) ← s.read ts
      let (more, ts) ← itemsWithin s n false ts
      .ok (a :: more, ts)

/-- An array of values of one type. Every item takes at least one token. -/
def array {α : Type} (s : Shape α) : Shape (List α) where
  read
    | [] => .error .cutShort
    | .openArray :: rest => itemsWithin s (rest.length + 1) true rest
    | t :: _ => .error t.unsuitable
  ofJson?
    | .array items => items.mapM s.ofJson?
    | _ => none

end Shape

/-- A field of a record: its name, whether it may be left out, and how its value is read and stored. -/
structure Field (σ : Type) where
  name : String
  required : Bool
  read : List Token → σ → Except Fault (σ × List Token)
  ofJson? : Json → σ → Option σ

/-- A field whose values have a shape. -/
def Field.of {σ α : Type} (name : String) (required : Bool) (s : Shape α) (put : α → σ → σ) : Field σ where
  name
  required
  read ts x := (s.read ts).map fun r => (put r.1 x, r.2)
  ofJson? j x := (s.ofJson? j).map fun a => put a x

namespace Shape

/-- Whether a field that must be there is missing. -/
def incomplete {σ : Type} (fields : List (Field σ)) (seen : List String) : Bool :=
  fields.any fun f => f.required && !seen.contains f.name

/-- What is left of an object before its next name: nothing if the object ends here. -/
def nextName (first : Bool) : List Token → Except Fault (Option (Quoted × List Token))
  | [] => .error .cutShort
  | .closeObject :: _ => .ok none
  | .text q :: rest => if first then .ok (some (q, rest)) else .error .malformed
  | .comma :: rest =>
    if first then .error .malformed
    else
      match rest with
      | [] => .error .cutShort
      | .text q :: rest => .ok (some (q, rest))
      | _ => .error .malformed
  | _ => .error .malformed

/-- Takes the colon after a name. -/
def afterColon : List Token → Except Fault (List Token)
  | [] => .error .cutShort
  | .colon :: rest => .ok rest
  | _ => .error .malformed

/-- Reads the members of an object after its opening, at most as many as the number says. A field that comes twice is a
fault at its second name. -/
def membersWithin {σ : Type} (fields : List (Field σ)) :
    Nat → Bool → List String → σ → List Token → Except Fault (σ × List Token)
  | 0, _, _, _, _ => .error .cutShort
  | n + 1, first, seen, x, ts => do
    match ← nextName first ts with
    | none => if incomplete fields seen then .error .mismatch else .ok (x, ts.drop 1)
    | some (q, ts) =>
      let name := String.ofList (← q.chars)
      match fields.find? (fun f => f.name = name) with
      | some f =>
        if seen.contains name then .error .mismatch
        else
          let ts ← afterColon ts
          let (x, ts) ← f.read ts x
          membersWithin fields n false (name :: seen) x ts
      | none =>
        let ts ← afterColon ts
        let ts ← skipValue ts
        membersWithin fields n false seen x ts

/-- Reads the fields of a record from an array after its opening. Fields that may be left out may be missing at the end. -/
def positions {σ : Type} : List (Field σ) → Bool → σ → List Token → Except Fault (σ × List Token)
  | [], _, x, ts =>
    match ts with
    | [] => .error .cutShort
    | .closeArray :: rest => .ok (x, rest)
    | _ => .error .malformed
  | f :: fields, first, x, ts => do
    match ← nextItem first ts with
    | none => if incomplete (f :: fields) [] then .error .mismatch else .ok (x, ts.drop 1)
    | some ts =>
      let (x, ts) ← f.read ts x
      positions fields false x ts

/-- The record that the members of an object stand for. -/
def ofMembers? {σ : Type} (fields : List (Field σ)) : List String → σ → List (List Char × Json) → Option σ
  | seen, x, [] => if incomplete fields seen then none else some x
  | seen, x, (n, j) :: rest =>
    let name := String.ofList n
    match fields.find? (fun f => f.name = name) with
    | some f =>
      if seen.contains name then none
      else do
        let x ← f.ofJson? j x
        ofMembers? fields (name :: seen) x rest
    | none => ofMembers? fields seen x rest

/-- The record that the items of an array stand for. -/
def ofItems? {σ : Type} : List (Field σ) → σ → List Json → Option σ
  | [], x, [] => some x
  | [], _, _ :: _ => none
  | f :: fields, x, [] => if incomplete (f :: fields) [] then none else some x
  | f :: fields, x, j :: rest => do
    let x ← f.ofJson? j x
    ofItems? fields x rest

/-- A record with fields, starting from the values that fields have when they are left out. -/
def record {σ : Type} (start : σ) (fields : List (Field σ)) : Shape σ where
  read
    | [] => .error .cutShort
    | .openObject :: rest => membersWithin fields (rest.length + 1) true [] start rest
    | .openArray :: rest => positions fields true start rest
    | t :: _ => .error t.unsuitable
  ofJson?
    | .object members => ofMembers? fields [] start members
    | .array items => ofItems? fields start items
    | _ => none

end Shape

/-- Reads a whole text: one value and nothing after it. -/
def Shape.parse {α : Type} (s : Shape α) (text : String) : Except Fault α := do
  match ← s.read (tokens text.toList) with
  | (a, []) => .ok a
  | _ => .error .malformed

end Peripheral.Json
