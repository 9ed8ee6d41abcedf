import Peripheral.Json.Shape

/-!
# Tagged values

A value of one of several kinds is written as an object in which one member, the tag, names the kind; the tag may stand
anywhere among the other members. It may also be written as an array whose first item is the tag. What stands beside the
tag is read whole and then taken apart, so whatever is wrong there is reported only after the end of the value.
-/

namespace Peripheral.Json

/-- One of the kinds of a tagged value, with the value that the members or items beside the tag stand for. -/
structure Variant (α : Type) where
  tag : String
  ofJson? : Json → Option α

namespace Shape

/-- The most arrays and objects that may be open at once in a text. -/
def maxDepth : Nat := 127

/-- Reads a tag. -/
def tagOf {α : Type} (variants : List (Variant α)) (ts : List Token) : Except Fault (Variant α × List Token) := do
  let (name, ts) ← text.read ts
  match variants.find? (fun v => v.tag = name) with
  | some v => .ok (v, ts)
  | none => .error .mismatch

/-- The value of a kind, from what stood beside the tag. -/
def ofVariant {α : Type} (v : Variant α) (j : Json) (ts : List Token) : Except Fault (α × List Token) :=
  match v.ofJson? j with
  | some a => .ok (a, ts)
  | none => .error .mismatch

/-- Reads the members of a tagged object after its opening, at most as many as the number says. -/
def taggedMembersWithin {α : Type} (key : String) (variants : List (Variant α)) (r : Reading) :
    Nat → Bool → Option (Variant α) → List (List Char × Json) → List Token → Except Fault (α × List Token)
  | 0, _, _, _, _ => .error .cutShort
  | n + 1, first, tag, done, ts => do
    match ← nextName first ts with
    | none =>
      match tag with
      | some v => ofVariant v (.object done.reverse) (ts.drop 1)
      | none => .error .mismatch
    | some (q, ts) =>
      let name ← q.chars
      if String.ofList name = key then
        if tag.isSome then .error .mismatch
        else
          let ts ← afterColon ts
          let (v, ts) ← tagOf variants ts
          taggedMembersWithin key variants r n false (some v) done ts
      else
        let ts ← afterColon ts
        let (j, ts) ← readValue r ts
        taggedMembersWithin key variants r n false tag ((name, j) :: done) ts

/-- Reads the items of a tagged array after its tag, at most as many as the number says. -/
def taggedItemsWithin {α : Type} (v : Variant α) (r : Reading) :
    Nat → List Json → List Token → Except Fault (α × List Token)
  | 0, _, _ => .error .cutShort
  | n + 1, done, ts => do
    match ← nextItem false ts with
    | none => ofVariant v (.array done.reverse) (ts.drop 1)
    | some ts =>
      let (j, ts) ← readValue r ts
      taggedItemsWithin v r n (j :: done) ts

/-- A tagged value that is read with the given number of arrays and objects open around it and by it. -/
def tagged {α : Type} (key : String) (variants : List (Variant α)) (depth : Nat) : Shape α where
  read
    | [] => .error .cutShort
    | .openObject :: rest =>
      taggedMembersWithin key variants (.whole (maxDepth - depth)) (rest.length + 1) true none [] rest
    | .openArray :: rest => do
      match ← nextItem true rest with
      | none => .error .mismatch
      | some ts =>
        let (v, ts) ← tagOf variants ts
        taggedItemsWithin v (.whole (maxDepth - depth)) (ts.length + 1) [] ts
    | t :: _ => .error t.unsuitable
  ofJson? _ := none

end Shape

end Peripheral.Json
