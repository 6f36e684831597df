import Inventory.Schema.Partial
import Inventory.Json.Skip

/-!
# Key strings

The string of a key is an object with a member for each field in the order of the schema, and
without gaps. Only shapes whose leaves are all texts have one (`Shape.Textual`).

A reader takes an object in any order, passes over members that the key does not know, gives
zero values to fields that are missing and refuses a field that comes twice. It also takes a
list of the values in the order of the schema, which may end early.
-/

namespace Inventory

mutual

/-- Shapes whose leaves are all texts. -/
def Shape.Textual : Shape → Prop
  | .leaf .text => True
  | .leaf _ => False
  | .record fields => fields.Textual

/-- Fields whose leaves are all texts. -/
def Fields.Textual : Fields → Prop
  | .nil => True
  | .cons _ _ shape rest => shape.Textual ∧ rest.Textual

end

mutual

/-- The written form of a value. -/
def Shape.writeJson : (s : Shape) → s.Textual → s.Val → List Char
  | .leaf .text, _, v => Json.writeText v
  | .leaf .texts, h, _ | .leaf .word32, h, _ | .leaf .word64, h, _ | .leaf .int64, h, _
  | .leaf .real, h, _ | .leaf (.choice _), h, _ => h.elim
  | .record fields, h, v => '\x7b' :: fields.writeJson h true v ++ ['\x7d']

/-- The members of an object, with commas before all but the first. -/
def Fields.writeJson : (fs : Fields) → fs.Textual → (first : Bool) → fs.Val → List Char
  | .nil, _, _, _ => []
  | .cons _ name shape rest, h, first, v =>
    (if first then [] else [',']) ++ Json.writeText name ++ ':' :: shape.writeJson h.1 v.1 ++
      rest.writeJson h.2 false v.2

end

namespace Json

/-- Reads the members of an object after its opening brace or a comma, up to and with its
closing brace. `member` reads the value of a member into what has been read so far. -/
def readMembers {σ : Type} (member : List Char → σ → List Char → Option (σ × List Char)) :
    Nat → σ → List Char → Option (σ × List Char)
  | 0, _, _ => none
  | fuel + 1, st, cs =>
    match skipGap cs with
    | '"' :: rest =>
      match readText rest with
      | none => none
      | some (name, rest) =>
        match skipGap rest with
        | ':' :: rest =>
          match member name st rest with
          | none => none
          | some (st, rest) =>
            match skipGap rest with
            | ',' :: rest => readMembers member fuel st rest
            | '\x7d' :: rest => some (st, rest)
            | _ => none
        | _ => none
    | _ => none

/-- Whether a list goes on. -/
inductive ItemStart where
  | ended | follows

/-- Reads what stands before an item: nothing before the first, a comma before the others, or
the closing bracket instead. -/
def itemStart (first : Bool) (cs : List Char) : Option (ItemStart × List Char) :=
  match skipGap cs with
  | ']' :: rest => some (.ended, rest)
  | ',' :: rest => if first then none else some (.follows, rest)
  | cs => if first then some (.follows, cs) else none

end Json

mutual

/-- Reads a value. -/
def Shape.readJson : (s : Shape) → s.Textual → List Char → Option (s.Val × List Char)
  | .leaf .text, _, cs =>
    match Json.skipGap cs with
    | '"' :: rest => (Json.readText rest).map fun (text, rest) => (String.ofList text, rest)
    | _ => none
  | .leaf .texts, h, _ | .leaf .word32, h, _ | .leaf .word64, h, _ | .leaf .int64, h, _
  | .leaf .real, h, _ | .leaf (.choice _), h, _ => h.elim
  | .record fields, h, cs =>
    match Json.skipGap cs with
    | '\x7b' :: rest =>
      match Json.skipGap rest with
      | '\x7d' :: rest => some (fields.zero, rest)
      | rest =>
        (Json.readMembers (fields.readMember h) rest.length fields.blank rest).map
          fun (st, rest) => (fields.complete st, rest)
    | '[' :: rest => fields.readItems h true rest
    | _ => none

/-- Reads the value of the member with a name. -/
def Fields.readMember : (fs : Fields) → fs.Textual → List Char → fs.Partial → List Char →
    Option (fs.Partial × List Char)
  | .nil, _, _, _, cs => (Json.skip cs).map fun rest => ((), rest)
  | .cons _ known shape rest, h, name, st, cs =>
    if name = known.toList then
      match st.1 with
      | some _ => none
      | none => (shape.readJson h.1 cs).map fun (v, cs) => ((some v, st.2), cs)
    else (rest.readMember h.2 name st.2 cs).map fun (p, cs) => ((st.1, p), cs)

/-- Reads the remaining items of a list, up to and with its closing bracket. -/
def Fields.readItems : (fs : Fields) → fs.Textual → (first : Bool) → List Char →
    Option (fs.Val × List Char)
  | .nil, _, _, cs =>
    match Json.skipGap cs with
    | ']' :: rest => some ((), rest)
    | _ => none
  | .cons _ _ shape rest, h, first, cs =>
    match Json.itemStart first cs with
    | none => none
    | some (.ended, cs) => some ((shape.zero, rest.zero), cs)
    | some (.follows, cs) =>
      match shape.readJson h.1 cs with
      | none => none
      | some (v, cs) => (rest.readItems h.2 false cs).map fun (vs, cs) => ((v, vs), cs)

end

namespace Json

/-- A reader's result for a whole text, which may have gaps around the value and nothing
else. -/
def whole {α : Type} (result : Option (α × List Char)) : Option α :=
  match result with
  | some (v, rest) => if (skipGap rest).isEmpty then some v else none
  | none => none

/-- The key string of a plain text. -/
def ofText (s : String) : String := String.ofList (writeText s)

/-- The plain text of a key string. -/
def toText? (s : String) : Option String :=
  whole (Shape.readJson (.leaf .text) trivial s.toList)

end Json

end Inventory
