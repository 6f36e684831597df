import Std.Data.ExtTreeSet
import Inventory.Schema.Basic

/-!
# Selecting fields

A field is addressed by the dotted path of the field numbers that lead to it: `2.1.2` is field
`2` of field `1` of field `2`. A `FieldMap` is a set of such paths together with all their
ancestors, so that a copy which walks a record from the top can see at each record inside it
whether anything below is selected. Naming a record selects none of its leaves.

`Fields.copyFrom` replaces the selected leaves of one record by those of another and counts the
leaves whose value changed.
-/

namespace Inventory

/-- The address of a field: field numbers with dots between them, nothing for the record that
the address starts from. -/
structure FieldPath where
  text : String
  deriving DecidableEq, Repr

namespace FieldPath

/-- The record that addresses start from. -/
def root : FieldPath := ⟨""⟩

/-- The address of a field of the record at an address. -/
def child (path : FieldPath) (tag : Nat) : FieldPath :=
  if path.text.isEmpty then ⟨tag.repr⟩ else ⟨path.text ++ "." ++ tag.repr⟩

/-- Whether this is the record that addresses start from. -/
def isRoot (path : FieldPath) : Bool := path.text.isEmpty

end FieldPath

/-- A set of field addresses. -/
structure FieldMap where
  paths : Std.ExtTreeSet String

namespace FieldMap

/-- What stands before each dot of an address. -/
def ancestors : List Char → List (List Char)
  | [] => []
  | c :: cs => (if c = '.' then [[]] else []) ++ (ancestors cs).map (c :: ·)

/-- An address and its ancestors; the empty one names nothing. -/
def closure (field : String) : List String :=
  if field.isEmpty then []
  else (ancestors field.toList).map String.ofList ++ [field]

/-- The set of some addresses and all their ancestors. -/
def ofFields (fields : List String) : FieldMap := ⟨.ofList (fields.flatMap closure)⟩

/-- Whether an address is in the set. -/
def has (m : FieldMap) (path : String) : Bool := m.paths.contains path

/-- Whether the address of a field is in the set. -/
def hasPath (m : FieldMap) (path : FieldPath) : Bool := m.has path.text

/-- How many addresses the set holds. -/
def size (m : FieldMap) : Nat := m.paths.size

/-- Whether the set holds no address. -/
def isEmpty (m : FieldMap) : Bool := m.paths.isEmpty

/-- Whether two sets hold the same addresses. -/
def same (m n : FieldMap) : Bool := decide (m.paths.toList = n.paths.toList)

end FieldMap

mutual

/-- The addresses of the leaves of a shape. -/
def Shape.leafPaths : Shape → FieldPath → List FieldPath
  | .leaf _, path => [path]
  | .record fields, path => fields.leafPaths path

/-- The addresses of the leaves of the fields of a record. -/
def Fields.leafPaths : Fields → FieldPath → List FieldPath
  | .nil, _ => []
  | .cons tag _ shape rest, path => shape.leafPaths (path.child tag) ++ rest.leafPaths path

end

mutual

/-- Replaces the selected leaves of a value; gives the new value and how many leaves changed. -/
def Shape.copyFrom (mask : FieldMap) : (s : Shape) → FieldPath → (dst src : s.Val) → s.Val × Nat
  | .leaf kind, path, dst, src =>
    if mask.hasPath path && !kind.same dst src then (src, 1) else (dst, 0)
  | .record fields, path, dst, src =>
    if mask.hasPath path then fields.copyFrom mask path dst src else (dst, 0)

/-- Replaces the selected leaves of the fields of a record. -/
def Fields.copyFrom (mask : FieldMap) :
    (fs : Fields) → FieldPath → (dst src : fs.Val) → fs.Val × Nat
  | .nil, _, _, _ => ((), 0)
  | .cons tag _ shape rest, path, dst, src =>
    let head := shape.copyFrom mask (path.child tag) dst.1 src.1
    let tail := rest.copyFrom mask path dst.2 src.2
    ((head.1, tail.1), head.2 + tail.2)

end

end Inventory
