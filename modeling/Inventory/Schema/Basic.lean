import Inventory.Number.Double

/-!
# Schemas

What an entity or a key consists of is written down once, as a schema: a tree of numbered and
named fields whose leaves are texts, lists of texts, integers of a width, doubles and choices.
`Shape.Val` and `Fields.Val` are the types of the values that a schema describes. Everything
that has to treat every field alike (the encodings, the copying of selected fields, the
comparison of values) is defined by recursion on the schema.
-/

namespace Inventory

/-- How an application image is packaged. -/
inductive ImageType where
  | unknown | docker | qcow
  deriving DecidableEq, Repr

/-- How an application instance came to run where it does. -/
inductive Liveness where
  | unknown | static | dynamic
  deriving DecidableEq, Repr

/-- How the flow of requests is limited. -/
inductive FlowAlgorithm where
  | unknown | tokenBucket | leakyBucket
  deriving DecidableEq, Repr

/-- The choices that a leaf can offer. -/
inductive Choice where
  | imageType | liveness | flowAlgorithm
  deriving DecidableEq, Repr

namespace Choice

/-- The values a choice is between. -/
@[reducible] def Val : Choice → Type
  | imageType => ImageType
  | liveness => Liveness
  | flowAlgorithm => FlowAlgorithm

/-- The values of a choice under their names. -/
def variants : (c : Choice) → List (String × c.Val)
  | imageType => [("Unknown", .unknown), ("Docker", .docker), ("Qcow", .qcow)]
  | liveness => [("Unknown", .unknown), ("Static", .static), ("Dynamic", .dynamic)]
  | flowAlgorithm =>
    [("Unknown", .unknown), ("TokenBucket", .tokenBucket), ("LeakyBucket", .leakyBucket)]

/-- The value of a choice that was not made. -/
def zero : (c : Choice) → c.Val
  | imageType => ImageType.unknown
  | liveness => Liveness.unknown
  | flowAlgorithm => FlowAlgorithm.unknown

/-- Whether two values of a choice are the same. -/
def same : (c : Choice) → c.Val → c.Val → Bool
  | imageType, a, b => decide (a = b)
  | liveness, a, b => decide (a = b)
  | flowAlgorithm, a, b => decide (a = b)

/-- The name of a value. -/
def name (c : Choice) (v : c.Val) : String :=
  ((c.variants.find? fun p => c.same p.2 v).map (·.1)).getD ""

/-- The value of a name. -/
def ofName? (c : Choice) (s : String) : Option c.Val :=
  (c.variants.find? fun p => p.1 == s).map (·.2)

end Choice

/-- The kinds of values that are not made of fields. -/
inductive Leaf where
  | text | texts | word32 | word64 | int64 | real
  | choice (c : Choice)
  deriving DecidableEq, Repr

namespace Leaf

/-- The values of a kind. -/
@[reducible] def Val : Leaf → Type
  | text => String
  | texts => List String
  | word32 => UInt32
  | word64 => UInt64
  | int64 => Int64
  | real => Double
  | choice c => c.Val

/-- The value of a leaf that was not given one. -/
def zero : (l : Leaf) → l.Val
  | text => ""
  | texts => []
  | word32 => (0 : UInt32)
  | word64 => (0 : UInt64)
  | int64 => (0 : Int64)
  | real => Double.zero
  | choice c => c.zero

/-- Whether two values of a leaf are the same; doubles are compared as numbers. -/
def same : (l : Leaf) → l.Val → l.Val → Bool
  | text, a, b => decide (a = b)
  | texts, a, b => decide (a = b)
  | word32, a, b => decide (a = b)
  | word64, a, b => decide (a = b)
  | int64, a, b => decide (a = b)
  | real, a, b => Double.eqv a b
  | choice c, a, b => c.same a b

end Leaf

mutual

/-- What a field holds: a leaf, or further fields. -/
inductive Shape where
  | leaf (kind : Leaf)
  | record (fields : Fields)

/-- A sequence of fields, each with the number that selects it, the name it is stored under and
what it holds. -/
inductive Fields where
  | nil
  | cons (tag : Nat) (name : String) (shape : Shape) (rest : Fields)

end

mutual

/-- The values of a shape. -/
@[reducible] def Shape.Val : Shape → Type
  | .leaf kind => kind.Val
  | .record fields => fields.Val

/-- The values of a sequence of fields: one value after another. -/
@[reducible] def Fields.Val : Fields → Type
  | .nil => Unit
  | .cons _ _ shape rest => shape.Val × rest.Val

end

mutual

/-- The value of a field that was not given one. -/
def Shape.zero : (s : Shape) → s.Val
  | .leaf kind => kind.zero
  | .record fields => fields.zero

/-- The values of fields that were not given any. -/
def Fields.zero : (fs : Fields) → fs.Val
  | .nil => ()
  | .cons _ _ shape rest => (shape.zero, rest.zero)

end

mutual

/-- Whether two values of a shape are the same, leaf by leaf. -/
def Shape.same : (s : Shape) → s.Val → s.Val → Bool
  | .leaf kind, a, b => kind.same a b
  | .record fields, a, b => fields.same a b

/-- Whether two sequences of values are the same, leaf by leaf. -/
def Fields.same : (fs : Fields) → fs.Val → fs.Val → Bool
  | .nil, _, _ => true
  | .cons _ _ shape rest, a, b => shape.same a.1 b.1 && rest.same a.2 b.2

end

namespace Fields

/-- How many fields there are, those inside fields not counted. -/
def count : Fields → Nat
  | .nil => 0
  | .cons _ _ _ rest => rest.count + 1

end Fields

/-- A type of records whose fields a schema describes. -/
class Record (α : Type) where
  schema : Fields
  toVal : α → schema.Val
  ofVal : schema.Val → α
  ofVal_toVal : ∀ a, ofVal (toVal a) = a := by intro; rfl
  toVal_ofVal : ∀ v, toVal (ofVal v) = v := by intro; rfl

namespace Record

/-- The record none of whose fields was given a value. -/
def zero (α : Type) [Record α] : α := ofVal (schema α).zero

/-- The shape of a field that holds a record. -/
def shape (α : Type) [Record α] : Shape := .record (schema α)

end Record

end Inventory
