import Std.Data.ExtTreeMap
import Inventory.Error
import Inventory.Number.Decimal
import Inventory.Schema.Mask
import Inventory.Json.Key

/-!
# Entities and their keys

An entity is a record with a key. Besides the fields of its schema it carries `fields`, the
addresses of the fields that a request wants to change; these are never stored.

`ObjKey` is what a type of keys offers: an order, a check, a comparison with a filter and a key
string. `Entity` is what a type of entities offers: its schema, its key, a check of selected
fields and a comparison with a filter. In a filter a zero value stands for any value.
-/

namespace Inventory

/-- A type of keys. -/
class ObjKey (κ : Type) extends Ord κ where
  trans : Std.TransOrd κ
  lawfulEq : Std.LawfulEqOrd κ
  /-- The key none of whose fields was given a value. -/
  zero : κ
  /-- Refuses a key that no object can have. -/
  validate : κ → StoreResult Unit
  /-- Whether a key agrees with a filter. -/
  passes : (key filter : κ) → Bool
  keyString : κ → String
  ofKeyString : String → StoreResult κ

attribute [instance] ObjKey.trans ObjKey.lawfulEq

namespace Record

variable {κ : Type} [Record κ]

/-- The key string of a record of texts. -/
def keyString (h : (shape κ).Textual) (k : κ) : String :=
  String.ofList ((shape κ).writeJson h (toVal k))

/-- The record of texts that a key string stands for. -/
def ofKeyString (h : (shape κ).Textual) (s : String) : StoreResult κ :=
  match Json.whole ((shape κ).readJson h s.toList) with
  | some v => .ok (ofVal v)
  | none => .error (.codec (.invalidKeyString s CodecError.noDetail))

end Record

/-- A type of entities. -/
class Entity (α : Type) where
  Key : Type
  objKey : ObjKey Key
  typeName : String
  schema : Fields
  /-- The addresses of the fields that a request wants to change. -/
  fields : α → List String
  /-- The values of the schema's fields. -/
  body : α → schema.Val
  /-- The entity with given `fields` and values. -/
  make : List String → schema.Val → α
  key : α → Key
  setKey : Key → α → α
  /-- Refuses an entity whose key or one of whose selected fields is not allowed. -/
  validate : FieldMap → α → StoreResult Unit
  /-- Whether an entity agrees with a filter. -/
  passes : (obj filter : α) → Bool
  /-- Whether an entity belongs to an organization. -/
  usesOrg : String → α → Bool
  make_fields_body : ∀ a, make (fields a) (body a) = a := by intro; rfl
  fields_make : ∀ fs v, fields (make fs v) = fs := by intros; rfl
  body_make : ∀ fs v, body (make fs v) = v := by intros; rfl

attribute [reducible, instance] Entity.objKey

/-- The order of the keys of a type of entities is transitive. -/
instance Entity.transKey {α : Type} [Entity α] :
    Std.TransCmp (compare : Entity.Key α → Entity.Key α → Ordering) :=
  ObjKey.trans

namespace Entity

variable {α : Type} [Entity α]

variable (α) in
/-- The entity none of whose fields was given a value. -/
def zero : α := make [] (schema α).zero

/-- The entity without the addresses of what a request wants to change. -/
def clearFields (a : α) : α := make [] (body a)

/-- Whether two entities are the same, leaf by leaf. -/
def same (a b : α) : Bool := decide (fields a = fields b) && (schema α).same (body a) (body b)

/-- Replaces the selected leaves of an entity by those of another; gives the new entity and how
many leaves changed. -/
def copyFrom (mask : FieldMap) (path : FieldPath) (dst src : α) : α × Nat :=
  let copied := (schema α).copyFrom mask path (body dst) (body src)
  (make (fields dst) copied.1, copied.2)

variable (α) in
/-- The addresses of all leaves. -/
def allFields : List String := ((schema α).leafPaths .root).map (·.text)

variable (α) in
/-- The selection of every field. -/
def fullMask : FieldMap := .ofFields (allFields α)

/-- The selection that an entity asks for: every field if it names none. -/
def maskFor (a : α) : FieldMap :=
  if (fields a).isEmpty then fullMask α else .ofFields (fields a)

end Entity

/-! ## Parts of checks and comparisons -/

/-- Refuses an empty text. -/
def require (value what : String) : StoreResult Unit :=
  if value.isEmpty then .error (.invalid ("missing " ++ what)) else .ok ()

/-- Whether a leaf agrees with a filter: every value agrees with zero. -/
def Leaf.agrees (kind : Leaf) (value filter : kind.Val) : Bool :=
  kind.same filter kind.zero || kind.same value filter

/-- Whether a text agrees with a filter. -/
abbrev textAgrees : (value filter : String) → Bool := Leaf.agrees .text

/-- Whether a double agrees with a filter. -/
abbrev realAgrees : (value filter : Double) → Bool := Leaf.agrees .real

/-- Refuses a number that is not above zero. -/
def requirePositive (field : String) (value : Double) : StoreResult Unit :=
  if Double.zero.lt value then .ok ()
  else .error (.invalid ("invalid " ++ field ++ ": " ++ value.text ++ " must be greater than 0"))

/-- Refuses a number below zero. -/
def requireNonnegative (field : String) (value : Double) : StoreResult Unit :=
  if Double.zero.le value then .ok ()
  else .error (.invalid ("invalid " ++ field ++ ": " ++ value.text ++ " must be at least 0"))

/-- Checks what is checked only for selected fields. -/
def FieldMap.check (mask : FieldMap) (path : String) (check : StoreResult Unit) :
    StoreResult Unit :=
  if mask.has path then check else .ok ()

end Inventory
