import Inventory.Entity.Basic

/-!
# Operators

An operator runs cloudlets.
-/

namespace Inventory

/-- The key of an operator. -/
structure OperatorKey where
  name : String
  deriving DecidableEq, Repr

namespace OperatorKey

instance : Record OperatorKey where
  schema := .cons 1 "name" (.leaf .text) .nil
  toVal k := (k.name, ())
  ofVal v := ⟨v.1⟩

theorem textual : (Record.shape OperatorKey).Textual := ⟨trivial, trivial⟩

instance : Ord OperatorKey := ⟨compareOn name⟩

instance : Std.TransOrd OperatorKey := inferInstanceAs (Std.TransCmp (compareOn name))

instance : Std.LawfulEqOrd OperatorKey where
  eq_of_compare {a b} h := by
    obtain ⟨x⟩ := a
    obtain ⟨y⟩ := b
    have h : compare x y = .eq := h
    simpa using h

/-- Refuses a key without a name. -/
def validate (k : OperatorKey) : StoreResult Unit := require k.name "operator name"

/-- Whether a key agrees with a filter. -/
def passes (k filter : OperatorKey) : Bool := textAgrees k.name filter.name

instance : ObjKey OperatorKey where
  trans := inferInstance
  lawfulEq := inferInstance
  zero := Record.zero OperatorKey
  validate := validate
  passes := passes
  keyString := Record.keyString textual
  ofKeyString := Record.ofKeyString textual

end OperatorKey

/-- An operator. -/
structure Operator where
  fields : List String
  key : OperatorKey
  deriving DecidableEq, Repr

instance : Entity Operator where
  Key := OperatorKey
  objKey := inferInstance
  typeName := "Operator"
  schema := .cons 2 "key" (Record.shape OperatorKey) .nil
  fields := Operator.fields
  body o := (Record.toVal o.key, ())
  make fs v := ⟨fs, Record.ofVal v.1⟩
  key := Operator.key
  setKey k o := { o with key := k }
  validate _ o := o.key.validate
  passes o filter := o.key.passes filter.key
  usesOrg org o := o.key.name == org

end Inventory
