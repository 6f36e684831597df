import Inventory.Entity.Basic

/-!
# Flavors

A flavor is a size of machine.
-/

namespace Inventory

/-- The key of a flavor. -/
structure FlavorKey where
  name : String
  deriving DecidableEq, Repr

namespace FlavorKey

instance : Record FlavorKey where
  schema := .cons 1 "name" (.leaf .text) .nil
  toVal k := (k.name, ())
  ofVal v := ⟨v.1⟩

theorem textual : (Record.shape FlavorKey).Textual := ⟨trivial, trivial⟩

instance : Ord FlavorKey := ⟨compareOn name⟩

instance : Std.TransOrd FlavorKey := inferInstanceAs (Std.TransCmp (compareOn name))

instance : Std.LawfulEqOrd FlavorKey where
  eq_of_compare {a b} h := by
    obtain ⟨x⟩ := a
    obtain ⟨y⟩ := b
    have h : compare x y = .eq := h
    simpa using h

/-- Refuses a key without a name. -/
def validate (k : FlavorKey) : StoreResult Unit := require k.name "flavor name"

/-- Whether a key agrees with a filter. -/
def passes (k filter : FlavorKey) : Bool := textAgrees k.name filter.name

instance : ObjKey FlavorKey where
  trans := inferInstance
  lawfulEq := inferInstance
  zero := Record.zero FlavorKey
  validate := validate
  passes := passes
  keyString := Record.keyString textual
  ofKeyString := Record.ofKeyString textual

end FlavorKey

/-- A flavor. -/
structure Flavor where
  fields : List String
  key : FlavorKey
  ram : UInt64
  vcpus : UInt64
  disk : UInt64
  deriving DecidableEq, Repr

namespace Flavor

/-- The most virtual processors a machine can have. -/
def maxVcpus : Nat := 1024

/-- Refuses a flavor that no machine can have. -/
def validate (mask : FieldMap) (f : Flavor) : StoreResult Unit := do
  f.key.validate
  mask.check "4" <|
    if maxVcpus < f.vcpus.toNat then
      .error (.invalid ("vcpus " ++ f.vcpus.toNat.repr ++ " exceeds limit of 1024"))
    else .ok ()

/-- Whether a flavor agrees with a filter. -/
def passes (f filter : Flavor) : Bool :=
  f.key.passes filter.key
    && Leaf.agrees .word64 f.ram filter.ram
    && Leaf.agrees .word64 f.vcpus filter.vcpus
    && Leaf.agrees .word64 f.disk filter.disk

instance : Entity Flavor where
  Key := FlavorKey
  objKey := inferInstance
  typeName := "Flavor"
  schema :=
    .cons 2 "key" (Record.shape FlavorKey) <|
    .cons 3 "ram" (.leaf .word64) <|
    .cons 4 "vcpus" (.leaf .word64) <|
    .cons 5 "disk" (.leaf .word64) .nil
  fields := Flavor.fields
  body f := (Record.toVal f.key, f.ram, f.vcpus, f.disk, ())
  make fs v := ⟨fs, Record.ofVal v.1, v.2.1, v.2.2.1, v.2.2.2.1⟩
  key := Flavor.key
  setKey k f := { f with key := k }
  validate := validate
  passes := passes
  usesOrg _ _ := false

end Flavor

end Inventory
