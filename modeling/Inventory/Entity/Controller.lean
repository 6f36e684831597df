import Inventory.Entity.Basic

/-!
# Controllers

A controller is a process that serves requests, known by its address.
-/

namespace Inventory

/-- The key of a controller. -/
structure ControllerKey where
  addr : String
  deriving DecidableEq, Repr

namespace ControllerKey

instance : Record ControllerKey where
  schema := .cons 1 "addr" (.leaf .text) .nil
  toVal k := (k.addr, ())
  ofVal v := ⟨v.1⟩

theorem textual : (Record.shape ControllerKey).Textual := ⟨trivial, trivial⟩

instance : Ord ControllerKey := ⟨compareOn addr⟩

instance : Std.TransOrd ControllerKey := inferInstanceAs (Std.TransCmp (compareOn addr))

instance : Std.LawfulEqOrd ControllerKey where
  eq_of_compare {a b} h := by
    obtain ⟨x⟩ := a
    obtain ⟨y⟩ := b
    have h : compare x y = .eq := h
    simpa using h

/-- Refuses a key without an address. -/
def validate (k : ControllerKey) : StoreResult Unit := require k.addr "controller address"

/-- Whether a key agrees with a filter. -/
def passes (k filter : ControllerKey) : Bool := textAgrees k.addr filter.addr

instance : ObjKey ControllerKey where
  trans := inferInstance
  lawfulEq := inferInstance
  zero := Record.zero ControllerKey
  validate := validate
  passes := passes
  keyString := Record.keyString textual
  ofKeyString := Record.ofKeyString textual

end ControllerKey

/-- A controller. -/
structure Controller where
  fields : List String
  key : ControllerKey
  buildMaster : String
  buildHead : String
  buildAuthor : String
  hostname : String
  deriving DecidableEq, Repr

namespace Controller

/-- Whether a controller agrees with a filter. -/
def passes (c filter : Controller) : Bool :=
  c.key.passes filter.key
    && textAgrees c.buildMaster filter.buildMaster
    && textAgrees c.buildHead filter.buildHead
    && textAgrees c.buildAuthor filter.buildAuthor
    && textAgrees c.hostname filter.hostname

instance : Entity Controller where
  Key := ControllerKey
  objKey := inferInstance
  typeName := "Controller"
  schema :=
    .cons 2 "key" (Record.shape ControllerKey) <|
    .cons 4 "build_master" (.leaf .text) <|
    .cons 5 "build_head" (.leaf .text) <|
    .cons 6 "build_author" (.leaf .text) <|
    .cons 7 "hostname" (.leaf .text) .nil
  fields := Controller.fields
  body c := (Record.toVal c.key, c.buildMaster, c.buildHead, c.buildAuthor, c.hostname, ())
  make fs v := ⟨fs, Record.ofVal v.1, v.2.1, v.2.2.1, v.2.2.2.1, v.2.2.2.2.1⟩
  key := Controller.key
  setKey k c := { c with key := k }
  validate _ c := c.key.validate
  passes := passes
  usesOrg _ _ := false

end Controller

end Inventory
