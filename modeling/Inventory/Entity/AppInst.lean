import Inventory.Entity.App
import Inventory.Entity.Cloudlet

/-!
# Application instances

An instance is an application that runs on a cloudlet. Its `uniqueId` is unique in the region
and its `dnsLabel` on its cloudlet.
-/

namespace Inventory

/-- The key of an instance. -/
structure AppInstKey where
  appKey : AppKey
  cloudletKey : CloudletKey
  deriving DecidableEq, Repr

namespace AppInstKey

instance : Record AppInstKey where
  schema :=
    .cons 1 "app_key" (Record.shape AppKey) <|
    .cons 2 "cloudlet_key" (Record.shape CloudletKey) .nil
  toVal k := (Record.toVal k.appKey, Record.toVal k.cloudletKey, ())
  ofVal v := ⟨Record.ofVal v.1, Record.ofVal v.2.1⟩

theorem textual : (Record.shape AppInstKey).Textual :=
  ⟨AppKey.textual, CloudletKey.textual, trivial⟩

instance : Ord AppInstKey := ⟨compareLex (compareOn appKey) (compareOn cloudletKey)⟩

instance : Std.TransOrd AppInstKey :=
  inferInstanceAs (Std.TransCmp (compareLex (compareOn appKey) (compareOn cloudletKey)))

instance : Std.LawfulEqOrd AppInstKey where
  eq_of_compare {a b} h := by
    cases a; cases b
    have h : (compare _ _).then (compare _ _) = .eq := h
    simpa using h

/-- Refuses a key whose application or cloudlet cannot be. -/
def validate (k : AppInstKey) : StoreResult Unit := do
  k.appKey.validate
  k.cloudletKey.validate

/-- Whether a key agrees with a filter. -/
def passes (k filter : AppInstKey) : Bool :=
  k.appKey.passes filter.appKey && k.cloudletKey.passes filter.cloudletKey

instance : ObjKey AppInstKey where
  trans := inferInstance
  lawfulEq := inferInstance
  zero := Record.zero AppInstKey
  validate := validate
  passes := passes
  keyString := Record.keyString textual
  ofKeyString := Record.ofKeyString textual

end AppInstKey

/-- An application instance. -/
structure AppInst where
  fields : List String
  key : AppInstKey
  cloudletLoc : Loc
  uri : String
  flavor : FlavorKey
  dnsLabel : String
  uniqueId : String
  liveness : Liveness
  deriving DecidableEq, Repr

namespace AppInst

/-- Whether an instance agrees with a filter. -/
def passes (i filter : AppInst) : Bool :=
  i.key.passes filter.key
    && i.cloudletLoc.passes filter.cloudletLoc
    && textAgrees i.uri filter.uri
    && i.flavor.passes filter.flavor
    && textAgrees i.dnsLabel filter.dnsLabel
    && textAgrees i.uniqueId filter.uniqueId
    && Leaf.agrees (.choice .liveness) i.liveness filter.liveness

instance : Entity AppInst where
  Key := AppInstKey
  objKey := inferInstance
  typeName := "AppInst"
  schema :=
    .cons 2 "key" (Record.shape AppInstKey) <|
    .cons 3 "cloudlet_loc" (Record.shape Loc) <|
    .cons 4 "uri" (.leaf .text) <|
    .cons 5 "flavor" (Record.shape FlavorKey) <|
    .cons 6 "dns_label" (.leaf .text) <|
    .cons 7 "unique_id" (.leaf .text) <|
    .cons 8 "liveness" (.leaf (.choice .liveness)) .nil
  fields := AppInst.fields
  body i := (Record.toVal i.key, Record.toVal i.cloudletLoc, i.uri, Record.toVal i.flavor,
    i.dnsLabel, i.uniqueId, i.liveness, ())
  make fs v := ⟨fs, Record.ofVal v.1, Record.ofVal v.2.1, v.2.2.1, Record.ofVal v.2.2.2.1,
    v.2.2.2.2.1, v.2.2.2.2.2.1, v.2.2.2.2.2.2.1⟩
  key := AppInst.key
  setKey k i := { i with key := k }
  validate _ i := i.key.validate
  passes := passes
  usesOrg org i := i.key.appKey.developerKey.name == org
    || i.key.cloudletKey.operatorKey.name == org

end AppInst

end Inventory
