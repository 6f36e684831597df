import Inventory.Entity.Operator

/-!
# Cloudlets

A cloudlet is a small data centre of an operator, at a location.
-/

namespace Inventory

/-- The key of a cloudlet. -/
structure CloudletKey where
  operatorKey : OperatorKey
  name : String
  deriving DecidableEq, Repr

namespace CloudletKey

instance : Record CloudletKey where
  schema :=
    .cons 1 "operator_key" (Record.shape OperatorKey) <|
    .cons 2 "name" (.leaf .text) .nil
  toVal k := (Record.toVal k.operatorKey, k.name, ())
  ofVal v := ⟨Record.ofVal v.1, v.2.1⟩

theorem textual : (Record.shape CloudletKey).Textual :=
  ⟨OperatorKey.textual, trivial, trivial⟩

instance : Ord CloudletKey := ⟨compareLex (compareOn operatorKey) (compareOn name)⟩

instance : Std.TransOrd CloudletKey :=
  inferInstanceAs (Std.TransCmp (compareLex (compareOn operatorKey) (compareOn name)))

instance : Std.LawfulEqOrd CloudletKey where
  eq_of_compare {a b} h := by
    cases a; cases b
    have h : (compare _ _).then (compare _ _) = .eq := h
    simpa using h

/-- Refuses a key without a name or operator. -/
def validate (k : CloudletKey) : StoreResult Unit := do
  k.operatorKey.validate
  require k.name "cloudlet name"

/-- Whether a key agrees with a filter. -/
def passes (k filter : CloudletKey) : Bool :=
  k.operatorKey.passes filter.operatorKey && textAgrees k.name filter.name

instance : ObjKey CloudletKey where
  trans := inferInstance
  lawfulEq := inferInstance
  zero := Record.zero CloudletKey
  validate := validate
  passes := passes
  keyString := Record.keyString textual
  ofKeyString := Record.ofKeyString textual

end CloudletKey

/-- A place on the globe; latitude and longitude are in degrees. -/
structure Loc where
  latitude : Double
  longitude : Double
  altitude : Double
  deriving DecidableEq, Repr

namespace Loc

instance : Record Loc where
  schema :=
    .cons 1 "latitude" (.leaf .real) <|
    .cons 2 "longitude" (.leaf .real) <|
    .cons 3 "altitude" (.leaf .real) .nil
  toVal l := (l.latitude, l.longitude, l.altitude, ())
  ofVal v := ⟨v.1, v.2.1, v.2.2.1⟩

/-- Refuses a coordinate that is no number or farther than `limit` from zero. -/
def checkWithin (what : String) (limit : Nat) (x : Double) : StoreResult Unit :=
  if (Double.ofInt (-limit)).le x && x.le (Double.ofNat limit) then .ok ()
  else .error (.invalid ("invalid " ++ what ++ " " ++ x.text))

/-- Refuses coordinates that are not on the globe. -/
def validate (l : Loc) : StoreResult Unit := do
  checkWithin "latitude" 90 l.latitude
  checkWithin "longitude" 180 l.longitude

/-- Whether a place agrees with a filter. -/
def passes (l filter : Loc) : Bool :=
  realAgrees l.latitude filter.latitude
    && realAgrees l.longitude filter.longitude
    && realAgrees l.altitude filter.altitude

end Loc

/-- A cloudlet. -/
structure Cloudlet where
  fields : List String
  key : CloudletKey
  accessUri : String
  location : Loc
  dnsLabel : String
  deriving DecidableEq, Repr

namespace Cloudlet

/-- Refuses a cloudlet that is nowhere. -/
def validate (mask : FieldMap) (c : Cloudlet) : StoreResult Unit := do
  c.key.validate
  mask.check "5" c.location.validate

/-- Whether a cloudlet agrees with a filter. -/
def passes (c filter : Cloudlet) : Bool :=
  c.key.passes filter.key
    && textAgrees c.accessUri filter.accessUri
    && c.location.passes filter.location
    && textAgrees c.dnsLabel filter.dnsLabel

instance : Entity Cloudlet where
  Key := CloudletKey
  objKey := inferInstance
  typeName := "Cloudlet"
  schema :=
    .cons 2 "key" (Record.shape CloudletKey) <|
    .cons 4 "access_uri" (.leaf .text) <|
    .cons 5 "location" (Record.shape Loc) <|
    .cons 6 "dns_label" (.leaf .text) .nil
  fields := Cloudlet.fields
  body c := (Record.toVal c.key, c.accessUri, Record.toVal c.location, c.dnsLabel, ())
  make fs v := ⟨fs, Record.ofVal v.1, v.2.1, Record.ofVal v.2.2.1, v.2.2.2.1⟩
  key := Cloudlet.key
  setKey k c := { c with key := k }
  validate := validate
  passes := passes
  usesOrg org c := c.key.operatorKey.name == org

end Cloudlet

end Inventory
