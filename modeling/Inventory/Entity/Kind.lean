import Inventory.Entity.App
import Inventory.Entity.AppInst
import Inventory.Entity.Cloudlet
import Inventory.Entity.Controller
import Inventory.Entity.Flavor
import Inventory.Entity.Operator
import Inventory.Entity.RateLimit
import Inventory.Entity.Settings

/-!
# The kinds of entities

All types of entities that a region holds. `PerKind` is a value for each of them.
-/

namespace Inventory

/-- A type of entities. -/
inductive Kind where
  | app | appInst | cloudlet | controller | flavor | operator | rateLimitSettings | settings
  deriving DecidableEq, Repr

namespace Kind

/-- The entities of a kind. -/
@[reducible] def Obj : Kind → Type
  | app => App
  | appInst => AppInst
  | cloudlet => Cloudlet
  | controller => Controller
  | flavor => Flavor
  | operator => Operator
  | rateLimitSettings => RateLimitSettings
  | settings => Settings

instance : (k : Kind) → Entity k.Obj
  | app => inferInstanceAs (Entity App)
  | appInst => inferInstanceAs (Entity AppInst)
  | cloudlet => inferInstanceAs (Entity Cloudlet)
  | controller => inferInstanceAs (Entity Controller)
  | flavor => inferInstanceAs (Entity Flavor)
  | operator => inferInstanceAs (Entity Operator)
  | rateLimitSettings => inferInstanceAs (Entity RateLimitSettings)
  | settings => inferInstanceAs (Entity Settings)

/-- The keys of a kind. -/
abbrev Key (k : Kind) : Type := Entity.Key k.Obj

/-- Every kind. -/
def all : List Kind :=
  [app, appInst, cloudlet, controller, flavor, operator, rateLimitSettings, settings]

/-- The name of a kind. -/
def name (k : Kind) : String := Entity.typeName k.Obj

/-- The kind of a name. -/
def ofName? (s : String) : Option Kind := all.find? fun k => k.name == s

end Kind

/-- A value for each kind. -/
structure PerKind (β : Kind → Type) where
  app : β .app
  appInst : β .appInst
  cloudlet : β .cloudlet
  controller : β .controller
  flavor : β .flavor
  operator : β .operator
  rateLimitSettings : β .rateLimitSettings
  settings : β .settings

namespace PerKind

variable {β : Kind → Type}

/-- The values of a function. -/
def ofFn (f : (k : Kind) → β k) : PerKind β :=
  ⟨f .app, f .appInst, f .cloudlet, f .controller, f .flavor, f .operator, f .rateLimitSettings,
    f .settings⟩

/-- The value for a kind. -/
def get (p : PerKind β) : (k : Kind) → β k
  | .app => p.app
  | .appInst => p.appInst
  | .cloudlet => p.cloudlet
  | .controller => p.controller
  | .flavor => p.flavor
  | .operator => p.operator
  | .rateLimitSettings => p.rateLimitSettings
  | .settings => p.settings

/-- Replaces the value for a kind. -/
def set (p : PerKind β) : (k : Kind) → β k → PerKind β
  | .app, v => { p with app := v }
  | .appInst, v => { p with appInst := v }
  | .cloudlet, v => { p with cloudlet := v }
  | .controller, v => { p with controller := v }
  | .flavor, v => { p with flavor := v }
  | .operator, v => { p with operator := v }
  | .rateLimitSettings, v => { p with rateLimitSettings := v }
  | .settings, v => { p with settings := v }

@[simp] theorem get_ofFn (f : (k : Kind) → β k) (k : Kind) : (ofFn f).get k = f k := by
  cases k <;> rfl

@[simp] theorem get_set_self (p : PerKind β) (k : Kind) (v : β k) : (p.set k v).get k = v := by
  cases k <;> rfl

theorem get_set_of_ne (p : PerKind β) {j k : Kind} (v : β k) (h : j ≠ k) :
    (p.set k v).get j = p.get j := by
  cases j <;> cases k <;> first | rfl | exact absurd rfl h

end PerKind

end Inventory
