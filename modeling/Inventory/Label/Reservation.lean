import Inventory.Entity.AppInst
import Inventory.Transaction.Program

/-!
# Reservations

A label or id that is in use is reserved by a key of the store: ids in the region, labels of
cloudlets in the region, and labels of instances on their cloudlet.
-/

namespace Inventory

/-- What can be reserved. -/
inductive Reservation where
  | instanceId (id : String)
  | cloudletLabel (label : String)
  | instanceLabel (cloudlet : CloudletKey) (label : String)
  deriving DecidableEq, Repr

namespace Reservation

/-- What the store keys of reserved ids start with, up to the slash. -/
def instanceIdType : String := "AppInstId"

/-- What the store keys of reserved labels of cloudlets start with, up to the slash. -/
def cloudletLabelType : String := "CloudletDnsLabel"

/-- What the store keys of reserved labels of instances start with, up to the slash. -/
def instanceLabelType : String := "CloudletObjectDnsLabel"

/-- The id or label that is reserved. -/
def name : Reservation → String
  | instanceId id => id
  | cloudletLabel label => label
  | instanceLabel _ label => label

/-- The store key of a reservation. -/
def storeKey : Reservation → String
  | instanceId id => instanceIdType ++ "/" ++ id
  | cloudletLabel label => cloudletLabelType ++ "/" ++ label
  | instanceLabel cloudlet label =>
    instanceLabelType ++ "/" ++ ObjKey.keyString cloudlet ++ "/" ++ label

/-- Whether a reservation is made. -/
def isMade (r : Reservation) : Program Bool := do
  return (← Program.read r.storeKey).isSome

/-- Makes a reservation. -/
def reserve (r : Reservation) : Program Unit := Program.write r.storeKey (Text.utf8 r.name)

/-- Gives a reservation up. -/
def release (r : Reservation) : Program Unit := Program.erase r.storeKey

end Reservation

end Inventory
