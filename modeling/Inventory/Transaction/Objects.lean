import Inventory.Entity.StoreKey
import Inventory.Transaction.Program

/-!
# Entities in transactions

Reading, writing and deleting entities as steps of a transaction. A record that cannot be read
counts as absent.
-/

namespace Inventory.Program

variable {α : Type} [Entity α]

variable (α) in
/-- The entity of a stored value, if it can be read. -/
def entity? (storeKey : String) : Option Bytes → Option α
  | none => none
  | some bytes => (Entity.decode storeKey bytes).toOption

/-- The entity of a key. -/
def readEntity (k : Entity.Key α) : Program (Option α) := do
  return entity? α (Entity.storeKey k) (← read (Entity.storeKey k))

/-- Writes an entity. -/
def writeEntity (a : α) : Program Unit :=
  write (Entity.storeKey (Entity.key a)) (Entity.encode a)

/-- Deletes the entity of a key. -/
def eraseEntity (k : Entity.Key α) : Program Unit := erase (Entity.storeKey k)

end Inventory.Program
