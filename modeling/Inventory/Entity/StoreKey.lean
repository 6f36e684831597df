import Inventory.Text.Utf8
import Inventory.Cbor.Read
import Inventory.Cbor.Write
import Inventory.Entity.Basic

/-!
# Where and how entities are stored

An entity is stored under the name of its type and its key string, with a slash between them.
The first slash of a store key therefore ends the type name; the key string may hold more. The
stored value is the record of the schema, so the addresses of what a request wants to change are
not part of it.
-/

namespace Inventory

/-- The type name and the rest of a store key. -/
def splitStoreKey (s : String) : Option (String × String) :=
  (Text.splitFirst '/' s.toList).map fun (name, rest) => (String.ofList name, String.ofList rest)

namespace Entity

variable (α : Type) [Entity α]

/-- What the store keys of a type of entities start with. -/
def typePrefix : String := typeName α ++ "/"

variable {α}

/-- The store key of a key. -/
def storeKey (k : Key α) : String := typePrefix α ++ ObjKey.keyString k

variable (α) in
/-- The key of a store key. -/
def keyOfStoreKey (s : String) : StoreResult (Key α) :=
  let foreign := .error (.corrupt s ("not a " ++ typeName α ++ " key"))
  match splitStoreKey s with
  | some (name, rest) =>
    if name = typeName α then
      match ObjKey.ofKeyString rest with
      | .ok k => .ok k
      | .error e => .error (.corrupt s e.message)
    else foreign
  | none => foreign

/-- The stored value of an entity. -/
def encode (a : α) : Bytes := (Shape.record (schema α)).write (body a)

/-- The entity of a stored value; the store key is for the error only. -/
def decode (s : String) (bs : Bytes) : StoreResult α :=
  match (Shape.record (schema α)).decode bs with
  | some v => .ok (make [] v)
  | none => .error (.corrupt s (CodecError.decodingFailed CodecError.noDetail).message)

end Entity

end Inventory
