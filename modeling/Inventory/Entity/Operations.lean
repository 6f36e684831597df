import Inventory.Entity.StoreKey
import Inventory.Store.Op

/-!
# Operations on entities

Creating, changing, deleting and loading entities in the store. An entity is checked before it is
written; what is written is the entity without the addresses of what the request wanted to
change. A change reads the entity, replaces the selected leaves and writes the result back.

`update` writes only over the record that it read, `put` over whatever is there. What other
clients do between the read and the write is their argument `others`. A caller can wait for the
revision of its write with a hook, which `notify` calls.
-/

namespace Inventory.Entity

variable {α : Type} [Entity α]

/-- Checks the result of an operation on the store, seen from a typed operation. -/
def lift {β : Type} (r : KvResult β × Store) : StoreResult β × Store := (r.1.lift, r.2)

/-- Refuses a key that no entity can have. -/
def validateKey (a : α) : StoreResult Unit := ObjKey.validate (key a)

/-- Stores an entity under an absent key. -/
def create (a : α) (s : Store) : StoreResult Revision × Store :=
  match validate (fullMask α) a with
  | .error e => (.error e, s)
  | .ok () => lift (s.create (storeKey (key a)) (encode a))

/-- An entity with the selected leaves of another, as it is stored. -/
def merge (mask : FieldMap) (current a : α) : α :=
  clearFields (copyFrom mask .root current a).1

/-- Replaces the selected leaves of a stored entity, unless the record changes meanwhile. -/
def update (a : α) (mask : FieldMap) (others : List Op) (s : Store) :
    StoreResult Revision × Store :=
  match validate mask a with
  | .error e => (.error e, s)
  | .ok () =>
    let k := storeKey (key a)
    let found := (s.get k).1
    let s := Op.runAll others s
    match found with
    | .error e => (.error (.ofKv e), s)
    | .ok none => (.error (.notFound k), s)
    | .ok (some stored) =>
      match decode k stored.value with
      | .error e => (.error e, s)
      | .ok current => lift (s.update k (encode (merge mask current a)) stored.modRevision)

/-- What a put starts from where nothing is stored: an entity with a key and zero values. -/
def fresh (k : Key α) : α := setKey k (zero α)

/-- Replaces the selected leaves of a stored entity, or of one with zero values if none is
stored. -/
def put (a : α) (mask : FieldMap) (others : List Op) (s : Store) :
    StoreResult Revision × Store :=
  match validate mask a with
  | .error e => (.error e, s)
  | .ok () =>
    let k := storeKey (key a)
    let found := (s.get k).1
    let s := Op.runAll others s
    match found with
    | .error e => (.error (.ofKv e), s)
    | .ok found =>
      let current :=
        match found with
        | some stored => decode k stored.value
        | none => .ok (fresh (key a))
      match current with
      | .error e => (.error e, s)
      | .ok current => lift (s.put k (encode (merge mask current a)))

/-- Deletes a stored entity. -/
def delete (a : α) (s : Store) : StoreResult Revision × Store :=
  match validateKey a with
  | .error e => (.error e, s)
  | .ok () => lift (s.delete (storeKey (key a)))

/-- Tells the revision of a write to whoever waits for it. A write that failed is not told. -/
def notify {σ : Type} (hook : Option (Revision → σ → σ)) (outcome : StoreResult Revision)
    (x : σ) : σ :=
  match hook, outcome with
  | some tell, .ok rev => tell rev x
  | some _, .error _ => x
  | none, _ => x

/-- The entity of a key and the revision that wrote it. -/
def load (k : Key α) (s : Store) : StoreResult (α × Revision) :=
  match (s.get (storeKey k)).1 with
  | .error e => .error (.ofKv e)
  | .ok none => .error (.notFound (storeKey k))
  | .ok (some stored) =>
    (decode (storeKey k) stored.value).map fun a => (a, stored.modRevision)

variable (α) in
/-- The entity of a record, if it can be read. -/
def ofRecord? (r : KvRecord) : Option (α × Revision) :=
  match decode r.key r.value with
  | .ok a => some (a, r.modRevision)
  | .error _ => none

variable (α) in
/-- All stored entities and the revisions that wrote them, in the order of their store keys;
records that cannot be read are left out. -/
def loadAll (s : Store) : StoreResult (List (α × Revision)) :=
  match (s.list (typePrefix α)).1 with
  | .error e => .error (.ofKv e)
  | .ok records => .ok (records.filterMap (ofRecord? α))

end Inventory.Entity
