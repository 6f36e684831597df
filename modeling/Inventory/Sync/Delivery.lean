import Inventory.Entity.StoreKey
import Inventory.Store.Basic

/-!
# What a sync delivers

A sync tells its receiver first what the store holds, as a list, and then every commit that
follows. A `Delivery` is one piece of that in terms of the store; a `Message` is the same piece
for one type of entities, with the records decoded.

A record of the list that cannot be read is left out. A change that cannot be read still counts
as progress: the receiver learns its revision.
-/

namespace Inventory

/-- A piece of what a sync tells, in terms of the store. The events of a commit come together. -/
inductive Delivery where
  | listStart
  | record (record : KvRecord) (rev : Revision)
  | listEnd (rev : Revision)
  | commit (events : List WatchEvent)
  deriving DecidableEq, Repr

/-- The deliveries that make up the list of a snapshot. -/
def Delivery.listing (snapshot : List KvRecord) (rev : Revision) : List Delivery :=
  listStart :: snapshot.map (record · rev) ++ [listEnd rev]

/-- An event for a receiver of one type of entities. -/
inductive SyncEvent (α : Type) [Entity α] where
  | listStart
  | listed (obj : α) (rev : Revision)
  | listEnd (rev : Revision)
  | update (obj : α) (rev : Revision)
  | delete (key : Entity.Key α) (rev : Revision)
  | revisionOnly (rev : Revision)

/-- A piece of what a sync tells, for a receiver of one type of entities. -/
inductive Message (α : Type) [Entity α] where
  | single (event : SyncEvent α)
  | commit (events : List (SyncEvent α))

variable (α : Type) [Entity α]

/-- What an event of the store is for a receiver of one type of entities. -/
def WatchEvent.decode (e : WatchEvent) : SyncEvent α :=
  match e.change with
  | .put value =>
    match Entity.decode e.key value with
    | .ok obj => .update obj e.revision
    | .error _ => .revisionOnly e.revision
  | .delete =>
    match Entity.keyOfStoreKey α e.key with
    | .ok key => .delete key e.revision
    | .error _ => .revisionOnly e.revision

/-- What a delivery is for a receiver of one type of entities; nothing for a record that cannot
be read. -/
def Delivery.message? : Delivery → Option (Message α)
  | .listStart => some (.single .listStart)
  | .record r rev =>
    match Entity.decode r.key r.value with
    | .ok obj => some (.single (.listed obj rev))
    | .error _ => none
  | .listEnd rev => some (.single (.listEnd rev))
  | .commit events => some (.commit (events.map (WatchEvent.decode α)))

/-- The events of a message. -/
def Message.events {α : Type} [Entity α] : Message α → List (SyncEvent α)
  | .single e => [e]
  | .commit es => es

end Inventory
