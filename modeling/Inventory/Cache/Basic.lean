import Std.Data.ExtTreeMap
import Std.Data.ExtTreeSet
import Inventory.Entity.Basic
import Inventory.Revision

/-!
# Caches

A cache holds the entities of one type in memory, each with the revision of the change that
brought it, and knows the revision it is current for. Whoever reads the cache can ask to be told
of changes to a key.

Changing a cache gives the `Notice`s to be sent out once the change is complete: first those of
entities that were stored, then those of entities that were removed, and after each of them those
for the watchers of its key.
-/

namespace Inventory

/-- An entity in a cache, and the revision of the change that brought it. -/
structure CacheEntry (α : Type) where
  obj : α
  revision : Revision

/-- Somebody who wants to be told of changes to a key; `id` is unique in the cache. -/
structure Watcher where
  id : Nat
  name : String
  deriving DecidableEq, Repr

/-- A cache of one type of entities. While a list is being received, `listed` holds the keys that
have come so far. -/
structure Cache (α : Type) [Entity α] where
  entries : Std.ExtTreeMap (Entity.Key α) (CacheEntry α)
  revision : Revision
  listed : Option (Std.ExtTreeSet (Entity.Key α))
  initialSyncDone : Bool
  syncStopped : Bool
  watchers : Std.ExtTreeMap (Entity.Key α) (List Watcher)
  nextWatcher : Nat

/-- What is sent out after a change. -/
inductive Notice (α : Type) [Entity α] where
  | updated (old : Option α) (new : α)
  | deleted (old : α)
  | watched (watcher : Watcher) (key : Entity.Key α)

/-- A notice with the revision and the number of entities that the cache has when the notice is
sent out. -/
structure Announcement (α : Type) [Entity α] where
  notice : Notice α
  revision : Revision
  count : Nat

namespace Cache

variable {α : Type} [Entity α]

variable (α) in
/-- A cache that has not received anything. -/
def empty : Cache α := ⟨∅, 0, none, false, false, ∅, 0⟩

/-- The entity of a key. -/
def get? (c : Cache α) (k : Entity.Key α) : Option α := c.entries[k]?.map (·.obj)

/-- The revision of the change that brought the entity of a key. -/
def entryRevision? (c : Cache α) (k : Entity.Key α) : Option Revision :=
  c.entries[k]?.map (·.revision)

/-- Whether there is an entity of a key. -/
def has (c : Cache α) (k : Entity.Key α) : Bool := c.entries.contains k

/-- How many entities there are. -/
def count (c : Cache α) : Nat := c.entries.size

/-- The keys of all entities, in order. -/
def keys (c : Cache α) : List (Entity.Key α) := c.entries.keys

/-- All entities in the order of their keys. -/
def objects (c : Cache α) : List α := c.entries.values.map (·.obj)

/-- Adds the keys of all entities to a set. -/
def addKeys (c : Cache α) (extra : Std.ExtTreeSet (Entity.Key α)) :
    Std.ExtTreeSet (Entity.Key α) :=
  c.keys.foldl (·.insert ·) extra

/-- The entities that agree with a filter, in the order of their keys. -/
def matching (c : Cache α) (filter : α) : List α :=
  c.objects.filter (Entity.passes · filter)

/-- Whether an entity belongs to an organization. -/
def usesOrg (c : Cache α) (org : String) : Bool := c.objects.any (Entity.usesOrg org)

/-! ## Waiting -/

/-- What waiting comes to once the time is up. -/
def waitFor (c : Cache α) (reached : Bool) (what : String) : StoreResult Unit :=
  if reached then .ok ()
  else if c.syncStopped then .error (.unavailable (Entity.typeName α ++ " sync stopped"))
  else .error (.timeout (Entity.typeName α ++ " cache waiting for " ++ what))

/-- Waits for a revision. -/
def waitForRevision (c : Cache α) (rev : Revision) : StoreResult Unit :=
  c.waitFor (rev ≤ c.revision) rev.text

/-- Waits for the end of the first list. -/
def waitForInitialSync (c : Cache α) : StoreResult Unit :=
  c.waitFor c.initialSyncDone "initial sync"

/-! ## Watchers -/

/-- The watchers of a key. -/
def watchersOf (c : Cache α) (k : Entity.Key α) : List Watcher := c.watchers[k]?.getD []

/-- Adds a watcher of a key; gives its number. -/
def watch (c : Cache α) (k : Entity.Key α) (name : String) : Nat × Cache α :=
  (c.nextWatcher, { c with
    watchers := c.watchers.insert k (c.watchersOf k ++ [⟨c.nextWatcher, name⟩])
    nextWatcher := c.nextWatcher + 1 })

/-- Removes the watcher of a number; the last one takes its place. -/
def withoutWatcher (id : Nat) (ws : List Watcher) : List Watcher :=
  match ws.findIdx? (·.id == id), ws.getLast? with
  | some i, some w => (ws.set i w).dropLast
  | _, _ => ws

/-- Removes a watcher of a key. -/
def unwatch (c : Cache α) (k : Entity.Key α) (id : Nat) : Cache α :=
  { c with watchers := c.watchers.insert k (withoutWatcher id (c.watchersOf k)) }

/-- The notices for the watchers of a key. -/
def watcherNotices (c : Cache α) (k : Entity.Key α) : List (Notice α) :=
  (c.watchersOf k).map (.watched · k)

end Cache

end Inventory
