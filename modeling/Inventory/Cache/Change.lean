import Inventory.Cache.Basic
import Inventory.Sync.Delivery

/-!
# Changing a cache

An entity is stored without the addresses of what a request wanted to change, and always under
its own key. A commit is applied as a whole before the revision moves. A list replaces the
contents: what it has listed is stored, and at its end what it has not listed is removed. The
revision never goes back.
-/

namespace Inventory

/-- The notices of a change: those of entities that were stored and those of entities that were
removed. -/
structure Notices (α : Type) [Entity α] where
  updated : List (Notice α)
  deleted : List (Notice α)

namespace Notices

variable {α : Type} [Entity α]

/-- No notices. -/
def none : Notices α := ⟨[], []⟩

/-- The notices in the order they are sent out. -/
def inOrder (n : Notices α) : List (Notice α) := n.updated ++ n.deleted

/-- The notices of two changes that are complete together. -/
def append (m n : Notices α) : Notices α := ⟨m.updated ++ n.updated, m.deleted ++ n.deleted⟩

end Notices

namespace Cache

variable {α : Type} [Entity α]

/-- Moves the revision forward. -/
def advance (c : Cache α) (rev : Revision) : Cache α := { c with revision := max c.revision rev }

/-- An entity as it is stored under a key. -/
def asStored (k : Entity.Key α) (obj : α) : α :=
  Entity.clearFields <|
    if compare (Entity.key obj) k == .eq then obj else Entity.setKey k obj

/-- Stores an entity under a key. -/
def store (c : Cache α) (k : Entity.Key α) (rev : Revision) (obj : α) : Cache α × Notices α :=
  let new := asStored k obj
  ({ c with entries := c.entries.insert k ⟨new, rev⟩ },
    ⟨.updated (c.get? k) new :: c.watcherNotices k, []⟩)

/-- Removes the entity of a key. -/
def remove (c : Cache α) (k : Entity.Key α) : Cache α × Notices α :=
  match c.get? k with
  | none => (c, .none)
  | some old =>
    ({ c with entries := c.entries.erase k }, ⟨[], .deleted old :: c.watcherNotices k⟩)

/-- Removes the entities of some keys, one after another. -/
def removeAll : List (Entity.Key α) → Cache α → Cache α × Notices α
  | [], c => (c, .none)
  | k :: ks, c =>
    let (c, first) := c.remove k
    let (c, rest) := removeAll ks c
    (c, first.append rest)

/-- Removes the entities whose keys do not pass a test. -/
def retain (c : Cache α) (keep : Entity.Key α → Bool) : Cache α × Notices α :=
  removeAll (c.keys.filter fun k => !keep k) c

/-! ## Single changes -/

/-- Stores what is made of the entity of a key; nothing changes if nothing is made of it. -/
def modify (c : Cache α) (k : Entity.Key α) (rev : Revision) (f : Option α → Option α) :
    Cache α × Notices α :=
  match f (c.get? k) with
  | none => (c, .none)
  | some obj =>
    let (c, notices) := c.store k rev obj
    (c.advance rev, notices)

/-- Stores an entity. -/
def update (c : Cache α) (obj : α) (rev : Revision) : Cache α × Notices α :=
  c.modify (Entity.key obj) rev fun _ => some obj

/-- Removes the entity of a key. -/
def delete (c : Cache α) (k : Entity.Key α) (rev : Revision) : Cache α × Notices α :=
  let (c, notices) := c.remove k
  (c.advance rev, notices)

/-- Starts receiving a list. -/
def listStart (c : Cache α) : Cache α := { c with listed := some ∅, syncStopped := false }

/-- Notes that a list has come to a key. -/
def noteListed (c : Cache α) (k : Entity.Key α) : Cache α :=
  { c with listed := c.listed.map fun seen => seen.insert k }

/-- Stores an entity of a list; the revision stays where it is. -/
def list (c : Cache α) (obj : α) (rev : Revision) : Cache α × Notices α :=
  (c.noteListed (Entity.key obj)).store (Entity.key obj) rev obj

/-- Ends a list: removes what it has not listed. -/
def listEnd (c : Cache α) (rev : Revision) : Cache α × Notices α :=
  let (c, notices) := ({ c with listed := none } : Cache α).retain fun k =>
    match c.listed with
    | some seen => seen.contains k
    | none => true
  ({ c.advance rev with initialSyncDone := true }, notices)

/-- Marks the sync that feeds the cache as stopped, until the next list starts. -/
def markStopped (c : Cache α) : Cache α := { c with syncStopped := true }

/-! ## Events -/

/-- Applies an event. -/
def apply (c : Cache α) : SyncEvent α → Cache α × Notices α
  | .listStart => (c.listStart, .none)
  | .listed obj rev => c.list obj rev
  | .listEnd rev => c.listEnd rev
  | .update obj rev => c.update obj rev
  | .delete k rev => c.delete k rev
  | .revisionOnly rev => (c.advance rev, .none)

/-- The change that an event of a commit makes to the entities, without the revision; a list has
no place in a commit. -/
def applyPart (c : Cache α) : SyncEvent α → Cache α × Notices α
  | .update obj rev => c.store (Entity.key obj) rev obj
  | .delete k _ => c.remove k
  | .revisionOnly _ | .listStart | .listed _ _ | .listEnd _ => (c, .none)

/-- The changes that the events of a commit make to the entities. -/
def applyParts : List (SyncEvent α) → Cache α → Cache α × Notices α
  | [], c => (c, .none)
  | e :: es, c =>
    let (c, first) := c.applyPart e
    let (c, rest) := applyParts es c
    (c, first.append rest)

/-- The revision that an event of a commit moves the cache to. -/
def partRevision? : SyncEvent α → Option Revision
  | .update _ rev | .delete _ rev | .revisionOnly rev => some rev
  | .listStart | .listed _ _ | .listEnd _ => none

/-- Applies the events of a commit as a whole. The last of them gives the revision. -/
def applyCommit (c : Cache α) (events : List (SyncEvent α)) : Cache α × Notices α :=
  let (c, notices) := applyParts events c
  match (events.filterMap partRevision?).getLast? with
  | some rev => (c.advance rev, notices)
  | none => (c, .none)

/-- Applies the events of a commit one after another, as a receiver does that does not take them
together; gives all notices in the order they are sent out. -/
def applyEach : List (SyncEvent α) → Cache α → Cache α × List (Notice α)
  | [], c => (c, [])
  | e :: es, c =>
    let (c, notices) := c.apply e
    let (c, later) := applyEach es c
    (c, notices.inOrder ++ later)

/-- The notices of a change as they are sent out, when the change is complete. -/
def announce (changed : Cache α × Notices α) : List (Announcement α) :=
  changed.2.inOrder.map (⟨·, changed.1.revision, changed.1.count⟩)

/-! ## Messages -/

/-- Receives a message of a sync. -/
def receive (c : Cache α) : Message α → Cache α × Notices α
  | .single e => c.apply e
  | .commit es => c.applyCommit es

/-- Receives a delivery of a sync. -/
def receiveDelivery (c : Cache α) (d : Delivery) : Cache α × Notices α :=
  match d.message? α with
  | some m => c.receive m
  | none => (c, .none)

end Cache

end Inventory
