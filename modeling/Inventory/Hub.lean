import Inventory.Cache.Change
import Inventory.Entity.Kind
import Inventory.Sync.Basic

/-!
# The hub

A hub feeds the caches of several types from one sync of the whole store. It hands each cache the
part of a commit that is about its type, one cache after another, and moves its own revision once
all of them have the commit.

What a delivery makes the hub do is a list of `HubStep`s, so that the moments between two of them
can be spoken about. The notices of a cache are sent out right after the step that fed it.
-/

namespace Inventory

/-- Announcements of the caches of several types. -/
abbrev Announcements := List ((k : Kind) × Announcement k.Obj)

/-- The caches that are registered for the types. -/
abbrev CacheSet := PerKind fun k => Option (Cache k.Obj)

/-- A hub. It is `stopped` once a sync of it has ended, and `cancelled` once it was told to
end. -/
structure Hub where
  caches : CacheSet
  revision : Revision
  listReceived : Bool
  stopped : Bool
  cancelled : Bool
  state : SyncState
  sync : Option Sync

/-- A step of a hub: it feeds a cache, or it moves its own revision. -/
inductive HubStep where
  | feed (k : Kind) (d : Delivery)
  | publish (rev : Revision) (endOfList : Bool)
  deriving DecidableEq, Repr

namespace Hub

/-- A hub that has not been started. -/
def empty : Hub where
  caches := .ofFn fun _ => none
  revision := 0
  listReceived := false
  stopped := false
  cancelled := false
  state := .bootstrapping
  sync := none

/-- Registers a cache for a type. -/
def register (h : Hub) (k : Kind) (c : Cache k.Obj) : Hub :=
  { h with caches := h.caches.set k (some c) }

/-- The types that a cache is registered for. -/
def kinds (h : Hub) : List Kind := Kind.all.filter fun k => (h.caches.get k).isSome

/-- The type that a store key belongs to, if a cache is registered for it. -/
def kindOf? (h : Hub) (storeKey : String) : Option Kind :=
  (splitStoreKey storeKey).bind fun (name, _) => h.kinds.find? fun k => k.name == name

/-- The types that the events of a commit are about, in the order they come up. -/
def kindsSeen (h : Hub) (events : List WatchEvent) : List Kind :=
  (events.filterMap fun e => h.kindOf? e.key).foldl
    (fun seen k => if seen.contains k then seen else seen ++ [k]) []

/-- The events of a commit that are about a type. -/
def eventsOf (h : Hub) (k : Kind) (events : List WatchEvent) : List WatchEvent :=
  events.filter fun e => h.kindOf? e.key == some k

/-- What a delivery makes the hub do. -/
def steps (h : Hub) : Delivery → List HubStep
  | .listStart => h.kinds.map (.feed · .listStart)
  | .record r rev => (h.kindOf? r.key).toList.map (.feed · (.record r rev))
  | .listEnd rev => h.kinds.map (.feed · (.listEnd rev)) ++ [.publish rev true]
  | .commit events =>
    match events.getLast? with
    | none => []
    | some last =>
      ((h.kindsSeen events).map fun k => .feed k (.commit (h.eventsOf k events)))
        ++ [.publish last.revision false]

/-- Does a step; gives what is announced right after it. -/
def step (h : Hub) : HubStep → Hub × Announcements
  | .feed k d =>
    match h.caches.get k with
    | none => (h, [])
    | some c =>
      let fed := c.receiveDelivery d
      ({ h with caches := h.caches.set k (some fed.1) }, (Cache.announce fed).map (⟨k, ·⟩))
  | .publish rev endOfList =>
    ({ h with
      revision := max h.revision rev
      listReceived := h.listReceived || endOfList }, [])

/-- Does steps in order. -/
def runSteps : List HubStep → Hub → Hub × Announcements
  | [], h => (h, [])
  | s :: ss, h =>
    let (h, first) := h.step s
    let (h, rest) := runSteps ss h
    (h, first ++ rest)

/-- Receives a delivery of the sync. -/
def receive (h : Hub) (d : Delivery) : Hub × Announcements := runSteps (h.steps d) h

/-- Receives deliveries in order. -/
def receiveAll : List Delivery → Hub → Hub × Announcements
  | [], h => (h, [])
  | d :: ds, h =>
    let (h, first) := h.receive d
    let (h, rest) := receiveAll ds h
    (h, first ++ rest)

/-- Tells all caches that their sync has stopped. -/
def markStopped (h : Hub) : Hub :=
  { h with
    caches := .ofFn fun k => (h.caches.get k).map Cache.markStopped
    stopped := true }

/-- Keeps a sync; if it has ended the caches are told. -/
def keep (h : Hub) (sync : Sync) : Hub :=
  let h := { h with sync := some sync, state := sync.state }
  if sync.outcome.isSome then h.markStopped else h

/-- Receives the commits that have come in, unless the hub was told to end. -/
def deliver (h : Hub) (s : Store) : Hub × Announcements × Store :=
  match h.sync with
  | none => (h, [], s)
  | some sync =>
    if sync.outcome.isSome then (h, [], s)
    else
      let (sync, s, h, log) := sync.deliver (fun x => x.1.cancelled)
        (fun events x =>
          let (h, more) := x.1.receive (.commit events)
          (h, x.2 ++ more)) s (h, [])
      (h.keep sync, log, s)

/-! ## Waiting -/

/-- What waiting comes to once the time is up. -/
def waitFor (h : Hub) (reached : Bool) (what : String) : StoreResult Unit :=
  if reached then .ok ()
  else if h.stopped then .error (.unavailable "sync hub stopped")
  else .error (.timeout ("sync hub waiting for " ++ what))

/-- Waits until the hub has a revision. -/
def waitForRevision (h : Hub) (rev : Revision) : StoreResult Unit :=
  h.waitFor (rev ≤ h.revision) rev.text

/-! ## Starting and ending -/

/-- Starts the sync of a hub and waits for the list. -/
def start (h : Hub) (who : Subscriber) (s : Store) :
    StoreResult Unit × Hub × Announcements × Store :=
  match h.sync with
  | some _ => (.error (.invalid "sync hub already started"), h, [], s)
  | none =>
    let (sync, deliveries, s) := Sync.start who "" s
    let (h, listed) := receiveAll deliveries h
    let (h, live, s) := (h.keep sync).deliver s
    (h.waitFor h.listReceived "initial sync", h, listed ++ live, s)

/-- Ends the sync of a hub for good; gives its outcome. -/
def done (h : Hub) (s : Store) : StoreResult Unit × Hub × Store :=
  let h := { h with cancelled := true }
  match h.sync with
  | none => (.ok (), h, s)
  | some sync =>
    let ended := sync.outcome.isSome
    let (sync, s) := sync.cancel s
    let h := if ended then h else h.keep sync
    (sync.result, { h with sync := none }, s)

/-- The names of the types that have entities of an organization, in order. -/
def usesOrg (h : Hub) (org : String) : List String :=
  (h.kinds.filter fun k => ((h.caches.get k).map (·.usesOrg org)).getD false).map (·.name)

end Hub

end Inventory
