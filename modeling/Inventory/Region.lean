import Inventory.Cache.Feed
import Inventory.Entity.Operations
import Inventory.Hub
import Inventory.Transaction.Transact

/-!
# A region

A region is one store with everything that reads from it: for each type of entities a cache, the
syncs that feed single caches, and a hub. A cache that was replaced by a new one lives on as long
as a sync, the hub or a watcher refers to it, so the caches of a type are numbered, and the
newest is the current one.

Whatever changes the store is followed by `settle`, which lets all syncs deliver what has come
in. What a cache announces is written to its log. The log of the current cache of a type can be
taken, unless a single sync feeds caches of the type.
-/

namespace Inventory

/-- A cache and what it has announced; one that does not report announces changes to the watchers
of keys only. -/
structure HeldCache (k : Kind) where
  cache : Cache k.Obj
  reports : Bool
  log : List (Announcement k.Obj)

namespace HeldCache

variable {k : Kind}

/-- A cache that has not received anything. -/
def empty (reports : Bool) : HeldCache k := ⟨.empty k.Obj, reports, []⟩

/-- Whether an announcement goes to the log. -/
def logs (held : HeldCache k) (a : Announcement k.Obj) : Bool :=
  match a.notice with
  | .updated _ _ | .deleted _ => held.reports
  | .watched _ _ => true

/-- Writes announcements to the log. -/
def addLog (held : HeldCache k) (announced : List (Announcement k.Obj)) : HeldCache k :=
  { held with log := held.log ++ announced.filter held.logs }

end HeldCache

/-- A sync that feeds the cache of a number. -/
structure Runner where
  sync : Sync
  cacheNumber : Nat

/-- A hub; its caches are those of the region with the numbers in `registered`. -/
structure HeldHub where
  hub : Hub
  registered : PerKind fun _ => Option Nat

/-- Where a watcher was registered. -/
structure WatchHandle (k : Kind) where
  name : String
  cacheNumber : Nat
  key : k.Key
  id : Nat

/-- A store with everything that reads from it. -/
structure Region where
  store : Store
  caches : PerKind fun k => List (HeldCache k)
  runners : PerKind fun _ => Option Runner
  hub : Option HeldHub
  handles : PerKind fun k => List (WatchHandle k)

namespace Region

/-- A region without entities. -/
def empty : Region where
  store := .empty
  caches := .ofFn fun _ => [.empty true]
  runners := .ofFn fun _ => none
  hub := none
  handles := .ofFn fun _ => []

/-! ## Caches -/

/-- The number of the current cache of a type. -/
def current (r : Region) (k : Kind) : Nat := (r.caches.get k).length - 1

/-- The cache of a number, with its log. -/
def held? (r : Region) (k : Kind) (number : Nat) : Option (HeldCache k) :=
  (r.caches.get k)[number]?

/-- The cache of a number. -/
def cache (r : Region) (k : Kind) (number : Nat) : Cache k.Obj :=
  ((r.held? k number).map (·.cache)).getD (.empty k.Obj)

/-- The current cache of a type. -/
def currentCache (r : Region) (k : Kind) : Cache k.Obj := r.cache k (r.current k)

/-- Changes the cache of a number and its log. -/
def modifyHeld (r : Region) (k : Kind) (number : Nat) (f : HeldCache k → HeldCache k) : Region :=
  { r with caches := r.caches.set k ((r.caches.get k).modify number f) }

/-- Replaces the cache of a number by what has become of it. -/
def setCache (r : Region) (k : Kind) (number : Nat) (c : Cache k.Obj) : Region :=
  r.modifyHeld k number fun held => { held with cache := c }

/-- Writes announcements of the cache of a number to its log. -/
def addLog (r : Region) (k : Kind) (number : Nat) (announced : List (Announcement k.Obj)) :
    Region :=
  r.modifyHeld k number (·.addLog announced)

/-- Changes the current cache of a type. -/
def changeCache (r : Region) (k : Kind) (f : Cache k.Obj → Cache k.Obj × Notices k.Obj) :
    Region :=
  let changed := f (r.currentCache k)
  (r.setCache k (r.current k) changed.1).addLog k (r.current k) (Cache.announce changed)

/-- Replaces the current cache of a type by an empty one. -/
def renewCache (r : Region) (k : Kind) (reports : Bool) : Region :=
  { r with caches := r.caches.set k (r.caches.get k ++ [.empty reports]) }

/-- Registers a watcher of a key with the current cache of a type. -/
def watch (r : Region) (k : Kind) (name : String) (key : k.Key) : Region :=
  let (id, c) := (r.currentCache k).watch key name
  let others := (r.handles.get k).filter (·.name != name)
  { r.setCache k (r.current k) c with
    handles := r.handles.set k (others ++ [⟨name, r.current k, key, id⟩]) }

/-- Removes the watcher of a name; nothing if there is none. -/
def unwatch? (r : Region) (k : Kind) (name : String) : Option Region :=
  ((r.handles.get k).find? (·.name == name)).map fun handle =>
    { r.setCache k handle.cacheNumber
        ((r.cache k handle.cacheNumber).unwatch handle.key handle.id) with
      handles := r.handles.set k ((r.handles.get k).filter (·.name != name)) }

/-- Whether the log of a type can be taken. -/
def logIsOpen (r : Region) (k : Kind) : Bool := (r.runners.get k).isNone

/-- What can be taken of the log of a type. -/
def openLog (r : Region) (k : Kind) : List (Announcement k.Obj) :=
  if r.logIsOpen k then ((r.held? k (r.current k)).map (·.log)).getD [] else []

/-- Empties the log of a type if it can be taken. -/
def dropLog (r : Region) (k : Kind) : Region :=
  if r.logIsOpen k then r.modifyHeld k (r.current k) fun held => { held with log := [] } else r

/-- Takes the logs that can be taken. -/
def takeLog (r : Region) : PerKind (fun k => List (Announcement k.Obj)) × Region :=
  (.ofFn r.openLog, Kind.all.foldl dropLog r)

/-! ## Syncs -/

/-- Who the sync of the hub is. -/
def hubSubscriber : Subscriber := .feed 0

/-- Who the sync of the cache of a type is. -/
def runnerSubscriber (k : Kind) : Subscriber := .feed (Kind.all.idxOf k + 1)

/-- Keeps what has become of a sync and its cache. -/
def keepFeed (r : Region) (k : Kind) (number : Nat)
    (fed : Feed k.Obj × List (Announcement k.Obj) × Store) : Region :=
  let (f, log, store) := fed
  ({ r with
    store := store
    runners := r.runners.set k (some ⟨f.sync, number⟩) }.setCache k number f.cache).addLog
      k number log

/-- Lets the sync of the cache of a type deliver. -/
def settleRunner (r : Region) (k : Kind) : Region :=
  match r.runners.get k with
  | none => r
  | some runner =>
    r.keepFeed k runner.cacheNumber
      ((⟨runner.sync, r.cache k runner.cacheNumber⟩ : Feed k.Obj).deliver r.store)

/-- The hub with the caches that are registered. -/
def hubWithCaches (r : Region) (held : HeldHub) : Hub :=
  { held.hub with
    caches := .ofFn fun k => (held.registered.get k).map (r.cache k) }

/-- Keeps what has become of the cache of a type that is registered with the hub. -/
def keepHubCache (held : HeldHub) (h : Hub) (r : Region) (k : Kind) : Region :=
  match held.registered.get k, h.caches.get k with
  | some number, some c => r.setCache k number c
  | _, _ => r

/-- Writes an announcement of the hub to the log. -/
def logHub (held : HeldHub) (r : Region) (a : (k : Kind) × Announcement k.Obj) : Region :=
  match held.registered.get a.1 with
  | some number => r.addLog a.1 number [a.2]
  | none => r

/-- Keeps what has become of the hub and its caches. -/
def keepHub (r : Region) (held : HeldHub) (h : Hub) (log : Announcements) (s : Store) : Region :=
  let r : Region := { r with store := s, hub := some { held with hub := h } }
  log.foldl (logHub held) (Kind.all.foldl (keepHubCache held h) r)

/-- Lets the sync of the hub deliver. -/
def settleHub (r : Region) : Region :=
  match r.hub with
  | none => r
  | some held =>
    let (h, log, s) := (r.hubWithCaches held).deliver r.store
    r.keepHub held h log s

/-- Lets all syncs deliver. -/
def settle (r : Region) : Region := (Kind.all.foldl settleRunner r).settleHub

/-- Changes the store; the syncs follow. -/
def onStore {β : Type} (r : Region) (act : Store → β × Store) : β × Region :=
  let (b, s) := act r.store
  (b, settle { r with store := s })

/-! ## Single syncs -/

/-- Stops the sync of the cache of a type; gives its outcome, or nothing if there is none. -/
def stopRunner (r : Region) (k : Kind) : Option (StoreResult Unit) × Region :=
  match r.runners.get k with
  | none => (none, r)
  | some runner =>
    let (result, f, s) :=
      (⟨runner.sync, r.cache k runner.cacheNumber⟩ : Feed k.Obj).stop r.store
    (some result, { r with
      store := s
      runners := r.runners.set k none }.setCache k runner.cacheNumber f.cache)

/-- Starts a sync of the current cache of a type; one that there was is stopped. -/
def startRunner (r : Region) (k : Kind) : Region :=
  let r := (r.stopRunner k).2
  (r.keepFeed k (r.current k)
    (Feed.start (r.currentCache k) (runnerSubscriber k) r.store)).settle

/-- The state of the sync of the cache of a type. -/
def runnerState? (r : Region) (k : Kind) : Option SyncState :=
  (r.runners.get k).map (·.sync.state)

/-! ## The hub -/

/-- Ends the hub; gives the outcome of its sync. -/
def hubDone (r : Region) : Option (StoreResult Unit) × Region :=
  match r.hub with
  | none => (none, r)
  | some held =>
    let (result, h, s) := (r.hubWithCaches held).done r.store
    (some result, r.keepHub held h [] s)

/-- Registers the current cache of a type with the hub. -/
def hubRegister (r : Region) (k : Kind) : Region :=
  { r with hub := r.hub.map fun held =>
      { held with registered := held.registered.set k (some (r.current k)) } }

/-- Makes a new hub for the current caches of some types; the hub that there was is ended. -/
def hubNew (r : Region) (kinds : List Kind) : Region :=
  let r := r.hubDone.2
  kinds.foldl hubRegister { r with hub := some ⟨.empty, .ofFn fun _ => none⟩ }

/-- Starts the hub. -/
def hubStart (r : Region) : Option (StoreResult Unit) × Region :=
  match r.hub with
  | none => (none, r)
  | some held =>
    let (result, h, log, s) := (r.hubWithCaches held).start hubSubscriber r.store
    (some result, r.keepHub held h log s)

/-- Asks the hub. -/
def askHub {β : Type} (r : Region) (f : Hub → β) : Option β :=
  r.hub.map fun held => f (r.hubWithCaches held)

/-- Runs a transaction; then waits until the hub has its revision, if asked to. -/
def transact {σ : Type} (r : Region) (policy : RetryPolicy) (body : Body σ) (s : σ)
    (thenWait : Bool) : StoreResult Revision × σ × Region :=
  let ((result, s), r) := r.onStore fun store =>
    let (result, w, s) := transactWith policy body (.quiet store) s
    ((result, s), w.store)
  let waited := if thenWait then
      result.bind fun rev =>
        match r.askHub (·.waitForRevision rev) with
        | some waited => waited.map fun () => rev
        | none => .ok rev
    else result
  (waited, s, r)

end Region

end Inventory
