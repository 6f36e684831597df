import Inventory.Cache.Change
import Inventory.Sync.Basic

/-!
# A cache with a sync of its own

A cache can be fed by a sync of the store keys of its type. When the sync ends the cache is told,
so that nobody waits for a revision any longer. It is told once, at that moment.
-/

namespace Inventory

/-- A cache and the sync that feeds it. -/
structure Feed (α : Type) [Entity α] where
  sync : Sync
  cache : Cache α

namespace Feed

variable {α : Type} [Entity α]

/-- Lets the cache receive a delivery; adds what is announced. -/
def receive (d : Delivery) (x : Cache α × List (Announcement α)) :
    Cache α × List (Announcement α) :=
  let changed := x.1.receiveDelivery d
  (changed.1, x.2 ++ Cache.announce changed)

/-- Tells the cache if its sync has ended. -/
def settled (f : Feed α) : Feed α :=
  if f.sync.outcome.isSome then { f with cache := f.cache.markStopped } else f

/-- Delivers the commits that have come in. -/
def deliver (f : Feed α) (s : Store) : Feed α × List (Announcement α) × Store :=
  if f.sync.outcome.isSome then (f, [], s)
  else
    let (sync, s, cache, log) := f.sync.deliver (fun _ => false)
      (fun events => receive (.commit events)) s (f.cache, [])
    (settled ⟨sync, cache⟩, log, s)

/-- Starts to feed a cache. -/
def start (c : Cache α) (who : Subscriber) (s : Store) :
    Feed α × List (Announcement α) × Store :=
  let (sync, deliveries, s) := Sync.start who (Entity.typePrefix α) s
  let (cache, log) := deliveries.foldl (fun x d => receive d x) (c, [])
  (settled ⟨sync, cache⟩, log, s)

/-- Stops feeding the cache; gives the outcome. If the sync has ended before, the cache was told
then and is left alone: another list may have started in it since. -/
def stop (f : Feed α) (s : Store) : StoreResult Unit × Feed α × Store :=
  if f.sync.outcome.isSome then (f.sync.result, f, s)
  else
    let (sync, s) := f.sync.cancel s
    (sync.result, settled { f with sync := sync }, s)

end Feed

end Inventory
