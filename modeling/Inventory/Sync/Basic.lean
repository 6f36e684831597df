import Inventory.Sync.Delivery

/-!
# Syncs

A sync follows the keys that start with a prefix on behalf of a receiver. `Sync.start` subscribes
and gives the deliveries of the list; `Sync.deliver` hands over the commits that have come in
since, one after another, and looks before each of them whether the receiver wants the sync to
end. A sync ends when it is cancelled or when the store ends its subscription; its outcome is
kept.
-/

namespace Inventory

/-- How far a sync has come. -/
inductive SyncState where
  | bootstrapping | streaming | cancelled | failed
  deriving DecidableEq, Repr

namespace SyncState

/-- The name of a state. -/
def text : SyncState → String
  | bootstrapping => "bootstrapping"
  | streaming => "streaming"
  | cancelled => "cancelled"
  | failed => "failed"

/-- Whether a sync in this state goes on. -/
def isActive : SyncState → Bool
  | bootstrapping | streaming => true
  | cancelled | failed => false

/-- Every state. -/
def all : List SyncState := [bootstrapping, streaming, cancelled, failed]

end SyncState

/-- A sync, and the outcome if it has ended. -/
structure Sync where
  subscriber : Subscriber
  state : SyncState
  outcome : Option (StoreResult Unit)

namespace Sync

/-- Starts a sync of the keys that start with `scope`; gives the deliveries of the list. -/
def start (who : Subscriber) (scope : String) (s : Store) : Sync × List Delivery × Store :=
  match s.watch who scope with
  | (.error e, s) => (⟨who, .failed, some (.error (.ofKv e))⟩, [], s)
  | (.ok (snapshot, rev), s) => (⟨who, .streaming, none⟩, Delivery.listing snapshot rev, s)

/-- Ends a sync. -/
def finish (sync : Sync) (state : SyncState) (outcome : StoreResult Unit) (s : Store) :
    Sync × Store :=
  ({ sync with state := state, outcome := some outcome }, s.unwatch sync.subscriber)

/-- Ends a sync on request, unless it has ended already. -/
def cancel (sync : Sync) (s : Store) : Sync × Store :=
  match sync.outcome with
  | some _ => (sync, s)
  | none => sync.finish .cancelled (.ok ()) s

/-- The outcome of a sync; one that goes on has met with no error. -/
def result (sync : Sync) : StoreResult Unit := sync.outcome.getD (.ok ())

/-- Hands over one commit after another until the receiver wants to stop; says whether it did. -/
def handOver {σ : Type} (stop : σ → Bool) (receive : List WatchEvent → σ → σ) :
    List (List WatchEvent) → σ → Bool × σ
  | [], x => (stop x, x)
  | c :: cs, x => if stop x then (true, x) else handOver stop receive cs (receive c x)

/-- Delivers the commits that have come in. -/
def deliver {σ : Type} (stop : σ → Bool) (receive : List WatchEvent → σ → σ) (sync : Sync)
    (s : Store) (x : σ) : Sync × Store × σ :=
  match sync.outcome with
  | some _ => (sync, s, x)
  | none =>
    match s.poll sync.subscriber with
    | (none, s) => (sync, s, x)
    | (some (events, ended), s) =>
      match handOver stop receive (commitsOf events) x, ended with
      | (true, x), _ =>
        let (sync, s) := sync.finish .cancelled (.ok ()) s
        (sync, s, x)
      | (false, x), some e =>
        let (sync, s) := sync.finish .failed (.error (.ofKv e)) s
        (sync, s, x)
      | (false, x), none => (sync, s, x)

end Sync

end Inventory
