import Inventory.Store.Basic

/-!
# Operations as data

Every operation on the store as a value, so that what other clients do between two steps of one
client is a list of operations.
-/

namespace Inventory

/-- An operation on the store. -/
inductive Op where
  | get (key : String)
  | create (key : String) (value : Bytes)
  | update (key : String) (value : Bytes) (expected : Revision)
  | put (key : String) (value : Bytes)
  | delete (key : String)
  | list (scope : String)
  | revision
  | size
  | close
  | txn (request : TxnRequest)
  | watch (who : Subscriber) (scope : String)
  | poll (who : Subscriber)
  | unwatch (who : Subscriber)
  deriving DecidableEq, Repr

/-- What an operation answers. -/
inductive Reply where
  | done
  | entry (stored : Option Stored)
  | revision (rev : Revision)
  | records (records : List KvRecord)
  | size (keys watchers : Nat)
  | watching (snapshot : List KvRecord) (rev : Revision)
  | events (polled : Option (List WatchEvent × Option KvError))
  deriving DecidableEq, Repr

namespace Op

/-- Turns the answer of an operation into a reply. -/
def answer {β : Type} (f : β → Reply) (r : KvResult β × Store) : KvResult Reply × Store :=
  (r.1.map f, r.2)

/-- Does an operation. -/
def run : Op → Store → KvResult Reply × Store
  | get key, s => answer .entry (s.get key)
  | create key value, s => answer .revision (s.create key value)
  | update key value expected, s => answer .revision (s.update key value expected)
  | put key value, s => answer .revision (s.put key value)
  | delete key, s => answer .revision (s.delete key)
  | list scope, s => answer .records (s.list scope)
  | revision, s => answer .revision s.currentRevision
  | size, s => (.ok (.size s.contents.size s.watcherCount), s)
  | close, s => (.ok .done, s.close)
  | txn request, s => answer .revision (s.commitTxn request)
  | watch who scope, s => answer (fun r => .watching r.1 r.2) (s.watch who scope)
  | poll who, s =>
    let (polled, s) := s.poll who
    (.ok (.events polled), s)
  | unwatch who, s => (.ok .done, s.unwatch who)

/-- Does operations one after another, whatever they answer. -/
def runAll (ops : List Op) (s : Store) : Store := ops.foldl (fun s op => (op.run s).2) s

end Op

end Inventory
