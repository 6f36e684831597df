import Inventory.Store.Op

/-!
# Transactions under way

A transaction reads from the store and keeps its writes to itself until it commits. It remembers
what it found under each key that it read, so that a key is read once, and it sees its own
writes. `Running.commit` asks the store to do all writes at once, provided that nothing read has
changed and that no key written blindly has changed since the transaction began.

Other clients go on meanwhile. What they do is a list with one entry for each time the
transaction turns to the store; `Running.turn` lets them do the next one first.
-/

namespace Inventory

/-- The store as a client finds it, and what other clients are going to do before each of the
client's next turns. -/
structure Shared where
  store : Store
  others : List (List Op)

namespace Shared

/-- A store that nobody else uses. -/
def quiet (s : Store) : Shared := ⟨s, []⟩

/-- Lets the others do what they do before the next turn. -/
def turn (w : Shared) : Shared := ⟨Op.runAll (w.others.head?.getD []) w.store, w.others.tail⟩

end Shared

/-- What a transaction knows and wants: the revision it began at, what it found in the store, and
its writes, where nothing stands for a delete. -/
structure Session where
  snapshot : Revision
  reads : Std.ExtTreeMap String (Option Stored)
  writes : Std.ExtTreeMap String (Option Bytes)

namespace Session

/-- A transaction that has done nothing yet. -/
def start (snapshot : Revision) : Session := ⟨snapshot, ∅, ∅⟩

/-- What the transaction sees under a key without turning to the store. -/
def known? (t : Session) (key : String) : Option (Option Bytes) :=
  match t.writes[key]? with
  | some value => some value
  | none => t.reads[key]?.map fun found => found.map (·.value)

/-- Remembers what the store holds under a key. -/
def observe (t : Session) (key : String) (found : Option Stored) : Session :=
  { t with reads := t.reads.insert key found }

/-- The revision of what was found, zero for nothing. -/
def foundRevision (found : Option Stored) : Revision :=
  match found with
  | some stored => stored.modRevision
  | none => 0

/-- The revision that the key had when it was read, zero if it was absent or not read. -/
def revision (t : Session) (key : String) : Revision :=
  foundRevision (t.reads[key]?.getD none)

/-- Plans a write: a value, or a delete. -/
def plan (t : Session) (key : String) (value : Option Bytes) : Session :=
  { t with writes := t.writes.insert key value }

/-- A planned write as a write of a commit. -/
def toWrite : String × Option Bytes → Write
  | (key, some value) => .put key value
  | (key, none) => .delete key

/-- The commit that the transaction asks for. -/
def request (t : Session) : TxnRequest where
  reads := t.reads.toList.map fun r => (r.1, foundRevision r.2)
  snapshot := some t.snapshot
  writes := t.writes.toList.map toWrite

end Session

/-- A transaction under way. -/
structure Running extends Shared where
  session : Session

namespace Running

/-- Begins a transaction. -/
def begin (w : Shared) : KvResult Running × Shared :=
  let w := w.turn
  (w.store.currentRevision.1.map fun rev => ⟨w, .start rev⟩, w)

/-- What the transaction sees under a key. -/
def get (r : Running) (key : String) : KvResult (Option Bytes) × Running :=
  match r.session.known? key with
  | some value => (.ok value, r)
  | none =>
    let w := r.toShared.turn
    match (w.store.get key).1 with
    | .ok found => (.ok (found.map (·.value)), ⟨w, r.session.observe key found⟩)
    | .error e => (.error e, ⟨w, r.session⟩)

/-- Plans a write: a value, or a delete. -/
def plan (r : Running) (key : String) (value : Option Bytes) : Running :=
  { r with session := r.session.plan key value }

/-- Lets others use the store at once. -/
def interrupt (r : Running) (act : Store → Store) : Running := { r with store := act r.store }

/-- Asks the store for the commit. -/
def commit (r : Running) : KvResult Revision × Shared :=
  let w := r.toShared.turn
  let (result, store) := w.store.commitTxn r.session.request
  (result, { w with store })

end Running

end Inventory
