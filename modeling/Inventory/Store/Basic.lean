import Std.Data.ExtTreeMap
import Inventory.Error
import Inventory.Revision
import Inventory.Text.Utf8

/-!
# The key-value store

The store maps keys to values and counts its commits. A commit writes one or more keys under one
new revision; a delete of an absent key changes nothing, and a commit that changes nothing takes
no revision.

A subscription sees the keys under a prefix: first a snapshot of them, then, commit by commit,
every later change to them. The events of one commit stand together, and all but the last of
them announce that more follow. A subscriber can go away without notice; the store finds out when
it has the next event for it. A closed store refuses everything and ends all subscriptions, which
can still be read to their end.
-/

namespace Inventory

/-- What the store holds under a key: the value, the revisions that wrote it last and first since
the key was absent, and how often it was written since then. -/
structure Stored where
  value : Bytes
  modRevision : Revision
  createRevision : Revision
  version : Nat
  deriving DecidableEq, Repr

/-- A key with its value, as a listing shows it. -/
structure KvRecord where
  key : String
  value : Bytes
  modRevision : Revision
  deriving DecidableEq, Repr

/-- What happened to a key. -/
inductive Change where
  | put (value : Bytes)
  | delete
  deriving DecidableEq, Repr

/-- A change of a key by a commit. `moreEvents` says that another event of the same commit
follows. -/
structure WatchEvent where
  key : String
  change : Change
  revision : Revision
  moreEvents : Bool
  deriving DecidableEq, Repr

/-- A write of a commit. -/
inductive Write where
  | put (key : String) (value : Bytes)
  | delete (key : String)
  deriving DecidableEq, Repr

/-- The key that is written. -/
def Write.key : Write → String
  | put key _ => key
  | delete key => key

/-- A conditional commit. Each key read must still have the revision that was observed, zero for
an absent key; with a snapshot, a key that is written without having been read must not have
changed after it. -/
structure TxnRequest where
  reads : List (String × Revision)
  snapshot : Option Revision
  writes : List Write
  deriving DecidableEq, Repr

/-- Who a subscription is for. -/
inductive Subscriber where
  | client (name : String)
  | feed (number : Nat)
  deriving DecidableEq, Repr

/-- A subscription to the keys that start with `scope`. Events wait in `backlog`. It is `held` as
long as the subscriber wants it, and `connected` as long as the store adds events to it. -/
structure Subscription where
  subscriber : Subscriber
  scope : String
  backlog : List WatchEvent
  held : Bool
  connected : Bool
  deriving DecidableEq, Repr

/-- The keys of the store. -/
abbrev Contents := Std.ExtTreeMap String Stored

/-- A key-value store. -/
structure Store where
  contents : Contents
  revision : Revision
  subscriptions : List Subscription
  closed : Bool

/-! ## Writing -/

namespace Contents

/-- The revision that wrote a key last, zero for an absent key. -/
def modRevision (m : Contents) (key : String) : Revision :=
  match m[key]? with
  | some stored => stored.modRevision
  | none => 0

/-- Puts a value under a key. -/
def put (m : Contents) (key : String) (value : Bytes) (rev : Revision) : Contents :=
  m.insert key <|
    match m[key]? with
    | some stored =>
      { stored with value := value, modRevision := rev, version := stored.version + 1 }
    | none => ⟨value, rev, rev, 1⟩

/-- Does a write of a commit; gives the event of it, if it changed anything. -/
def write (c : Contents) (rev : Revision) : Write → Contents × Option WatchEvent
  | .put key value => (c.put key value rev, some ⟨key, .put value, rev, false⟩)
  | .delete key =>
    if c.contains key then (c.erase key, some ⟨key, .delete, rev, false⟩) else (c, none)

/-- Does the writes of a commit in order; gives their events. -/
def writeAll (rev : Revision) : List Write → Contents → Contents × List WatchEvent
  | [], c => (c, [])
  | w :: ws, c =>
    let (c, event) := c.write rev w
    let (c, events) := writeAll rev ws c
    (c, event.toList ++ events)

/-- The records whose keys start with `scope`, in the order of the keys: starting at `scope`
itself, up to the first key that does not start with it. -/
def scan (c : Contents) (scope : String) : List KvRecord :=
  ((c.toList.dropWhile fun p => compare p.1 scope == .lt).takeWhile
    fun p => Text.hasPrefix scope p.1).map fun p => ⟨p.1, p.2.value, p.2.modRevision⟩

end Contents

/-- Marks all events of a commit but the last as being followed by another. -/
def markMore : List WatchEvent → List WatchEvent
  | [] => []
  | [e] => [{ e with moreEvents := false }]
  | e :: f :: es => { e with moreEvents := true } :: markMore (f :: es)

/-- The events of each commit: a commit goes on as long as its events announce another. -/
def commitsOf : List WatchEvent → List (List WatchEvent)
  | [] => []
  | e :: es =>
    if e.moreEvents then
      match commitsOf es with
      | [] => []
      | c :: cs => (e :: c) :: cs
    else [e] :: commitsOf es

namespace Subscription

/-- Adds the events of a commit that are in the scope of a subscription. A subscription that
nobody holds any longer ends when it has an event. -/
def publish (events : List WatchEvent) (sub : Subscription) : Option Subscription :=
  let matching := events.filter fun e => Text.hasPrefix sub.scope e.key
  if !sub.connected || matching.isEmpty then some sub
  else if sub.held then some { sub with backlog := sub.backlog ++ markMore matching }
  else none

/-- Ends a subscription; what waits in it can still be read if somebody holds it. -/
def disconnect (sub : Subscription) : Option Subscription :=
  if sub.held then some { sub with connected := false } else none

/-- Lets go of a subscription. -/
def release (sub : Subscription) : Option Subscription :=
  if sub.connected then some { sub with held := false } else none

/-- Whether a subscriber holds a subscription. -/
def heldBy (who : Subscriber) (sub : Subscription) : Bool :=
  sub.held && decide (sub.subscriber = who)

end Subscription

namespace Store

/-- A store without keys. -/
def empty : Store := ⟨∅, 0, [], false⟩

/-- Refuses a closed store. -/
def ifOpen {β : Type} (s : Store) (action : KvResult β × Store) : KvResult β × Store :=
  if s.closed then (.error (.unavailable "store is closed"), s) else action

/-- Commits writes under the next revision, unless they change nothing. -/
def commit (s : Store) (writes : List Write) : Revision × Store :=
  let rev := s.revision.next
  let (contents, events) := s.contents.writeAll rev writes
  if events.isEmpty then (s.revision, s)
  else
    (rev, { s with
      contents := contents
      revision := rev
      subscriptions := s.subscriptions.filterMap (Subscription.publish events) })

/-- Commits writes for which nothing stands in the way. -/
def commitOk (s : Store) (writes : List Write) : KvResult Revision × Store :=
  let (rev, s) := s.commit writes
  (.ok rev, s)

/-! ## Operations -/

/-- What is stored under a key. -/
def get (s : Store) (key : String) : KvResult (Option Stored) × Store :=
  s.ifOpen (.ok s.contents[key]?, s)

/-- Puts a value under an absent key. -/
def create (s : Store) (key : String) (value : Bytes) : KvResult Revision × Store :=
  s.ifOpen <|
    if s.contents.contains key then (.error (.alreadyExists key), s)
    else s.commitOk [.put key value]

/-- Puts a value under a present key; unless the expected revision is zero it must be the key's
own. -/
def update (s : Store) (key : String) (value : Bytes) (expected : Revision) :
    KvResult Revision × Store :=
  s.ifOpen <|
    match s.contents[key]? with
    | none => (.error (.notFound key), s)
    | some stored =>
      if !expected.isZero && stored.modRevision != expected then
        (.error (.conflict ("key " ++ key ++ " is at " ++ stored.modRevision.text ++
          ", expected " ++ expected.text)), s)
      else s.commitOk [.put key value]

/-- Puts a value under a key. -/
def put (s : Store) (key : String) (value : Bytes) : KvResult Revision × Store :=
  s.ifOpen (s.commitOk [.put key value])

/-- Deletes a present key. -/
def delete (s : Store) (key : String) : KvResult Revision × Store :=
  s.ifOpen <|
    if s.contents.contains key then s.commitOk [.delete key] else (.error (.notFound key), s)

/-- The records whose keys start with `scope`, in the order of the keys. -/
def list (s : Store) (scope : String) : KvResult (List KvRecord) × Store :=
  s.ifOpen (.ok (s.contents.scan scope), s)

/-- The revision of the last commit. -/
def currentRevision (s : Store) : KvResult Revision × Store := s.ifOpen (.ok s.revision, s)

/-- The first key read that is not at the revision observed. -/
def movedRead? (c : Contents) (reads : List (String × Revision)) : Option KvError :=
  (reads.find? fun r => c.modRevision r.1 != r.2).map fun r =>
    .conflict ("read key " ++ r.1 ++ " moved from " ++ r.2.text ++ " to " ++
      (c.modRevision r.1).text)

/-- The first key written without having been read that changed after the snapshot. -/
def movedWrite? (c : Contents) (txn : TxnRequest) (snapshot : Revision) : Option KvError :=
  (txn.writes.find? fun w =>
    !txn.reads.any (fun r => r.1 == w.key) && snapshot < c.modRevision w.key).map fun w =>
      .conflict ("write key " ++ w.key ++ " modified at " ++ (c.modRevision w.key).text ++
        " after snapshot " ++ snapshot.text)

/-- What stands in the way of a conditional commit. -/
def obstacle? (c : Contents) (txn : TxnRequest) : Option KvError :=
  match movedRead? c txn.reads with
  | some e => some e
  | none => txn.snapshot.bind (movedWrite? c txn)

/-- Commits under conditions. Without writes there is nothing to commit, and the conditions are
not looked at. -/
def commitTxn (s : Store) (txn : TxnRequest) : KvResult Revision × Store :=
  s.ifOpen <|
    if txn.writes.isEmpty then (.ok s.revision, s)
    else
      match obstacle? s.contents txn with
      | some e => (.error e, s)
      | none => s.commitOk txn.writes

/-! ## Subscriptions -/

/-- Lets go of what a subscriber holds. -/
def unwatch (s : Store) (who : Subscriber) : Store :=
  { s with subscriptions := s.subscriptions.filterMap fun sub =>
      if sub.heldBy who then sub.release else some sub }

/-- Subscribes to the keys that start with `scope`: a snapshot of them, and the revision it is
of. -/
def watch (s : Store) (who : Subscriber) (scope : String) :
    KvResult (List KvRecord × Revision) × Store :=
  s.ifOpen <|
    let s := s.unwatch who
    (.ok (s.contents.scan scope, s.revision),
      { s with subscriptions := s.subscriptions ++ [⟨who, scope, [], true, true⟩] })

/-- The subscription that a subscriber holds. -/
def subscription? (s : Store) (who : Subscriber) : Option Subscription :=
  s.subscriptions.find? (·.heldBy who)

/-- The error of a subscription that the store has ended. -/
def streamClosed : KvError := .unavailable "watch stream closed by backend"

/-- Takes the events that wait for a subscriber; the error says that none will follow. -/
def poll (s : Store) (who : Subscriber) : Option (List WatchEvent × Option KvError) × Store :=
  (s.subscription? who |>.map fun sub =>
      (sub.backlog, if sub.connected then none else some streamClosed),
    { s with subscriptions := s.subscriptions.map fun sub =>
        if sub.heldBy who then { sub with backlog := [] } else sub })

/-- How many subscriptions the store adds events to. -/
def watcherCount (s : Store) : Nat := s.subscriptions.countP (·.connected)

/-- Closes the store. -/
def close (s : Store) : Store :=
  { s with
    closed := true
    subscriptions := s.subscriptions.filterMap Subscription.disconnect }

end Store

end Inventory
