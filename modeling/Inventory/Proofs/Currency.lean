import Inventory.Proofs.Hub
import Inventory.Proofs.Sync

/-!
# How current the caches of a hub are

A hub feeds its caches from one sync, while others go on using the store and readers of the caches
ask to be told of changes. Whoever is told by one cache may look at the others.

* `Hub.Shows`: each cache of a hub holds what it held before and the changes of some events to its
  own type.
* `Shows.through`: **the caches of a hub go through a history commit by commit**, and in a commit
  one after another.
* `hub_currency`: **when a cache tells of a change, every other cache holds all changes up to that
  revision to its own type, unless it is fed after that cache in the same commit**; then it holds
  those before that revision.
-/

namespace Inventory

/-! ## What events make of a cache -/

namespace Cache

variable {α : Type} [Entity α] {c c' : Cache α}

/-- The entries of a cache after the changes of some events to its type. -/
def changedBy (c : Cache α) (events : List WatchEvent) :
    Std.ExtTreeMap (Entity.Key α) (CacheEntry α) :=
  (applyParts (told α events) c).1.entries

theorem applyPart_entries_congr (h : c.entries = c'.entries) (e : SyncEvent α) :
    (c.applyPart e).1.entries = (c'.applyPart e).1.entries := by
  cases e with
  | update obj rev =>
    show c.entries.insert _ _ = c'.entries.insert _ _
    rw [h]
  | delete k rev =>
    have hget : c.get? k = c'.get? k := by unfold get?; rw [h]
    show (c.remove k).1.entries = (c'.remove k).1.entries
    unfold remove
    rw [hget]
    cases c'.get? k with
    | none => exact h
    | some old => exact congrArg (·.erase k) h
  | _ => exact h

/-- What events make of the entries depends on nothing but the entries. -/
theorem applyParts_entries_congr (h : c.entries = c'.entries) (es : List (SyncEvent α)) :
    (applyParts es c).1.entries = (applyParts es c').1.entries := by
  induction es generalizing c c' with
  | nil => exact h
  | cons e es ih => exact ih (applyPart_entries_congr h e)

/-- Events one after another. -/
theorem changedBy_append {early late : List WatchEvent} (h : c'.entries = c.changedBy early) :
    c'.changedBy late = c.changedBy (early ++ late) := by
  unfold changedBy
  rw [told_append, applyParts_append]
  exact applyParts_entries_congr h _

theorem told_marked (es : List WatchEvent) : told α (markMore es) = told α es := by
  have hplain (es : List WatchEvent) : told α (es.map WatchEvent.plain) = told α es := by
    unfold told eventsUnder
    rw [List.filter_map, List.map_map]
    rfl
  rw [← hplain, markMore_plain, hplain]

/-- A cache is changed by its share of a commit as by the whole commit. -/
theorem share_entries {j : Kind} (c : Cache j.Obj) (es : List WatchEvent) :
    (c.afterDeliveries ((Delivery.commit es).shareOf j)).entries = c.changedBy es := by
  simp only [Delivery.shareOf]
  by_cases hshare : eventsUnder (Entity.typePrefix j.Obj) es = []
  · rw [if_pos hshare]
    unfold changedBy told
    rw [hshare]
    rfl
  · rw [if_neg hshare]
    exact applyCommit_entries _ c

end Cache

/-! ## A hub and a history -/

namespace Hub

variable {h : Hub} {base : CacheSet} {events : List WatchEvent}

/-- Each cache of a hub holds what it held before and the changes of some events to its own
type. -/
def Shows (h : Hub) (base : CacheSet) (events : List WatchEvent) : Prop :=
  ∀ j, (h.caches.get j).map (·.entries) = (base.get j).map (·.changedBy events)

/-- A commit reaches the caches. -/
theorem Shows.receive (hs : h.Shows base events) (es : List WatchEvent) :
    (h.receive (.commit es)).1.Shows base (events ++ es) := by
  intro j
  have hj := hs j
  rw [receive_caches, Option.map_map]
  cases hc : h.caches.get j with
  | none =>
    rw [hc] at hj
    rw [Option.map_eq_none_iff.1 hj.symm]
    rfl
  | some c =>
    rw [hc] at hj
    obtain ⟨b, hb, hentries⟩ := Option.map_eq_some_iff.1 hj.symm
    rw [hb]
    refine congrArg some ?_
    exact (c.share_entries es).trans (Cache.changedBy_append hentries.symm)

/-- Announcing that more events follow makes no difference. -/
theorem Shows.receive_marked (hs : h.Shows base events) (es : List WatchEvent) :
    (h.receive (.commit (markMore es))).1.Shows base (events ++ es) := by
  intro j
  rw [hs.receive _ j]
  refine Option.map_congr fun b _ => ?_
  unfold Cache.changedBy
  rw [Cache.told_append, Cache.told_append, Cache.told_marked]

theorem kindsSeen_congr {h h' : Hub} (heq : h.kinds = h'.kinds) (es : List WatchEvent) :
    h.kindsSeen es = h'.kindsSeen es := by
  unfold kindsSeen kindOf?
  rw [heq]

/-- The moments of commits. -/
def momentsThrough : List (List WatchEvent) → Hub → List HubMoment
  | [], _ => []
  | g :: gs, h => h.moments g ++ momentsThrough gs (h.receive (.commit g)).1

theorem foldl_receive (gs : List (List WatchEvent)) (h : Hub) (l : Announcements) :
    gs.foldl (fun x g => ((x.1.receive (.commit g)).1, x.2 ++ (x.1.receive (.commit g)).2)) (h, l) =
      ((receiveAll (gs.map .commit) h).1, l ++ (momentsThrough gs h).flatMap (·.announced)) := by
  induction gs generalizing h l with
  | nil => rw [momentsThrough, List.flatMap_nil, List.append_nil]; rfl
  | cons g gs ih =>
    rw [List.foldl_cons, ih, momentsThrough, List.flatMap_append, List.append_assoc]
    refine Prod.ext rfl (congrArg (l ++ ·) (congrArg (· ++ _) ?_))
    exact stepMoments_announced g _ h

theorem foldl_moments (gs : List (List WatchEvent)) (h : Hub) (l : List HubMoment) :
    gs.foldl (fun x g => ((x.1.receive (.commit g)).1, x.2 ++ x.1.moments g)) (h, l) =
      ((receiveAll (gs.map .commit) h).1, l ++ momentsThrough gs h) := by
  induction gs generalizing h l with
  | nil => rw [momentsThrough, List.append_nil]; rfl
  | cons g gs ih =>
    rw [List.foldl_cons, ih, momentsThrough, List.append_assoc]
    rfl

end Hub

/-- A moment in the commit of an operation. Each cache holds the changes to its type that the
operations before it made, and those of this one unless it is fed after the cache that tells. -/
structure HubMoment.Within (m : HubMoment) (base : CacheSet) (s : Store) (early : List Op)
    (op : Op) : Prop where
  commit : m.commit = markMore (op.events (Op.runAll early s))
  changes : op.events (Op.runAll early s) ≠ []
  own : ∀ a ∈ m.announced, a.1 = m.kind
  caches : ∀ j, (m.hub.caches.get j).map (·.entries) =
    (base.get j).map (·.changedBy ((Op.log early s).flatten ++
      if m.hub.FedAfter m.commit m.kind j then [] else op.events (Op.runAll early s)))

namespace Hub

variable {h : Hub} {base : CacheSet} {s : Store}

/-- The moments of a commit. -/
theorem Shows.within {early : List Op} {op : Op} (hs : h.Shows base (Op.log early s).flatten)
    (hchanges : op.events (Op.runAll early s) ≠ []) {m : HubMoment}
    (hm : m ∈ h.moments (markMore (op.events (Op.runAll early s)))) : m.Within base s early op := by
  obtain ⟨hcommit, -, hown, hcaches⟩ := mem_moments hm
  have hkinds : m.hub.kinds = h.kinds := kinds_congr fun j => by
    rw [hcaches j]
    split
    · rfl
    · rw [receive_caches, Option.isSome_map]
  refine ⟨hcommit, hchanges, hown, fun j => ?_⟩
  have hafter : m.hub.FedAfter m.commit m.kind j ↔
      h.FedAfter (markMore (op.events (Op.runAll early s))) m.kind j := by
    unfold FedAfter
    rw [hcommit, kindsSeen_congr hkinds]
  rw [hcaches j]
  by_cases hlater : h.FedAfter (markMore (op.events (Op.runAll early s))) m.kind j
  · rw [if_pos hlater, if_pos (hafter.2 hlater), List.append_nil]
    exact hs j
  · rw [if_neg hlater, if_neg fun h => hlater (hafter.1 h)]
    exact hs.receive_marked _ j

/-- **The caches of a hub go through a history commit by commit**, and in a commit one after
another. -/
theorem Shows.through {early late : List Op} (hs : h.Shows base (Op.log early s).flatten) :
    (receiveAll (((Op.commitsUnder "" late (Op.runAll early s)).map markMore).map .commit)
        h).1.Shows base (Op.log (early ++ late) s).flatten ∧
      ∀ m ∈ momentsThrough ((Op.commitsUnder "" late (Op.runAll early s)).map markMore) h,
        ∃ before op after, early ++ late = before ++ op :: after ∧ m.Within base s before op := by
  induction late generalizing early h with
  | nil =>
    rw [List.append_nil]
    exact ⟨hs, fun m hm => (nomatch hm)⟩
  | cons op late ih =>
    have hall : eventsUnder "" (op.events (Op.runAll early s)) = op.events (Op.runAll early s) :=
      List.filter_eq_self.2 fun _ _ => rfl
    have hnext : (op.run (Op.runAll early s)).2 = Op.runAll (early ++ [op]) s := by
      rw [Op.runAll_append]; rfl
    have hsplit : early ++ op :: late = (early ++ [op]) ++ late := by
      rw [List.append_assoc]; rfl
    by_cases hnone : op.events (Op.runAll early s) = []
    · -- nothing changed, so nothing is delivered
      rw [Op.commitsUnder_cons_of_nil (hall.trans hnone), hnext, hsplit]
      refine ih ?_
      rw [Op.log_concat_flatten, hnone, List.append_nil]
      exact hs
    · have hshows : (h.receive (.commit (markMore (op.events (Op.runAll early s))))).1.Shows base
          (Op.log (early ++ [op]) s).flatten := by
        rw [Op.log_concat_flatten]
        exact hs.receive_marked _
      obtain ⟨hend, hlater⟩ := ih hshows
      rw [Op.commitsUnder_cons_of_ne_nil (hall.trans_ne hnone), hall, hnext, hsplit]
      refine ⟨hend, fun m hm => ?_⟩
      rcases List.mem_append.1 hm with hm | hm
      · exact ⟨early, op, late, hsplit.symm, hs.within hnone hm⟩
      · exact hlater m hm

end Hub

/-! ## A hub that serves -/

/-- What happens next: an operation on the store, a delivery of the commits that have come in, or a
reader of a cache that asks to be told of changes to a key or does not want to be told any more. -/
inductive HubMove where
  | op (o : Op)
  | deliver
  | watch (k : Kind) (key : k.Key) (name : String)
  | unwatch (k : Kind) (key : k.Key) (id : Nat)

namespace Hub

/-- Changes the cache that is registered for a type. -/
def onCache (h : Hub) (k : Kind) (f : Cache k.Obj → Cache k.Obj) : Hub :=
  { h with caches := h.caches.set k ((h.caches.get k).map f) }

/-- The moments of a delivery. -/
def liveMoments (h : Hub) (s : Store) : List HubMoment :=
  match h.sync with
  | none => []
  | some sync =>
    (sync.deliver (fun x => x.1.cancelled)
      (fun events (x : Hub × List HubMoment) =>
        ((x.1.receive (.commit events)).1, x.2 ++ x.1.moments events)) s (h, [])).2.2.2

end Hub

/-- A store and a hub that is fed from it, with the moments at which its caches told of commits and
what they told. -/
structure Serving where
  store : Store
  hub : Hub
  moments : List HubMoment
  announced : Announcements

namespace Serving

/-- A hub is started for the first time, with some caches registered. -/
def start (caches : CacheSet) (who : Subscriber) (s : Store) : Serving :=
  let started := Hub.start { Hub.empty with caches } who s
  ⟨started.2.2.2, started.2.1, [], []⟩

/-- The next step. -/
def step (st : Serving) : HubMove → Serving
  | .op o => { st with store := (o.run st.store).2 }
  | .deliver =>
    let delivered := st.hub.deliver st.store
    { store := delivered.2.2
      hub := delivered.1
      moments := st.moments ++ st.hub.liveMoments st.store
      announced := st.announced ++ delivered.2.1 }
  | .watch k key name => { st with hub := st.hub.onCache k fun c => (c.watch key name).2 }
  | .unwatch k key id => { st with hub := st.hub.onCache k fun c => c.unwatch key id }

/-- Steps one after another. -/
def run (st : Serving) (moves : List HubMove) : Serving := moves.foldl step st

end Serving

/-- The operations among some moves. -/
def HubMove.ops (moves : List HubMove) : List Op :=
  moves.filterMap fun
    | .op o => some o
    | .deliver | .watch _ _ _ | .unwatch _ _ _ => none

namespace Hub

variable {h : Hub} {base : CacheSet} {events : List WatchEvent}

/-- Readers do not change what a cache holds. -/
theorem Shows.onCache (hs : h.Shows base events) (k : Kind) {f : Cache k.Obj → Cache k.Obj}
    (hf : ∀ c, (f c).entries = c.entries) : (h.onCache k f).Shows base events := by
  intro j
  rw [← hs j]
  by_cases hj : j = k
  · subst hj
    show Option.map _ ((h.caches.set j _).get j) = _
    rw [PerKind.get_set_self, Option.map_map]
    exact Option.map_congr fun c _ => hf c
  · exact congrArg _ (PerKind.get_set_of_ne _ _ hj)

theorem markStopped_caches (h : Hub) (j : Kind) :
    h.markStopped.caches.get j = (h.caches.get j).map Cache.markStopped := PerKind.get_ofFn _ _

/-- Keeping a sync does not change what the caches hold. -/
theorem Shows.keep (hs : h.Shows base events) (sync : Sync) : (h.keep sync).Shows base events := by
  intro j
  rw [← hs j]
  unfold Hub.keep
  simp only
  split
  · rw [markStopped_caches, Option.map_map]
    rfl
  · rfl

theorem keep_frame (h : Hub) (sync : Sync) :
    (h.keep sync).cancelled = h.cancelled ∧ (h.keep sync).sync = some sync := by
  unfold keep
  simp only
  split <;> exact ⟨rfl, rfl⟩

/-- What a hub comes to by delivering what waits. -/
theorem deliver_of_watching {sync : Sync} {s : Store} {backlog : List WatchEvent}
    (hsync : h.sync = some sync) (hnone : sync.outcome = none) (hgoes : h.cancelled = false)
    (hw : s.Watching sync.subscriber "" backlog) :
    ∃ sync' s', h.deliver s =
        ((receiveAll ((commitsOf backlog).map .commit) h).1.keep sync',
          (momentsThrough (commitsOf backlog) h).flatMap (·.announced), s') ∧
      h.liveMoments s = momentsThrough (commitsOf backlog) h ∧
      s'.SameKeys s ∧ sync'.subscriber = sync.subscriber ∧
      (sync'.outcome = none → s'.Watching sync.subscriber "" []) := by
  obtain ⟨sync', s', hdeliver, hsame, hwho, hwatch⟩ := Sync.deliver_of_watching hnone hw
  have hstays (gs : List (List WatchEvent)) :
      (receiveAll (gs.map .commit) h).1.cancelled = false := (receiveAll_frame _ h).1.trans hgoes
  refine ⟨sync', s', ?_, ?_, hsame, hwho, hwatch⟩
  · unfold deliver
    rw [hsync]
    simp only [hnone, Option.isSome_none, Bool.false_eq_true, if_false]
    rw [hdeliver _ _ _ _ fun gs => by rw [foldl_receive]; exact hstays gs, foldl_receive,
      List.nil_append]
  · unfold liveMoments
    rw [hsync]
    simp only
    rw [hdeliver _ _ _ _ fun gs => by rw [foldl_moments]; exact hstays gs, foldl_moments,
      List.nil_append]

/-- A hub that is idle starts with the list of a sync, and with a first look at what has come in. -/
theorem start_parts (hidle : h.sync = none) (who : Subscriber) (s : Store) :
    (h.start who s).2 =
      ((((receiveAll (Sync.start who "" s).2.1 h).1.keep (Sync.start who "" s).1).deliver
          (Sync.start who "" s).2.2).1,
        (receiveAll (Sync.start who "" s).2.1 h).2 ++
          (((receiveAll (Sync.start who "" s).2.1 h).1.keep (Sync.start who "" s).1).deliver
            (Sync.start who "" s).2.2).2.1,
        (((receiveAll (Sync.start who "" s).2.1 h).1.keep (Sync.start who "" s).1).deliver
          (Sync.start who "" s).2.2).2.2) := by
  unfold start
  rw [hidle]

end Hub

namespace Serving

/-- A store was passed through with a subscription for which nothing waited, and the caches hold the
changes up to then. What waits now is what operations did after it. -/
structure Pending (st : Serving) (base : CacheSet) (who : Subscriber) (s : Store)
    (early late : List Op) (s' : Store) : Prop where
  watching : s'.Watching who "" []
  store : st.store = Op.runAll late s'
  sameKeys : s'.SameKeys (Op.runAll early s)
  others : ∀ op ∈ late, op.subscriber? ≠ some who
  shows : st.hub.Shows base (Op.log early s).flatten

/-- What is known of a hub that serves, after some operations on the store. -/
structure Sound (st : Serving) (base : CacheSet) (who : Subscriber) (s : Store) (ops : List Op) :
    Prop where
  going : st.hub.cancelled = false
  name : ∀ sync, st.hub.sync = some sync → sync.subscriber = who
  moments : ∀ m ∈ st.moments, ∃ early op late, ops = early ++ op :: late ∧ m.Within base s early op
  announced : st.announced = st.moments.flatMap (·.announced)
  pending : ∀ sync, st.hub.sync = some sync → sync.outcome = none →
    ∃ early late s', ops = early ++ late ∧ st.Pending base who s early late s'

variable {st : Serving} {caches base : CacheSet} {who : Subscriber} {s : Store} {ops : List Op}

/-- Some caches after the list of a store. -/
def listed (caches : CacheSet) (s : Store) : CacheSet :=
  .ofFn fun j => (caches.get j).map (Cache.afterDeliveries
    (Delivery.listing (s.contents.scan (Entity.typePrefix j.Obj)) s.revision))

/-- After the list each cache has received the list of its type. -/
theorem shows_listed (caches : CacheSet) (s : Store) :
    (Hub.receiveAll (Delivery.listing (s.contents.scan "") s.revision)
      { Hub.empty with caches }).1.Shows (listed caches s) [] := by
  intro j
  unfold listed
  rw [Hub.receiveAll_caches, Delivery.shareOf_listing, PerKind.get_ofFn]
  exact congrArg _ rfl

/-- A closed store gives no list, and nothing will be delivered. -/
theorem Sound.start_of_closed (hs : s.closed = true) (caches : CacheSet) (who : Subscriber) :
    (start caches who s).Sound (listed caches s) who s [] := by
  set sync : Sync := ⟨who, .failed, some (.error (.ofKv (.unavailable "store is closed")))⟩
    with hfailed
  have hhub : (Serving.start caches who s).hub = { Hub.empty with caches }.keep sync := by
    show (Hub.start { Hub.empty with caches } who s).2.1 = _
    rw [Hub.start_parts rfl, Sync.start_of_closed hs]
    unfold Hub.deliver
    rw [(Hub.keep_frame _ _).2]
    rfl
  obtain ⟨hgoes, hkept⟩ := Hub.keep_frame { Hub.empty with caches } sync
  rw [← hhub] at hgoes hkept
  refine ⟨hgoes, fun sync' h => ?_, fun m hm => (nomatch hm), rfl, fun sync' h hnone => ?_⟩
  · rw [hkept] at h
    rw [← Option.some.inj h]
  · rw [hkept] at h
    rw [← Option.some.inj h] at hnone
    cases hnone

/-- An open store gives its list, and then nothing waits. -/
theorem Sound.start_of_open (hs : s.closed = false) (caches : CacheSet) (who : Subscriber) :
    (start caches who s).Sound (listed caches s) who s [] := by
  have hwatching := (Store.watch_watching hs who "").2
  set h := (Hub.receiveAll (Delivery.listing (s.contents.scan "") s.revision)
    { Hub.empty with caches }).1 with hlisted
  -- the first look at what has come in finds nothing
  obtain ⟨hgoes, hkept⟩ := h.keep_frame ⟨who, .streaming, none⟩
  obtain ⟨sync', s', hdeliver, -, hsame, hwho, hwatch⟩ :=
    Hub.deliver_of_watching hkept rfl (hgoes.trans (Hub.receiveAll_frame _ _).1) hwatching
  have hstart : (Hub.start { Hub.empty with caches } who s).2.1 =
        (h.keep ⟨who, .streaming, none⟩).keep sync' ∧
      (Hub.start { Hub.empty with caches } who s).2.2.2 = s' := by
    rw [Hub.start_parts rfl, Sync.start_of_open hs]
    simp only
    rw [← hlisted, hdeliver]
    exact ⟨rfl, rfl⟩
  have hhub : (Serving.start caches who s).hub = (h.keep ⟨who, .streaming, none⟩).keep sync' :=
    hstart.1
  have hstore : (Serving.start caches who s).store = s' := hstart.2
  obtain ⟨hgoes', hkept'⟩ := (h.keep ⟨who, .streaming, none⟩).keep_frame sync'
  rw [← hhub] at hgoes' hkept'
  refine ⟨hgoes'.trans (hgoes.trans (Hub.receiveAll_frame _ _).1), fun sync heq => ?_,
    fun m hm => (nomatch hm), rfl, fun sync heq hnone => ⟨[], [], s', rfl, ?_⟩⟩
  · rw [hkept'] at heq
    rw [← Option.some.inj heq]
    exact hwho
  · rw [hkept'] at heq
    rw [← Option.some.inj heq] at hnone
    refine ⟨hwatch hnone, hstore, hsame.trans (Op.sameKeys_watch s who ""),
      fun op hop => (nomatch hop), ?_⟩
    rw [hhub]
    exact ((shows_listed caches s).keep _).keep _

/-- After the start nothing waits. -/
theorem Sound.start (caches : CacheSet) (who : Subscriber) (s : Store) :
    (start caches who s).Sound (listed caches s) who s [] := by
  cases hs : s.closed with
  | true => exact start_of_closed hs caches who
  | false => exact start_of_open hs caches who

/-- Others use the store. -/
theorem Sound.op (h : st.Sound base who s ops) {op : Op} (hop : op.subscriber? ≠ some who) :
    (st.step (.op op)).Sound base who s (ops ++ [op]) := by
  refine ⟨h.going, h.name, fun m hm => ?_, h.announced, fun sync hsync hnone => ?_⟩
  · obtain ⟨early, o, late, heq, hwithin⟩ := h.moments m hm
    exact ⟨early, o, late ++ [op], by rw [heq, List.append_assoc]; rfl, hwithin⟩
  · -- what waits is what the operations so far did, and this one
    obtain ⟨early, late, s', heq, hp⟩ := h.pending sync hsync hnone
    refine ⟨early, late ++ [op], s', by rw [heq, List.append_assoc], hp.watching, ?_, hp.sameKeys,
      fun o ho => ?_, hp.shows⟩
    · rw [Op.runAll_append, ← hp.store]
      rfl
    · rcases List.mem_append.1 ho with ho | ho
      · exact hp.others o ho
      · rw [List.mem_singleton.1 ho]
        exact hop

/-- Readers come and go. -/
theorem Sound.onCache (h : st.Sound base who s ops) (k : Kind) {f : Cache k.Obj → Cache k.Obj}
    (hf : ∀ c, (f c).entries = c.entries) :
    Sound { st with hub := st.hub.onCache k f } base who s ops := by
  refine ⟨h.going, h.name, h.moments, h.announced, fun sync hsync hnone => ?_⟩
  obtain ⟨early, late, s', heq, hp⟩ := h.pending sync hsync hnone
  exact ⟨early, late, s', heq, hp.watching, hp.store, hp.sameKeys, hp.others, hp.shows.onCache k hf⟩

/-- A hub whose sync has ended delivers nothing. -/
theorem step_deliver_of_ended (h : ∀ sync, st.hub.sync = some sync → sync.outcome ≠ none) :
    st.step .deliver = st := by
  have hdeliver : st.hub.deliver st.store = (st.hub, [], st.store) := by
    unfold Hub.deliver
    cases hsync : st.hub.sync with
    | none => rfl
    | some sync => exact if_pos (Option.isSome_iff_ne_none.2 (h sync hsync))
  have hmoments : st.hub.liveMoments st.store = [] := by
    unfold Hub.liveMoments
    cases hsync : st.hub.sync with
    | none => rfl
    | some sync =>
      simp only
      rw [sync.deliver_of_ended (h sync hsync)]
  simp only [step, hdeliver, hmoments, List.append_nil]

/-- The commits that wait are delivered. -/
theorem Sound.deliver (h : st.Sound base who s ops) : (st.step .deliver).Sound base who s ops := by
  by_cases hended : ∀ sync, st.hub.sync = some sync → sync.outcome ≠ none
  · rw [step_deliver_of_ended hended]
    exact h
  · simp only [not_forall, not_not] at hended
    obtain ⟨sync, hsync, hnone⟩ := hended
    obtain ⟨early, late, s', heq, hp⟩ := h.pending sync hsync hnone
    -- what waits is cut into the commits that were done meanwhile
    obtain ⟨backlog, hwatching, hbacklog⟩ := hp.watching.runAll fun op hop hwho =>
      absurd hwho (hp.others op hop)
    rw [Op.received_of_others hp.others, List.nil_append, List.nil_append,
      Op.log_congr late hp.sameKeys] at hbacklog
    rw [← hp.store, ← h.name sync hsync] at hwatching
    obtain ⟨sync', s'', hdeliver, hmoments, hsame, hwho, hwatch⟩ :=
      Hub.deliver_of_watching hsync hnone h.going hwatching
    rw [hbacklog, Op.commitsOf_log] at hdeliver hmoments
    obtain ⟨hshows, hthrough⟩ := Hub.Shows.through hp.shows
    obtain ⟨hgoes, hkept⟩ := Hub.keep_frame (Hub.receiveAll (((Op.commitsUnder "" late
      (Op.runAll early s)).map markMore).map .commit) st.hub).1 sync'
    have hstep : st.step .deliver = ⟨_, _, _, _⟩ := rfl
    rw [hdeliver, hmoments] at hstep
    rw [hstep]
    constructor
    case going => exact hgoes.trans ((Hub.receiveAll_frame _ _).1.trans h.going)
    case name =>
      intro sync'' heq'
      rw [← Option.some.inj (hkept.symm.trans heq')]
      exact hwho.trans (h.name sync hsync)
    case moments =>
      intro m hm
      rcases List.mem_append.1 hm with hm | hm
      · exact h.moments m hm
      · rw [heq]
        exact hthrough m hm
    case announced =>
      show st.announced ++ _ = (st.moments ++ _).flatMap _
      rw [h.announced, List.flatMap_append]
    case pending =>
      intro sync'' heq' hnone'
      -- nothing waits any longer
      rw [← Option.some.inj (hkept.symm.trans heq')] at hnone'
      have hwaits := hwatch hnone'
      rw [h.name sync hsync] at hwaits
      have hnow := Op.runAll_sameKeys late hp.sameKeys
      rw [← hp.store, ← Op.runAll_append, ← heq] at hnow
      rw [← heq] at hshows
      exact ⟨ops, [], s'', (List.append_nil ops).symm, hwaits, rfl, hsame.trans hnow,
        fun op hop => (nomatch hop), hshows.keep sync'⟩

theorem Sound.run {moves : List HubMove} (h : st.Sound base who s ops)
    (hmoves : ∀ op, HubMove.op op ∈ moves → op.subscriber? ≠ some who) :
    (st.run moves).Sound base who s (ops ++ HubMove.ops moves) := by
  induction moves generalizing st ops with
  | nil =>
    rw [show HubMove.ops [] = [] from rfl, List.append_nil]
    exact h
  | cons move moves ih =>
    have hrest : ∀ op, HubMove.op op ∈ moves → op.subscriber? ≠ some who :=
      fun op hop => hmoves op (List.mem_cons_of_mem _ hop)
    cases move with
    | op o =>
      have hrun := ih (h.op (hmoves o List.mem_cons_self)) hrest
      rw [List.append_assoc] at hrun
      exact hrun
    | deliver => exact ih h.deliver hrest
    | watch k key name => exact ih (h.onCache k fun _ => rfl) hrest
    | unwatch k key id => exact ih (h.onCache k fun _ => rfl) hrest

end Serving

/-! ## The revisions of changes -/

namespace Op

/-- The changes of a history before a revision. -/
def changesBefore (rev : Revision) (ops : List Op) (s : Store) : List WatchEvent :=
  (log ops s).flatten.filter (·.revision < rev)

/-- The changes of a history up to a revision. -/
def changesUpTo (rev : Revision) (ops : List Op) (s : Store) : List WatchEvent :=
  (log ops s).flatten.filter (·.revision ≤ rev)

/-- What a history has changed before an operation and up to it, by revisions. -/
theorem changes_at (early : List Op) {op : Op} (late : List Op) (s : Store)
    (h : op.events (runAll early s) ≠ []) :
    changesBefore (runAll early s).revision.next (early ++ op :: late) s = (log early s).flatten ∧
      changesUpTo (runAll early s).revision.next (early ++ op :: late) s =
        (log early s).flatten ++ op.events (runAll early s) := by
  have hbefore : ∀ e ∈ (log early s).flatten, e.revision < (runAll early s).revision.next := by
    intro e he
    obtain ⟨events, hev, he⟩ := List.mem_flatten.1 he
    exact Nat.lt_succ_of_le (log_revision_le early s events hev e he)
  have hat : ∀ e ∈ op.events (runAll early s), e.revision = (runAll early s).revision.next :=
    fun e he => (Contents.event_of_writeAll he).2
  have hafter : ∀ e ∈ (log late (op.run (runAll early s)).2).flatten,
      (runAll early s).revision.next < e.revision := by
    intro e he
    obtain ⟨events, hev, he⟩ := List.mem_flatten.1 he
    have hlate := (log_revision late _).1 events hev e he
    rw [run_revision, if_neg h] at hlate
    exact hlate
  have hsplit : (log (early ++ op :: late) s).flatten = (log early s).flatten ++
      (op.events (runAll early s) ++ (log late (op.run (runAll early s)).2).flatten) := by
    rw [log_append, List.flatten_append, log, List.flatten_cons]
  -- both take all changes before the operation and none after it
  have hcut (p : WatchEvent → Bool) (hp : ∀ e ∈ (log early s).flatten, p e = true)
      (hq : ∀ e ∈ (log late (op.run (runAll early s)).2).flatten, ¬ p e = true) :
      (log (early ++ op :: late) s).flatten.filter p =
        (log early s).flatten ++ (op.events (runAll early s)).filter p := by
    rw [hsplit, List.filter_append, List.filter_append, List.filter_eq_self.2 hp,
      List.filter_eq_nil_iff.2 hq, List.append_nil]
  constructor
  · refine (hcut _ (fun e he => decide_eq_true (hbefore e he)) fun e he => ?_).trans ?_
    · simp [Nat.le_of_lt (hafter e he)]
    · rw [List.filter_eq_nil_iff.2 fun e he => by simp [hat e he], List.append_nil]
  · refine (hcut _ (fun e he => decide_eq_true (Nat.le_of_lt (hbefore e he)))
      fun e he => ?_).trans ?_
    · simp [hafter e he]
    · rw [List.filter_eq_self.2 fun e he => decide_eq_true (Nat.le_of_eq (hat e he))]

end Op

/-- **How current the caches of a hub are when one of them tells of a change.** A hub is started for
the first time, with any caches registered, on any store; then others use the store, commits are
delivered, and readers come and go. Whatever is told of commits is told at the moments of the hub.
At each of them a cache has got its share of a commit, with all its changes of one revision. Every
cache of the hub then holds the list of its type and all changes up to that revision to its type,
unless it is fed after the cache that tells: then the commit has changes to its type, and it holds
those before that revision. -/
theorem hub_currency (caches : CacheSet) (who : Subscriber) (s : Store) (moves : List HubMove)
    (hmoves : ∀ op, HubMove.op op ∈ moves → op.subscriber? ≠ some who) :
    ((Serving.start caches who s).run moves).announced =
        ((Serving.start caches who s).run moves).moments.flatMap (·.announced) ∧
      ∀ m ∈ ((Serving.start caches who s).run moves).moments,
        (∀ a ∈ m.announced, a.1 = m.kind) ∧
        ∃ rev, m.commit ≠ [] ∧ (∀ e ∈ m.commit, e.revision = rev) ∧ ∀ j,
          (m.hub.FedAfter m.commit m.kind j →
            eventsUnder (Entity.typePrefix j.Obj) m.commit ≠ [] ∧
            (m.hub.caches.get j).map (·.entries) = ((Serving.listed caches s).get j).map
              (·.changedBy (Op.changesBefore rev (HubMove.ops moves) s))) ∧
          (¬ m.hub.FedAfter m.commit m.kind j →
            (m.hub.caches.get j).map (·.entries) = ((Serving.listed caches s).get j).map
              (·.changedBy (Op.changesUpTo rev (HubMove.ops moves) s))) := by
  have hsound := (Serving.Sound.start caches who s).run hmoves
  rw [List.nil_append] at hsound
  refine ⟨hsound.announced, fun m hm => ?_⟩
  obtain ⟨early, op, late, hops, hwithin⟩ := hsound.moments m hm
  obtain ⟨hbefore, hupTo⟩ := Op.changes_at early late s hwithin.changes
  rw [← hops] at hbefore hupTo
  refine ⟨hwithin.own, (Op.runAll early s).revision.next, ?_, ?_, fun j => ⟨?_, ?_⟩⟩
  · rw [hwithin.commit]
    exact fun h => hwithin.changes (markMore_eq_nil h)
  · intro e he
    rw [hwithin.commit] at he
    obtain ⟨f, hf, hrev⟩ := exists_of_mem_markMore he
    rw [← hrev, (Contents.event_of_writeAll hf).2]
  · intro hlater
    have hseen : j ∈ m.hub.kindsSeen m.commit :=
      List.Sublist.subset hlater (List.mem_cons_of_mem _ List.mem_cons_self)
    refine ⟨(Hub.mem_kindsSeen.1 hseen).2, ?_⟩
    rw [hbefore, hwithin.caches j, if_pos hlater, List.append_nil]
  · intro hnot
    rw [hupTo, hwithin.caches j, if_neg hnot]

namespace Together

/-- A hub for operators and flavors. -/
def caches : CacheSet :=
  ((PerKind.ofFn fun _ => none : CacheSet).set .operator (some (.empty _))).set .flavor
    (some (.empty _))

/-- An operator. -/
def operator : Operator := ⟨[], ⟨"o"⟩⟩

/-- A flavor. -/
def flavor : Flavor := ⟨[], ⟨"a"⟩, 1, 1, 0⟩

/-- An operator and a flavor come in one commit. -/
def moves : List HubMove :=
  [.op (.txn ⟨[], none,
      [.put (@Entity.storeKey Operator _ operator.key) (Entity.encode operator),
        .put (@Entity.storeKey Flavor _ flavor.key) (Entity.encode flavor)]⟩),
    .deliver]

/-- Who the sync of the hub is. -/
def who : Subscriber := .feed 0

theorem others (op : Op) (h : HubMove.op op ∈ moves) : op.subscriber? ≠ some who := by
  simp only [moves, List.mem_cons, HubMove.op.injEq, reduceCtorEq, List.not_mem_nil, or_false] at h
  subst h
  exact Option.some_ne_none who |>.symm

/-- The operator is told of while the hub holds no flavor. -/
theorem lags : ∃ m ∈ ((Serving.start caches who .empty).run moves).moments,
    m.announced.isEmpty = false ∧ (∃ e ∈ m.commit, e.revision = 1) ∧ Kind.flavor ≠ m.kind ∧
      (m.hub.caches.get .flavor).map (·.entries.size) = some 0 := by
  decide +kernel

/-- By the commit there is a flavor. -/
theorem one : ((Serving.listed caches .empty).get .flavor).map
    (fun c => (c.changedBy (Op.changesUpTo 1 (HubMove.ops moves) .empty)).size) = some 1 := by
  decide +kernel

end Together

/-- A hub that receives an operator and a flavor in one commit. -/
theorem hub_currency_of_a_commit :
    (∀ op, HubMove.op op ∈ Together.moves → op.subscriber? ≠ some Together.who) ∧
    ((Serving.start Together.caches Together.who .empty).run Together.moves).announced =
        ((Serving.start Together.caches Together.who .empty).run Together.moves).moments.flatMap
          (·.announced) ∧
      ∀ m ∈ ((Serving.start Together.caches Together.who .empty).run Together.moves).moments,
        (∀ a ∈ m.announced, a.1 = m.kind) ∧
        ∃ rev, m.commit ≠ [] ∧ (∀ e ∈ m.commit, e.revision = rev) ∧ ∀ j,
          (m.hub.FedAfter m.commit m.kind j →
            eventsUnder (Entity.typePrefix j.Obj) m.commit ≠ [] ∧
            (m.hub.caches.get j).map (·.entries) =
              ((Serving.listed Together.caches .empty).get j).map
                (·.changedBy (Op.changesBefore rev (HubMove.ops Together.moves) .empty))) ∧
          (¬ m.hub.FedAfter m.commit m.kind j →
            (m.hub.caches.get j).map (·.entries) =
              ((Serving.listed Together.caches .empty).get j).map
                (·.changedBy (Op.changesUpTo rev (HubMove.ops Together.moves) .empty))) :=
  ⟨Together.others, hub_currency Together.caches Together.who .empty Together.moves Together.others⟩

/-- Who is told of a change can find that another cache of the hub lacks a change of the same
commit. -/
theorem hub_caches_lag_in_a_commit :
    ¬ ∀ (caches : CacheSet) (who : Subscriber) (s : Store) (moves : List HubMove),
      (∀ op, HubMove.op op ∈ moves → op.subscriber? ≠ some who) →
      ∀ m ∈ ((Serving.start caches who s).run moves).moments, m.announced.isEmpty = false →
        ∀ rev, (∃ e ∈ m.commit, e.revision = rev) → ∀ j, j ≠ m.kind →
          (m.hub.caches.get j).map (·.entries) = ((Serving.listed caches s).get j).map
            (·.changedBy (Op.changesUpTo rev (HubMove.ops moves) s)) := by
  intro h
  obtain ⟨m, hm, hannounced, hrev, hkind, hnone⟩ := Together.lags
  have hsame := h Together.caches Together.who .empty Together.moves Together.others m hm hannounced
    1 hrev .flavor hkind
  have hsize := congrArg (Option.map (·.size)) hsame
  rw [Option.map_map, Option.map_map] at hsize
  cases hnone.symm.trans (hsize.trans Together.one)

end Inventory
