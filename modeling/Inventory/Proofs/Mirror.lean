import Inventory.Cache.Feed
import Inventory.Proofs.Cache
import Inventory.Proofs.Sync

/-!
# Caches mirror the store

A cache is fed by a sync of the records of its type, while others go on using the store. What it
holds when it is looked at is what the store held at the revision of the cache.

* `Mirroring`: a store, a feed, and what was passed through on the way.
* `Cache.Follows.through`: a cache that receives the commits of some operations follows the store
  through each of them.
* `cache_mirrors_store`: **a cache mirrors the store** after the list, after each commit and in
  each announcement of a commit.
-/

namespace Inventory

/-! ## Looking at a cache -/

/-- A moment at which somebody may look at a cache, and what is announced then. -/
structure Moment (α : Type) [Entity α] where
  cache : Cache α
  announced : List (Announcement α)

/-- What happens next: an operation on the store, or a delivery of the commits that have come in. -/
inductive FeedStep where
  | op (o : Op)
  | deliver

/-- A store and a cache that is fed from it, with the stores that were passed through since the
start, the moments at which the cache could be looked at, and what was announced of commits. -/
structure Mirroring (α : Type) [Entity α] where
  store : Store
  feed : Feed α
  passed : List Store
  moments : List (Moment α)
  announced : List (Announcement α)

section Definitions

variable {α : Type} [Entity α]

/-- The moments of a delivery: one after each commit, when it is announced. -/
def Feed.moments (f : Feed α) (s : Store) : List (Moment α) :=
  (f.sync.deliver (fun _ => false)
    (fun events (x : Cache α × List (Moment α)) =>
      let changed := x.1.receiveDelivery (.commit events)
      (changed.1, x.2 ++ [⟨changed.1, Cache.announce changed⟩]))
    s (f.cache, [])).2.2.2

namespace Mirroring

/-- The start of a sync; the first moment is the end of the list. -/
def start (c : Cache α) (who : Subscriber) (s : Store) : Mirroring α :=
  let started := Feed.start c who s
  ⟨started.2.2, started.1, [started.2.2], [⟨started.1.cache, []⟩], []⟩

/-- The next step. -/
def step (st : Mirroring α) : FeedStep → Mirroring α
  | .op o =>
    { st with store := (o.run st.store).2, passed := st.passed ++ [(o.run st.store).2] }
  | .deliver =>
    let delivered := st.feed.deliver st.store
    { store := delivered.2.2
      feed := delivered.1
      passed := st.passed ++ [delivered.2.2]
      moments := st.moments ++ st.feed.moments st.store
      announced := st.announced ++ delivered.2.1 }

/-- Steps one after another. -/
def run (st : Mirroring α) (steps : List FeedStep) : Mirroring α := steps.foldl step st

end Mirroring

/-- A cache holds the records of a store: it has an entry for each of them and no other, and the
entry has the entity as it is read and the revision of the record, or that of the list if this was
later. -/
structure Cache.Mirrors (c : Cache α) (m : Contents) (since : Revision) : Prop where
  sound : ∀ (k : Entity.Key α) (e : CacheEntry α), c.entries[k]? = some e →
    ∃ stored, m[Entity.storeKey k]? = some stored ∧
      Entity.decode (Entity.storeKey k) stored.value = .ok e.obj ∧
      e.revision = max since stored.modRevision
  complete : ∀ (key : String) (stored : Stored),
    Text.hasPrefix (Entity.typePrefix α) key = true → m[key]? = some stored →
    ∃ k : Entity.Key α, key = Entity.storeKey k ∧ c.has k = true

/-- A cache mirrors the store as of its own revision, the stores in between being these. -/
def Cache.MirrorsAsOf (c : Cache α) (passed : List Store) (since : Revision) : Prop :=
  (∃ s ∈ passed, s.revision = c.revision) ∧
    ∀ s ∈ passed, s.revision = c.revision → c.Mirrors s.contents since

end Definitions

/-! ## Deliveries -/

section Deliveries

variable {α : Type} [Entity α]

/-- Caches that differ at most in who is waiting for what. -/
def Cache.SameRecords (c c' : Cache α) : Prop := c.entries = c'.entries ∧ c.revision = c'.revision

/-- The moments of some commits. -/
def Cache.momentsOf : List (List WatchEvent) → Cache α → List (Moment α)
  | [], _ => []
  | g :: gs, c =>
    ⟨(c.receiveDelivery (.commit g)).1, Cache.announce (c.receiveDelivery (.commit g))⟩ ::
      momentsOf gs (c.receiveDelivery (.commit g)).1

theorem Cache.foldl_moments (gs : List (List WatchEvent)) (c : Cache α) (l : List (Moment α)) :
    gs.foldl (fun x g => ((x.1.receiveDelivery (.commit g)).1,
        x.2 ++ [⟨(x.1.receiveDelivery (.commit g)).1,
          Cache.announce (x.1.receiveDelivery (.commit g))⟩])) (c, l) =
      (c.afterDeliveries (gs.map .commit), l ++ momentsOf gs c) := by
  induction gs generalizing c l with
  | nil => rw [momentsOf, List.append_nil]; rfl
  | cons g gs ih =>
    rw [List.foldl_cons, ih, momentsOf, List.append_assoc]
    rfl

theorem Cache.foldl_receive (gs : List (List WatchEvent)) (c : Cache α)
    (l : List (Announcement α)) :
    gs.foldl (fun x g => Feed.receive (.commit g) x) (c, l) =
      (c.afterDeliveries (gs.map .commit), l ++ (momentsOf gs c).flatMap (·.announced)) := by
  induction gs generalizing c l with
  | nil => rw [momentsOf, List.flatMap_nil, List.append_nil]; rfl
  | cons g gs ih =>
    rw [List.foldl_cons]
    unfold Feed.receive at ih ⊢
    rw [ih, momentsOf, List.flatMap_cons, List.append_assoc]
    rfl

/-- What is announced of a commit is announced when the commit is complete. -/
theorem Cache.announced_after {gs : List (List WatchEvent)} {c : Cache α} {moment : Moment α}
    (h : moment ∈ momentsOf gs c) {a : Announcement α} (ha : a ∈ moment.announced) :
    a.revision = moment.cache.revision ∧ a.count = moment.cache.count := by
  induction gs generalizing c with
  | nil => cases h
  | cons g gs ih =>
    rcases List.mem_cons.1 h with rfl | h
    · obtain ⟨notice, -, rfl⟩ := List.mem_map.1 ha
      exact ⟨rfl, rfl⟩
    · exact ih h

theorem Cache.foldl_start (ds : List Delivery) (c : Cache α) (l : List (Announcement α)) :
    (ds.foldl (fun x d => Feed.receive d x) (c, l)).1 = c.afterDeliveries ds := by
  induction ds generalizing c l with
  | nil => rfl
  | cons d ds ih => exact ih _ _

/-- An open store gives a list to a feed that starts. -/
theorem Feed.start_of_open {s : Store} (h : s.closed = false) (c : Cache α) (who : Subscriber) :
    (start c who s).1 = ⟨⟨who, .streaming, none⟩,
        c.afterDeliveries
          (Delivery.listing (s.contents.scan (Entity.typePrefix α)) s.revision)⟩ ∧
      (start c who s).2.2 = (s.watch who (Entity.typePrefix α)).2 := by
  unfold start
  rw [Sync.start_of_open h, ← Cache.foldl_start _ c []]
  exact ⟨rfl, rfl⟩

/-- What a feed comes to by delivering what waits. -/
theorem Feed.deliver_of_watching {f : Feed α} {s : Store} {scope : String}
    {backlog : List WatchEvent} (hnone : f.sync.outcome = none)
    (h : s.Watching f.sync.subscriber scope backlog) :
    (f.deliver s).2.2.contents = s.contents ∧ (f.deliver s).2.2.revision = s.revision ∧
      (f.deliver s).1.sync.subscriber = f.sync.subscriber ∧
      ((f.deliver s).1.sync.outcome = none →
        (f.deliver s).2.2.Watching f.sync.subscriber scope []) ∧
      (f.deliver s).1.cache.SameRecords
        (f.cache.afterDeliveries ((commitsOf backlog).map .commit)) ∧
      (f.deliver s).2.1 = (f.moments s).flatMap (·.announced) ∧
      f.moments s = Cache.momentsOf (commitsOf backlog) f.cache := by
  obtain ⟨sync', s', hdeliver, ⟨hcontents, hrevision, -⟩, hwho, hwatch⟩ :=
    Sync.deliver_of_watching hnone h
  have hmoments : f.moments s = Cache.momentsOf (commitsOf backlog) f.cache := by
    unfold moments
    rw [hdeliver _ _ _ _ fun _ => rfl, Cache.foldl_moments, List.nil_append]
  have hfeed : f.deliver s =
      (settled ⟨sync', f.cache.afterDeliveries ((commitsOf backlog).map .commit)⟩,
      (Cache.momentsOf (commitsOf backlog) f.cache).flatMap (·.announced), s') := by
    unfold deliver
    rw [hnone, hdeliver _ _ _ _ fun _ => rfl, Cache.foldl_receive, List.nil_append]
    rfl
  rw [hmoments, hfeed]
  unfold settled
  split
  · exact ⟨hcontents, hrevision, hwho, hwatch, ⟨rfl, rfl⟩, rfl, rfl⟩
  · exact ⟨hcontents, hrevision, hwho, hwatch, ⟨rfl, rfl⟩, rfl, rfl⟩

end Deliveries

/-! ## Following a store through operations -/

/-- The stores that operations pass through, the first one left out. -/
def Op.stores : List Op → Store → List Store
  | [], _ => []
  | op :: ops, s => (op.run s).2 :: stores ops (op.run s).2

theorem Op.stores_append (early late : List Op) (s : Store) :
    stores (early ++ late) s = stores early s ++ stores late (runAll early s) := by
  induction early generalizing s with
  | nil => rfl
  | cons op ops ih => rw [List.cons_append, stores, stores, ih, List.cons_append, runAll_cons]

/-- A cache follows one of some stores that has its revision. -/
def Cache.FollowsAsOf {α : Type} [Entity α] (c : Cache α) (passed : List Store)
    (since : Revision) : Prop :=
  ∃ s ∈ passed, s.revision = c.revision ∧ c.Follows s.contents since

theorem Cache.FollowsAsOf.mono {α : Type} [Entity α] {c : Cache α} {passed passed' : List Store}
    {since : Revision} (h : c.FollowsAsOf passed since) (hsub : ∀ s ∈ passed, s ∈ passed') :
    c.FollowsAsOf passed' since := by
  obtain ⟨s, hs, hrev, hfollows⟩ := h
  exact ⟨s, hsub s hs, hrev, hfollows⟩

theorem Cache.Follows.congr {α : Type} [Entity α] {c c' : Cache α} {m : Contents} {since : Revision}
    (h : c'.Follows m since) (heq : c.SameRecords c') : c.Follows m since := fun k => by
  rw [heq.1]
  exact h k

theorem Cache.FollowsAsOf.congr {α : Type} [Entity α] {c c' : Cache α} {passed : List Store}
    {since : Revision} (h : c'.FollowsAsOf passed since) (heq : c.SameRecords c') :
    c.FollowsAsOf passed since := by
  obtain ⟨s, hs, hrev, hfollows⟩ := h
  exact ⟨s, hs, hrev.trans heq.2.symm, hfollows.congr heq⟩

/-- What a cache comes to that receives the commits of operations on a store that it follows. -/
structure Cache.Through {α : Type} [Entity α] (c : Cache α) (ops : List Op) (s : Store)
    (since : Revision) (gs : List (List WatchEvent)) : Prop where
  follows : (c.afterDeliveries (gs.map .commit)).Follows (Op.runAll ops s).contents since
  revision_le : (c.afterDeliveries (gs.map .commit)).revision ≤ (Op.runAll ops s).revision
  moments : ∀ moment ∈ momentsOf gs c, moment.cache.FollowsAsOf (Op.stores ops s) since
  last : c.afterDeliveries (gs.map .commit) = c ∨
    (c.afterDeliveries (gs.map .commit)).FollowsAsOf (Op.stores ops s) since

section Through

variable {α : Type} [Entity α] [LawfulEntity α] {since : Revision}

/-- **A cache that receives the commits of some operations follows the store through each of
them.** -/
theorem Cache.Follows.through {ops : List Op} {s : Store} {c : Cache α}
    (h : c.Follows s.contents since) (hops : ∀ op ∈ ops, op.Files α)
    (hrev : c.revision ≤ s.revision) (hsince : since ≤ s.revision) :
    c.Through ops s since ((Op.commitsUnder (Entity.typePrefix α) ops s).map markMore) := by
  induction ops generalizing c s with
  | nil => exact ⟨h, hrev, fun moment hm => (nomatch hm), .inl rfl⟩
  | cons op ops ih =>
    have hlater := Store.later_run op s
    have hnext : since ≤ s.revision.next := Nat.le_trans hsince (Nat.le_succ _)
    have hwrites : ∀ w ∈ op.writes s, w.Files α := fun w hw =>
      hops op List.mem_cons_self w (Op.asks_of_writes hw)
    have hrest : ∀ o ∈ ops, o.Files α := fun o ho => hops o (List.mem_cons_of_mem op ho)
    have hsince' : since ≤ (op.run s).2.revision := Nat.le_trans hsince hlater.revision_le
    by_cases hnone : eventsUnder (Entity.typePrefix α) (op.events s) = []
    · -- no record was written, so nothing is delivered
      have hsame : c.Follows (op.run s).2.contents since := by
        have hwritten := h.writeAll hwrites hnext
        have htold : told α (s.contents.writeAll s.revision.next (op.writes s)).2 = [] :=
          List.map_eq_nil_iff.2 hnone
        rw [htold] at hwritten
        rw [Op.run_contents]
        exact hwritten
      obtain ⟨hfollows, hle, hmoments, hlast⟩ :=
        ih hsame hrest (Nat.le_trans hrev hlater.revision_le) hsince'
      rw [Op.commitsUnder_cons_of_nil hnone]
      exact ⟨hfollows, hle,
        fun moment hm => (hmoments moment hm).mono fun s' hs' => List.mem_cons_of_mem _ hs',
        hlast.imp_right fun hl => hl.mono fun s' hs' => List.mem_cons_of_mem _ hs'⟩
    · have hcommitted := h.commit hwrites hnext hnone
      have hevents : ¬ op.events s = [] := fun he => hnone (by rw [he]; rfl)
      have hrun : (op.run s).2.revision = s.revision.next := by
        rw [Op.run_revision, if_neg hevents]
      have hle : c.revision ≤ s.revision.next := Nat.le_trans hrev (Nat.le_succ _)
      rw [← Op.run_contents, Nat.max_eq_right hle] at hcommitted
      have hcommit : (c.receiveDelivery (.commit (markMore (eventsUnder (Entity.typePrefix α)
          (op.events s))))).1.Follows (op.run s).2.contents since := hcommitted.1
      have hrevision : (c.receiveDelivery (.commit (markMore (eventsUnder (Entity.typePrefix α)
          (op.events s))))).1.revision = (op.run s).2.revision := hcommitted.2.trans hrun.symm
      obtain ⟨hfollows, hrest, hmoments, hlast⟩ :=
        ih hcommit hrest (Nat.le_of_eq hrevision) hsince'
      have hfirst : ((c.receiveDelivery (.commit (markMore
          (eventsUnder (Entity.typePrefix α) (op.events s))))).1).FollowsAsOf
          (Op.stores (op :: ops) s) since :=
        ⟨(op.run s).2, List.mem_cons_self, hrevision.symm, hcommit⟩
      rw [Op.commitsUnder_cons_of_ne_nil hnone]
      refine ⟨hfollows, hrest, fun moment hm => ?_, .inr ?_⟩
      · rcases List.mem_cons.1 hm with rfl | hm
        · exact hfirst
        · exact (hmoments moment hm).mono fun s' hs' => List.mem_cons_of_mem _ hs'
      · rcases hlast with heq | hl
        · show (Cache.afterDeliveries _ (c.receiveDelivery _).1).FollowsAsOf _ _
          rw [heq]
          exact hfirst
        · exact hl.mono fun s' hs' => List.mem_cons_of_mem _ hs'

/-- A cache that follows a store of entities mirrors it. -/
theorem Cache.Follows.mirrors {c : Cache α} {m : Contents} (h : c.Follows m since)
    (hm : m.Recorded α) : c.Mirrors m since := by
  constructor
  · intro k e he
    rw [h k] at he
    unfold entryOf at he
    obtain ⟨stored, hstored, he⟩ := Option.bind_eq_some_iff.1 he
    obtain ⟨a, -, -, ha⟩ := (hm _ stored hstored).decode
    rw [ha] at he
    obtain rfl := Option.some.inj he
    exact ⟨stored, hstored, ha, rfl⟩
  · intro key stored hkey hstored
    obtain ⟨a, hfits, rfl, hvalue⟩ := hm key stored hstored hkey
    refine ⟨Entity.key a, rfl, ?_⟩
    unfold has
    rw [Std.ExtTreeMap.contains_eq_isSome_getElem?, h (Entity.key a), hstored,
      entryOf_written hfits hvalue]
    rfl

end Through

/-! ## The invariant -/

/-- Stores of entities that were passed through on the way to a store. The revision tells the
contents. -/
structure Store.Way (α : Type) [Entity α] (passed : List Store) (s : Store) : Prop where
  now : s ∈ passed
  recorded : ∀ s' ∈ passed, s'.contents.Recorded α
  same : ∀ s' ∈ passed, ∀ s'' ∈ passed, s'.revision = s''.revision → s'.contents = s''.contents
  revision_le : ∀ s' ∈ passed, s'.revision ≤ s.revision

theorem Store.Way.next {α : Type} [Entity α] {passed : List Store} {s s' : Store}
    (h : Store.Way α passed s) (hrecorded : s'.contents.Recorded α)
    (hle : s.revision ≤ s'.revision) (hsame : s'.revision = s.revision → s'.contents = s.contents) :
    Store.Way α (passed ++ [s']) s' := by
  have hnew : ∀ x ∈ passed, x.revision = s'.revision → x.contents = s'.contents := by
    intro x hx heq
    -- no revision was taken since
    have hmid : x.revision = s.revision :=
      Nat.le_antisymm (h.revision_le x hx) (heq ▸ hle)
    rw [hsame (heq.symm.trans hmid), h.same x hx s h.now hmid]
  refine ⟨List.mem_append_right _ (List.mem_singleton_self s'), fun x hx => ?_,
    fun x hx y hy heq => ?_, fun x hx => ?_⟩
  · rcases List.mem_append.1 hx with hx | hx
    · exact h.recorded x hx
    · rw [List.mem_singleton.1 hx]
      exact hrecorded
  · rcases List.mem_append.1 hx with hx | hx <;> rcases List.mem_append.1 hy with hy | hy
    · exact h.same x hx y hy heq
    · rw [List.mem_singleton.1 hy] at heq ⊢
      exact hnew x hx heq
    · rw [List.mem_singleton.1 hx] at heq ⊢
      exact (hnew y hy heq.symm).symm
    · rw [List.mem_singleton.1 hx, List.mem_singleton.1 hy]
  · rcases List.mem_append.1 hx with hx | hx
    · exact Nat.le_trans (h.revision_le x hx) hle
    · exact Nat.le_of_eq (congrArg Store.revision (List.mem_singleton.1 hx))

/-- A cache that follows one of the stores mirrors all that have its revision. -/
theorem Cache.FollowsAsOf.mirrors {α : Type} [Entity α] [LawfulEntity α] {c : Cache α}
    {passed : List Store} {s : Store} {since : Revision} (h : c.FollowsAsOf passed since)
    (hway : Store.Way α passed s) : c.MirrorsAsOf passed since := by
  obtain ⟨s', hs', hrev, hfollows⟩ := h
  refine ⟨⟨s', hs', hrev⟩, fun x hx heq => ?_⟩
  rw [hway.same x hx s' hs' (heq.trans hrev.symm)]
  exact hfollows.mirrors (hway.recorded s' hs')

namespace Mirroring

variable {α : Type} [Entity α]

/-- A store was passed through with a subscription for which nothing waited. What waits now is what
operations did after it. -/
structure Pending (st : Mirroring α) (who : Subscriber) (since : Revision) (s : Store)
    (ops : List Op) : Prop where
  watching : s.Watching who (Entity.typePrefix α) []
  store : st.store = Op.runAll ops s
  files : ∀ op ∈ ops, op.FilesAside α who
  follows : st.feed.cache.Follows s.contents since
  revision_le : st.feed.cache.revision ≤ s.revision
  since_le : since ≤ s.revision
  passed : ∀ s' ∈ Op.stores ops s, s' ∈ st.passed

/-- What is known of a cache that is fed from a store. -/
structure Sound (st : Mirroring α) (who : Subscriber) (since : Revision) : Prop where
  name : st.feed.sync.subscriber = who
  way : Store.Way α st.passed st.store
  cache : st.feed.cache.FollowsAsOf st.passed since
  moments : ∀ moment ∈ st.moments, moment.cache.FollowsAsOf st.passed since ∧
    ∀ a ∈ moment.announced, a.revision = moment.cache.revision ∧ a.count = moment.cache.count
  announced : st.announced = st.moments.flatMap (·.announced)
  pending : st.feed.sync.outcome = none → ∃ s ops, st.Pending who since s ops

section Runs

variable [LawfulEntity α] {st : Mirroring α} {who : Subscriber} {since : Revision}

/-- After the list the cache follows the store. -/
theorem Sound.start {s : Store} (hrecorded : s.contents.Recorded α) (hstamped : s.Stamped)
    (hopen : s.closed = false) {c : Cache α} (hc : c.revision ≤ s.revision) (who : Subscriber) :
    (start c who s).Sound who s.revision := by
  obtain ⟨hfeed, hstore⟩ := Feed.start_of_open hopen c who
  obtain ⟨-, hwatching⟩ := Store.watch_watching hopen who (Entity.typePrefix α)
  obtain ⟨-, hcontents, hrevision⟩ :=
    @Op.run_keeps_keys (.watch who (Entity.typePrefix α)) (.inl (Option.some_ne_none who)) s
  have hcontents : (s.watch who (Entity.typePrefix α)).2.contents = s.contents := hcontents
  have hrevision : (s.watch who (Entity.typePrefix α)).2.revision = s.revision := hrevision
  obtain ⟨hfollows, hreached⟩ :=
    c.receive_listing hrecorded fun key stored h => (hstamped key stored h).2
  rw [Nat.max_eq_right hc] at hreached
  unfold Mirroring.start
  simp only [hfeed, hstore]
  have hasof : (c.afterDeliveries (Delivery.listing (s.contents.scan (Entity.typePrefix α))
      s.revision)).FollowsAsOf [(s.watch who (Entity.typePrefix α)).2] s.revision := by
    refine ⟨_, List.mem_singleton_self _, hrevision.trans hreached.symm, ?_⟩
    rw [hcontents]
    exact hfollows
  constructor
  case name => rfl
  case way =>
    refine ⟨List.mem_singleton_self _, fun x hx => ?_, fun x hx y hy _ => ?_, fun x hx => ?_⟩
    · rw [List.mem_singleton.1 hx, hcontents]
      exact hrecorded
    · rw [List.mem_singleton.1 hx, List.mem_singleton.1 hy]
    · exact Nat.le_of_eq (congrArg Store.revision (List.mem_singleton.1 hx))
  case cache => exact hasof
  case moments =>
    intro moment hm
    rw [List.mem_singleton.1 hm]
    exact ⟨hasof, fun a ha => (nomatch ha)⟩
  case announced => rfl
  case pending =>
    intro _
    refine ⟨_, [], hwatching, rfl, fun op hop => (nomatch hop), ?_, ?_, ?_,
      fun x hx => (nomatch hx)⟩
    · rw [hcontents]
      exact hfollows
    · rw [hrevision]
      exact Nat.le_of_eq hreached
    · exact Nat.le_of_eq hrevision.symm

omit [LawfulEntity α] in
/-- A store that was passed through in between changes nothing of what was known before. -/
theorem Sound.pass (h : st.Sound who since) {s' : Store} (hrecorded : s'.contents.Recorded α)
    (hle : st.store.revision ≤ s'.revision)
    (hsame : s'.revision = st.store.revision → s'.contents = st.store.contents)
    (hpending : ∀ s ops, st.Pending who since s ops →
      ∃ s₀ ops₀, Pending { st with store := s', passed := st.passed ++ [s'] } who since s₀ ops₀) :
    Sound { st with store := s', passed := st.passed ++ [s'] } who since := by
  have hold : ∀ s ∈ st.passed, s ∈ st.passed ++ [s'] := fun s hs => List.mem_append_left _ hs
  refine ⟨h.name, h.way.next hrecorded hle hsame, h.cache.mono hold, fun moment hm => ?_,
    h.announced, fun hgoes => ?_⟩
  · exact ⟨(h.moments moment hm).1.mono hold, (h.moments moment hm).2⟩
  · obtain ⟨s, ops, hp⟩ := h.pending hgoes
    exact hpending s ops hp

omit [LawfulEntity α] in
/-- Others use the store. -/
theorem Sound.op (h : st.Sound who since) {op : Op} (hop : op.FilesAside α who) :
    (st.step (.op op)).Sound who since := by
  have hlater := Store.later_run op st.store
  have hrecorded : (Op.runAll [op] st.store).contents.Recorded α :=
    (h.way.recorded _ h.way.now).runAll fun o ho => by
      rw [List.mem_singleton.1 ho]
      exact hop.1
  refine h.pass hrecorded hlater.revision_le hlater.same fun s ops hp => ?_
  -- what waits is what the operations so far did, and this one
  refine ⟨s, ops ++ [op], hp.watching, ?_, fun o ho => ?_, hp.follows, hp.revision_le, hp.since_le,
    fun x hx => ?_⟩
  · rw [Op.runAll_append, ← hp.store]
    rfl
  · rcases List.mem_append.1 ho with ho | ho
    · exact hp.files o ho
    · rw [List.mem_singleton.1 ho]
      exact hop
  · rw [Op.stores_append, ← hp.store] at hx
    exact List.mem_append.2 ((List.mem_append.1 hx).imp_left (hp.passed x))

omit [LawfulEntity α] in
/-- A sync that has ended delivers nothing. -/
theorem step_deliver_of_ended {outcome : StoreResult Unit}
    (h : st.feed.sync.outcome = some outcome) :
    st.step .deliver = { st with passed := st.passed ++ [st.store] } := by
  have hdeliver : st.feed.deliver st.store = (st.feed, [], st.store) := by
    unfold Feed.deliver
    rw [h]
    rfl
  have hmoments : st.feed.moments st.store = [] := by
    unfold Feed.moments Sync.deliver
    rw [h]
  simp only [step, hdeliver, hmoments, List.append_nil]

/-- The commits that wait are delivered; unless the sync has ended before, the cache follows the
store then. -/
theorem Sound.deliver (h : st.Sound who since) :
    (st.step .deliver).Sound who since ∧
      (st.feed.sync.outcome = none →
        (st.step .deliver).feed.cache.Follows st.store.contents since) := by
  cases hnone : st.feed.sync.outcome with
  | some outcome =>
    rw [step_deliver_of_ended hnone]
    refine ⟨?_, fun hgoes => (nomatch hgoes)⟩
    refine h.pass (h.way.recorded _ h.way.now) (Nat.le_refl _) (fun _ => rfl) fun s ops hp => ?_
    exact ⟨s, ops, hp.watching, hp.store, hp.files, hp.follows, hp.revision_le, hp.since_le,
      fun x hx => List.mem_append_left _ (hp.passed x hx)⟩
  | none =>
    obtain ⟨s, ops, hp⟩ := h.pending hnone
    -- what waits is cut into the commits that were done meanwhile
    obtain ⟨backlog, hwatching, hbacklog⟩ := hp.watching.runAll fun op hop hwho =>
      absurd hwho (hp.files op hop).2
    rw [Op.received_of_others fun op hop => (hp.files op hop).2, List.nil_append, List.nil_append]
      at hbacklog
    rw [← hp.store, ← h.name] at hwatching
    obtain ⟨hcontents, hrevision, hname, hwatch, hcache, hlog, hmoments⟩ :=
      Feed.deliver_of_watching hnone hwatching
    rw [hbacklog, Op.commitsOf_log] at hcache hmoments
    have hold : ∀ s ∈ st.passed, s ∈ (st.step .deliver).passed := fun s hs =>
      List.mem_append_left _ hs
    have hthrough :=
      hp.follows.through (fun op hop => (hp.files op hop).1) hp.revision_le hp.since_le
    have hfollows := hthrough.follows.congr hcache
    have hle := hthrough.revision_le
    rw [← hcache.2, ← hp.store, ← hrevision] at hle
    rw [← hp.store] at hfollows
    have hnew : ∀ x ∈ Op.stores ops s, x ∈ (st.step .deliver).passed := fun x hx =>
      hold x (hp.passed x hx)
    refine ⟨?_, fun _ => hfollows⟩
    constructor
    case name => exact hname.trans h.name
    case way =>
      refine h.way.next ?_ (Nat.le_of_eq hrevision.symm) fun _ => hcontents
      rw [hcontents]
      exact h.way.recorded _ h.way.now
    case cache =>
      refine Cache.FollowsAsOf.congr ?_ hcache
      rcases hthrough.last with heq | hlast
      · -- nothing waited, so the cache is where it was
        rw [heq]
        exact h.cache.mono hold
      · exact hlast.mono hnew
    case moments =>
      intro moment hm
      rcases List.mem_append.1 hm with hm | hm
      · exact ⟨(h.moments moment hm).1.mono hold, (h.moments moment hm).2⟩
      · rw [hmoments] at hm
        exact ⟨(hthrough.moments moment hm).mono hnew, fun a ha => Cache.announced_after hm ha⟩
    case announced =>
      show st.announced ++ _ = (st.moments ++ _).flatMap _
      rw [h.announced, hlog, List.flatMap_append]
    case pending =>
      intro hgoes
      -- nothing waits any longer
      have hwaits := hwatch hgoes
      have hsince : since ≤ (st.feed.deliver st.store).2.2.revision := by
        rw [hrevision, hp.store]
        exact Nat.le_trans hp.since_le (Store.later_runAll ops s).revision_le
      rw [h.name] at hwaits
      rw [← hcontents] at hfollows
      exact ⟨_, [], hwaits, rfl, fun op hop => (nomatch hop), hfollows, hle, hsince,
        fun x hx => (nomatch hx)⟩

theorem Sound.run (h : st.Sound who since) {steps : List FeedStep}
    (hsteps : ∀ op, FeedStep.op op ∈ steps → op.FilesAside α who) :
    (st.run steps).Sound who since := by
  induction steps generalizing st with
  | nil => exact h
  | cons x steps ih =>
    have hfirst : (st.step x).Sound who since := by
      cases x with
      | op o => exact h.op (hsteps o List.mem_cons_self)
      | deliver => exact h.deliver.1
    exact ih hfirst fun o ho => hsteps o (List.mem_cons_of_mem x ho)

end Runs

/-- What is promised of a cache that is fed from a store. -/
structure Faithful (st : Mirroring α) (who : Subscriber) (since : Revision) : Prop where
  /-- It mirrors the store as of its revision. -/
  cache : st.feed.cache.MirrorsAsOf st.passed since
  /-- It did so after the list and after each commit, and what is announced of a commit is announced
  then. -/
  moments : ∀ moment ∈ st.moments, moment.cache.MirrorsAsOf st.passed since ∧
    ∀ a ∈ moment.announced, a.revision = moment.cache.revision ∧ a.count = moment.cache.count
  announced : st.announced = st.moments.flatMap (·.announced)
  /-- A delivery leaves nothing out. -/
  delivered : st.feed.sync.outcome = none →
    (st.step .deliver).feed.cache.Mirrors st.store.contents since
  /-- Typed requests and transactions go on being operations that file. -/
  deeds : ∀ d : Deed α, d.Files who → st.store.ByFiling α who (d.run st.store)

theorem Sound.faithful [LawfulEntity α] {st : Mirroring α} {who : Subscriber} {since : Revision}
    (h : st.Sound who since) : st.Faithful who since where
  cache := h.cache.mirrors h.way
  moments moment hm := ⟨(h.moments moment hm).1.mirrors h.way, (h.moments moment hm).2⟩
  announced := h.announced
  delivered hnone := (h.deliver.2 hnone).mirrors (h.way.recorded _ h.way.now)
  deeds _ hd := Deed.byFiling (h.way.recorded _ h.way.now) hd

end Mirroring

/-- **A cache mirrors the store.** The records of a type are only written as entities, by typed
requests and transactions; whatever these do is done by operations that file, with anything else
done in between. A cache that holds anything at all and is not ahead of the store is fed from it
from some moment on. Then after the list, after each commit that is delivered and when it is
announced, the cache holds exactly the records that the store held at the revision of the cache. -/
theorem cache_mirrors_store (k : Kind) (who : Subscriber) (before : List Op)
    (hbefore : ∀ op ∈ before, op.Files k.Obj) :
    (∀ d : Deed k.Obj, d.Files who →
      (Op.runAll before .empty).ByFiling k.Obj who (d.run (Op.runAll before .empty))) ∧
    ∀ (c : Cache k.Obj) (steps : List FeedStep), (Op.runAll before .empty).closed = false →
      c.revision ≤ (Op.runAll before .empty).revision →
      (∀ op, FeedStep.op op ∈ steps → op.FilesAside k.Obj who) →
      ((Mirroring.start c who (Op.runAll before .empty)).run steps).Faithful who
        (Op.runAll before .empty).revision := by
  have hrecorded : (Op.runAll before .empty).contents.Recorded k.Obj :=
    Contents.Recorded.runAll Contents.Recorded.empty hbefore
  refine ⟨fun d hd => Deed.byFiling hrecorded hd, fun c steps hopen hc hsteps => ?_⟩
  have hstart := Mirroring.Sound.start hrecorded (Store.Stamped.empty.runAll before) hopen hc who
  exact (hstart.run hsteps).faithful

namespace Flavors

/-- A flavor of some size. -/
def sized (name : String) (ram : UInt64) : Flavor := ⟨[], ⟨name⟩, ram, 1, 0⟩

def put (f : Flavor) : Write := .put (@Entity.storeKey Flavor _ f.key) (Entity.encode f)

def delete (f : Flavor) : Write := .delete (@Entity.storeKey Flavor _ f.key)

/-- A commit of some writes. -/
def commit (ws : List Write) : Op := .txn ⟨[], none, ws⟩

def who : Subscriber := .feed 5

def before : List Op := [commit [put (sized "a" 1), .put "m" [1]], commit [put (sized "b" 1)]]

/-- A cache with a flavor that is not stored. -/
def cache : Cache Flavor := ((Cache.empty Flavor).update (sized "z" 9) 2).1

/-- One flavor grows and another one goes in the same commit, a third one comes, and in the end the
store is closed. -/
def steps : List FeedStep :=
  [.op (commit [put (sized "a" 2), .put "m" [2], delete (sized "b" 1)]),
    .op (commit [.put "m" [3]]), .op (commit [put (sized "c" 1)]), .deliver,
    .op (commit [delete (sized "a" 2)]), .op .close, .deliver]

/-- A transaction in which a flavor grows and another one goes, while others write elsewhere. -/
def deed : Deed Flavor :=
  .transaction (.new 2)
    (do
      if let some f ← @Program.readEntity Flavor _ (sized "a" 1).key then
        Program.writeEntity { f with ram := 4 }
      @Program.eraseEntity Flavor _ (sized "b" 1).key)
    [[commit [.put "m" [4]]]]

theorem put_files (f : Flavor) (h : Entity.Fits f) : (put f).Files Flavor :=
  Request.files_of_own h rfl

theorem delete_files (f : Flavor) : (delete f).Files Flavor := fun _ => ⟨f.key, rfl⟩

/-- What is written elsewhere files. -/
theorem elsewhere_files (value : Bytes) : (Write.put "m" value).Files Flavor := fun h =>
  absurd h (by decide : ¬ Text.hasPrefix (Entity.typePrefix Flavor) "m" = true)

theorem commit_files {ws : List Write} (h : ∀ w ∈ ws, w.Files Flavor) :
    (commit ws).FilesAside Flavor who := ⟨h, fun hwho => (nomatch hwho)⟩

theorem before_files : ∀ op ∈ before, op.Files Flavor := by
  simp only [before, List.forall_mem_cons]
  refine ⟨(commit_files ?_).1, (commit_files ?_).1, fun _ hop => (nomatch hop)⟩
  · simp only [List.forall_mem_cons]
    exact ⟨put_files _ (by decide +kernel), elsewhere_files _, fun _ hw => (nomatch hw)⟩
  · exact List.forall_mem_singleton.2 (put_files _ (by decide +kernel))

theorem steps_files (op : Op) (h : FeedStep.op op ∈ steps) : op.FilesAside Flavor who := by
  simp only [steps, List.mem_cons, FeedStep.op.injEq, reduceCtorEq, List.not_mem_nil, or_false,
    false_or] at h
  rcases h with rfl | rfl | rfl | rfl | rfl
  · refine commit_files ?_
    simp only [List.forall_mem_cons]
    exact ⟨put_files _ (by decide +kernel), elsewhere_files _, delete_files _,
      fun _ hw => (nomatch hw)⟩
  · exact commit_files (List.forall_mem_singleton.2 (elsewhere_files _))
  · exact commit_files (List.forall_mem_singleton.2 (put_files _ (by decide +kernel)))
  · exact commit_files (List.forall_mem_singleton.2 (delete_files _))
  · exact ⟨fun _ hw => (nomatch hw), fun hwho => (nomatch hwho)⟩

theorem deed_files : deed.Files who := by
  refine ⟨.readEntity (Program.eraseEntity_files _) fun f hf _ => ?_, ?_⟩
  · have hwrite : (Program.writeEntity { f with ram := 4 }).Files Flavor :=
      Program.writeEntity_files (show Entity.Fits f from hf)
    exact hwrite.bind fun _ => Program.eraseEntity_files _
  simp only [List.forall_mem_singleton]
  exact commit_files (List.forall_mem_singleton.2 (elsewhere_files _))

end Flavors

open Flavors in
/-- Flavors come and go while a cache of them is fed. -/
theorem cache_mirrors_store_of_flavors :
    (∀ op ∈ before, op.Files Flavor) ∧ deed.Files who ∧
    (Op.runAll before .empty).ByFiling Flavor who (deed.run (Op.runAll before .empty)) ∧
    (Op.runAll before .empty).closed = false ∧
    cache.revision ≤ (Op.runAll before .empty).revision ∧
    (∀ op, FeedStep.op op ∈ steps → op.FilesAside Flavor who) ∧
    (((Mirroring.start cache who (Op.runAll before .empty)).run steps).moments.map fun moment =>
      (moment.cache.revision, moment.cache.count, moment.announced.length)) =
        [(2, 2, 0), (3, 1, 2), (5, 2, 1), (6, 1, 1)] ∧
    ((Mirroring.start cache who (Op.runAll before .empty)).run steps).Faithful who
      (Op.runAll before .empty).revision := by
  obtain ⟨hdeeds, hfaithful⟩ := cache_mirrors_store .flavor who before before_files
  exact ⟨before_files, deed_files, hdeeds deed deed_files, by decide +kernel, by decide +kernel,
    steps_files, by decide +kernel,
    hfaithful cache steps (by decide +kernel) (by decide +kernel) steps_files⟩

end Inventory
