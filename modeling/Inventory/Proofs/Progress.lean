import Inventory.Proofs.Paths
import Inventory.Proofs.Requests

/-!
# Whoever waits for a revision is not stalled

A record or a change that cannot be read, in any place of a list or of a commit, brings nothing to a
cache but progress.

* `Cache.receiveDelivery_revision`: a delivery moves a cache to the revision that it has, whatever
  can be read of it, and never back.
* `Cache.afterShares_revision`: commits move a cache to the revision of the last change under the
  prefix of its type.
* `nobody_is_stalled`: **a cache that has been told everything is level with the store**, and
  whoever waits for the revision of a typed request that has succeeded meanwhile gets it.
-/

namespace Inventory

/-! ## The revision of a delivery -/

/-- The revision that a delivery brings; the records of a list bring none. -/
def Delivery.revision? : Delivery → Option Revision
  | listStart | record _ _ => none
  | listEnd rev => some rev
  | commit events => events.getLast?.map (·.revision)

/-- The revision of the last of some changes, zero if there are none. -/
def lastRevision (events : List WatchEvent) : Revision :=
  (events.getLast?.map (·.revision)).getD 0

section LastRevision

variable {events late : List WatchEvent}

theorem lastRevision_append (h : late ≠ []) :
    lastRevision (events ++ late) = lastRevision late := by
  unfold lastRevision
  rw [List.getLast?_append_of_ne_nil _ h]

theorem lastRevision_mem (h : events ≠ []) : ∃ e ∈ events, lastRevision events = e.revision := by
  refine ⟨events.getLast h, List.getLast_mem h, ?_⟩
  unfold lastRevision
  rw [List.getLast?_eq_some_getLast h]
  rfl

/-- A bound of all revisions is one of the last. -/
theorem lastRevision_le {rev : Revision} (h : ∀ e ∈ events, e.revision ≤ rev) :
    lastRevision events ≤ rev := by
  by_cases hnil : events = []
  · rw [hnil]
    exact Nat.zero_le rev
  · obtain ⟨e, he, heq⟩ := lastRevision_mem hnil
    rw [heq]
    exact h e he

/-- Where changes come in the order of their revisions none is beyond the last one. -/
theorem le_lastRevision (hsorted : events.Pairwise fun e f => e.revision ≤ f.revision)
    {e : WatchEvent} (he : e ∈ events) : e.revision ≤ lastRevision events := by
  rcases List.eq_nil_or_concat' events with rfl | ⟨early, last, rfl⟩
  · cases he
  · rw [lastRevision_append (List.cons_ne_nil last [])]
    rcases List.mem_append.1 he with he | he
    · exact (List.pairwise_append.1 hsorted).2.2 e he last List.mem_cons_self
    · rw [List.mem_singleton.1 he]
      exact Nat.le_refl last.revision

theorem lastRevision_markMore (events : List WatchEvent) :
    lastRevision (markMore events) = lastRevision events := by
  have hplain (es : List WatchEvent) :
      lastRevision es = ((es.map WatchEvent.plain).getLast?.map (·.revision)).getD 0 := by
    unfold lastRevision
    rw [List.getLast?_map, Option.map_map]
    rfl
  rw [hplain, hplain events, markMore_plain]

end LastRevision

namespace Cache

variable {α : Type} [Entity α]

/-- **A delivery moves a cache to its revision**, whatever can be read of it, and never back. -/
theorem receiveDelivery_revision (c : Cache α) (d : Delivery) :
    (c.receiveDelivery d).1.revision = max c.revision (d.revision?.getD 0) := by
  have hsame : max c.revision 0 = c.revision := Nat.max_eq_left (Nat.zero_le _)
  cases d with
  | listStart => exact hsame.symm
  | record r rev =>
    refine Eq.trans ?_ hsame.symm
    unfold receiveDelivery Delivery.message?
    simp only
    cases (Entity.decode r.key r.value : StoreResult α) <;> rfl
  | listEnd rev =>
    show max ((({ c with listed := none } : Cache α).retain _).1).revision rev = _
    exact congrArg (max · rev) (removeAll_revision _ _)
  | commit events =>
    have hrevisions : (events.map (WatchEvent.decode α)).filterMap partRevision? =
        events.map (·.revision) := by
      rw [List.filterMap_map, ← List.filterMap_eq_map]
      exact List.filterMap_congr fun e _ => partRevision_decode e
    show (c.applyCommit (events.map (WatchEvent.decode α))).1.revision = _
    unfold applyCommit Delivery.revision?
    simp only [hrevisions, List.getLast?_map]
    cases events.getLast? with
    | none => exact (applyParts_revision _ c).trans hsame.symm
    | some e => exact congrArg (max · e.revision) (applyParts_revision _ c)

theorem revision_le_receiveDelivery (c : Cache α) (d : Delivery) :
    c.revision ≤ (c.receiveDelivery d).1.revision := by
  rw [receiveDelivery_revision]
  exact Nat.le_max_left _ _

/-- A list moves a cache to its revision, whatever records it shows. -/
theorem listing_revision (c : Cache α) (records : List KvRecord) (rev : Revision) :
    (c.afterDeliveries (Delivery.listing records rev)).revision = max c.revision rev := by
  have hrecords (rs : List KvRecord) (c : Cache α) :
      (c.afterDeliveries (rs.map (Delivery.record · rev))).revision = c.revision := by
    induction rs generalizing c with
    | nil => rfl
    | cons r rs ih =>
      refine (ih _).trans ((receiveDelivery_revision c _).trans ?_)
      exact Nat.max_eq_left (Nat.zero_le _)
  have hend (c : Cache α) : (c.listEnd rev).1.revision = max c.revision rev :=
    c.receiveDelivery_revision (.listEnd rev)
  rw [afterDeliveries_listing, hend, hrecords]
  rfl

/-- A commit moves a cache if it has a share in it. -/
theorem hear_revision (c : Cache α) (es : List WatchEvent) :
    (c.hear es).cache.revision =
      max c.revision (lastRevision (eventsUnder (Entity.typePrefix α) es)) := by
  unfold hear
  by_cases hshare : eventsUnder (Entity.typePrefix α) es = []
  · rw [if_pos hshare, hshare]
    exact (Nat.max_eq_left (Nat.zero_le _)).symm
  · rw [if_neg hshare, ← lastRevision_markMore]
    exact receiveDelivery_revision c _

/-- **Commits move a cache to the last change under the prefix of its type.** -/
theorem afterShares_revision (c : Cache α) (ops : List Op) (s : Store) :
    (c.afterShares (Op.log ops s)).revision = max c.revision
      (lastRevision (eventsUnder (Entity.typePrefix α) (Op.log ops s).flatten)) := by
  induction ops using List.reverseRecOn with
  | nil => exact (Nat.max_eq_left (Nat.zero_le _)).symm
  | append_singleton ops op ih =>
    have hlast : c.afterShares (Op.log (ops ++ [op]) s) =
        ((c.afterShares (Op.log ops s)).hear (op.events (Op.runAll ops s))).cache := by
      rw [Op.log_append, afterShares_append]
      exact afterShares_cons _ _ _
    have hsplit : eventsUnder (Entity.typePrefix α) (Op.log (ops ++ [op]) s).flatten =
        eventsUnder (Entity.typePrefix α) (Op.log ops s).flatten ++
          eventsUnder (Entity.typePrefix α) (op.events (Op.runAll ops s)) := by
      rw [Op.log_concat_flatten]
      exact List.filter_append ..
    rw [hlast, hear_revision, ih, hsplit]
    by_cases hshare : eventsUnder (Entity.typePrefix α) (op.events (Op.runAll ops s)) = []
    · rw [hshare, List.append_nil]
      exact Nat.max_eq_left (Nat.zero_le _)
    · -- the new changes are beyond all that there were
      have hnext : lastRevision (eventsUnder (Entity.typePrefix α) (Op.log ops s).flatten) ≤
          lastRevision (eventsUnder (Entity.typePrefix α) (op.events (Op.runAll ops s))) := by
        obtain ⟨e, he, hrev⟩ := lastRevision_mem hshare
        rw [hrev, (Contents.event_of_writeAll (List.mem_filter.1 he).1).2]
        refine Nat.le_trans ?_ (Nat.le_succ _)
        refine lastRevision_le fun f hf => ?_
        obtain ⟨events, hev, hmem⟩ := List.mem_flatten.1 (List.mem_filter.1 hf).1
        exact Op.log_revision_le ops s events hev f hmem
      rw [lastRevision_append hshare, Nat.max_assoc, Nat.max_eq_right hnext]

/-- The revisions that a cache comes to, delivery by delivery. -/
def revisionsOf : List Delivery → Cache α → List Revision
  | [], _ => []
  | d :: ds, c => (c.receiveDelivery d).1.revision :: revisionsOf ds (c.receiveDelivery d).1

/-- **The revision of a cache never goes back**, whatever is delivered. -/
theorem revisionsOf_sorted (ds : List Delivery) (c : Cache α) :
    (c.revision :: revisionsOf ds c).Pairwise (· ≤ ·) := by
  refine List.isChain_iff_pairwise.1 ?_
  induction ds generalizing c with
  | nil => exact List.isChain_singleton _
  | cons d ds ih => exact List.isChain_cons_cons.2 ⟨c.revision_le_receiveDelivery d, ih _⟩

theorem revision_le_afterDeliveries (ds : List Delivery) (c : Cache α) :
    c.revision ≤ (c.afterDeliveries ds).revision := by
  induction ds generalizing c with
  | nil => exact Nat.le_refl _
  | cons d ds ih => exact Nat.le_trans (c.revision_le_receiveDelivery d) (ih _)

theorem momentsOf_revisions (gs : List (List WatchEvent)) (c : Cache α) :
    (momentsOf gs c).map (·.cache.revision) = revisionsOf (gs.map .commit) c := by
  induction gs generalizing c with
  | nil => rfl
  | cons g gs ih => exact congrArg (_ :: ·) (ih _)

theorem waitForRevision_of_le {c : Cache α} {rev : Revision} (h : rev ≤ c.revision) :
    c.waitForRevision rev = .ok () :=
  if_pos (decide_eq_true h)

end Cache

theorem Sync.leave_revision {α : Type} [Entity α] (sync : Sync) (c : Cache α) :
    (sync.leave c).revision = c.revision := by
  unfold leave
  split <;> rfl

/-! ## A cache that is fed -/

namespace Mirroring

variable {α : Type} [Entity α] {st : Mirroring α} {who : Subscriber} {s₀ : Store} {c₀ : Cache α}
  {done late : List Op}

/-- The moments of a cache that is fed are the end of the list and the commits of the operations
`done`. -/
structure Looked (st : Mirroring α) (who : Subscriber) (s₀ : Store) (c₀ : Cache α)
    (done late : List Op) : Prop where
  along : st.Along who s₀ c₀ done late
  moments : st.moments.map (·.cache.revision) = c₀.revision ::
    (Cache.momentsOf ((Op.commitsUnder (Entity.typePrefix α) done s₀).map markMore) c₀).map
      (·.cache.revision)

theorem Looked.start (c : Cache α) (who : Subscriber) (s : Store) :
    (start c who s).Looked who s (c.afterDeliveries (Sync.start who (Entity.typePrefix α) s).2.1)
      [] [] := by
  have halong := Along.start c who s
  refine ⟨halong, ?_⟩
  show [(Mirroring.start c who s).feed.cache.revision] = _
  rw [halong.cache, Sync.leave_revision]
  rfl

theorem Looked.deliver (h : st.Looked who s₀ c₀ done late) :
    (st.step .deliver).Looked who s₀ c₀ (done ++ late) [] := by
  obtain ⟨-, -, hmoments, -⟩ := Feed.deliver_abreast h.along.abreast h.along.cache
  refine ⟨h.along.deliver, ?_⟩
  show (st.moments ++ st.feed.moments st.store).map _ = _
  have hcommits : Op.commitsUnder (Entity.typePrefix α) (done ++ late) s₀ =
      Op.commitsUnder (Entity.typePrefix α) done s₀ ++
        Op.commitsUnder (Entity.typePrefix α) late (Op.runAll done s₀) := by
    unfold Op.commitsUnder
    rw [Op.log_append, List.map_append, List.filter_append]
  rw [List.map_append, h.moments, hmoments, hcommits, List.map_append, Cache.momentsOf_append,
    List.map_append, List.cons_append]
  rfl

theorem Looked.run {steps : List FeedStep} (h : st.Looked who s₀ c₀ done late)
    (hsteps : ∀ op, FeedStep.op op ∈ steps → op.subscriber? ≠ some who) :
    ∃ done' late', done' ++ late' = done ++ late ++ FeedStep.ops steps ∧
      (st.run steps).Looked who s₀ c₀ done' late' :=
  run_parts (P := fun st => st.Looked who s₀ c₀)
    (fun _ _ _ _ hop h => ⟨h.along.op hop, h.moments⟩) (fun _ _ _ h => h.deliver) h hsteps

/-- A cache is at the last change that it was told of. -/
theorem Looked.revision (h : st.Looked who s₀ c₀ done late) :
    st.feed.cache.revision = max c₀.revision
      (lastRevision (eventsUnder (Entity.typePrefix α) (Op.log done s₀).flatten)) := by
  rw [h.along.cache, Sync.leave_revision, Cache.afterShares_revision]

/-- Each moment is at a later revision than the ones before. -/
theorem Looked.sorted (h : st.Looked who s₀ c₀ done late) {c : Cache α}
    (hc : c.revision ≤ c₀.revision) :
    (c.revision :: st.moments.map (·.cache.revision)).Pairwise (· ≤ ·) := by
  rw [h.moments, Cache.momentsOf_revisions]
  refine List.isChain_iff_pairwise.1 (List.isChain_cons_cons.2 ⟨hc, ?_⟩)
  exact List.isChain_iff_pairwise.2 (Cache.revisionsOf_sorted _ c₀)

end Mirroring

/-! ## Waiting -/

namespace Op

variable {s : Store}

/-- Nothing is changed in a closed store. -/
theorem log_flatten_of_closed (h : s.closed = true) (ops : List Op) : (log ops s).flatten = [] := by
  induction ops generalizing s with
  | nil => rfl
  | cons op ops ih =>
    have hnothing : op.events s = [] := by
      unfold events writes
      rw [if_pos h]
      rfl
    rw [log, List.flatten_cons, hnothing, ih (run_closed_of_closed h)]
    rfl

theorem open_of_mem_log {ops : List Op} {e : WatchEvent} (h : e ∈ (log ops s).flatten) :
    s.closed = false := by
  cases hs : s.closed with
  | false => rfl
  | true =>
    rw [log_flatten_of_closed hs] at h
    cases h

/-- The changes of an operation are among those of a history that it is part of. -/
theorem mem_log_flatten {early late : List Op} {op : Op} {e : WatchEvent}
    (h : e ∈ op.events (runAll early s)) : e ∈ (log (early ++ op :: late) s).flatten := by
  rw [log_append]
  exact List.mem_flatten.2 ⟨_, List.mem_append_right _ List.mem_cons_self, h⟩

end Op

variable {α : Type} [Entity α]

/-- What is promised of a cache that is fed from some moment on, while anything is done to the
store, to those who wait for its revision. -/
structure StallsNobody (c : Cache α) (who : Subscriber) (s : Store) (steps : List FeedStep) :
    Prop where
  /-- Once all has been delivered the cache is at the last of three revisions: the one that it had,
  the one of the list, and the one of the last change under the prefix of its type. A closed store
  gives no list and is not changed. -/
  level : ((Mirroring.start c who s).run (steps ++ [.deliver])).feed.cache.revision =
    if s.closed then c.revision
    else max c.revision (max s.revision
      (lastRevision (eventsUnder (Entity.typePrefix α) (Op.log (FeedStep.ops steps) s).flatten)))
  /-- The revision does not go back while the list is received, -/
  listing : (c.revision ::
    c.revisionsOf (Sync.start who (Entity.typePrefix α) s).2.1).Pairwise (· ≤ ·)
  /-- and not from the list to a commit or from one commit to another. -/
  moments : (c.revision ::
    ((Mirroring.start c who s).run steps).moments.map (·.cache.revision)).Pairwise (· ≤ ·)
  /-- A typed request may be made at any moment, with deliveries while it is under way. If it
  succeeds, whoever waits for its revision in the end gets it at once. -/
  served : ∀ (before during after : List FeedStep) (q : Request α) (rev : Revision),
    steps = before ++ during ++ after →
    FeedStep.ops during = q.ops ((Mirroring.start c who s).run before).store →
    (q.outcome ((Mirroring.start c who s).run before).store).1 = .ok rev →
    ((Mirroring.start c who s).run (steps ++ [.deliver])).feed.cache.waitForRevision rev = .ok ()

section Served

variable {c : Cache α} {who : Subscriber} {s : Store} {steps : List FeedStep}

theorem Mirroring.level_of_start (c : Cache α) (s : Store)
    (hsteps : ∀ op, FeedStep.op op ∈ steps → op.subscriber? ≠ some who) :
    ((start c who s).run (steps ++ [.deliver])).feed.cache.revision =
      if s.closed then c.revision
      else max c.revision (max s.revision (lastRevision
        (eventsUnder (Entity.typePrefix α) (Op.log (FeedStep.ops steps) s).flatten))) := by
  obtain ⟨done, late, hops, hrun⟩ := (Looked.start c who s).run hsteps
  have hlast : (start c who s).run (steps ++ [.deliver]) =
      ((start c who s).run steps).step .deliver := List.foldl_append
  rw [hlast, hrun.deliver.revision, hops, (Sync.start_abreast who (Entity.typePrefix α) s).2.1]
  cases hs : s.closed with
  | true =>
    rw [Op.log_flatten_of_closed hs]
    exact Nat.max_eq_left (Nat.zero_le _)
  | false =>
    rw [if_neg Bool.false_ne_true, if_neg Bool.false_ne_true, Cache.listing_revision,
      Nat.max_assoc]
    rfl

/-- The change of a request that succeeds is one under the prefix of its type, at the revision that
the request is told. -/
theorem Request.change_of_ok {q : Request α} {rev : Revision} (h : (q.outcome s).1 = .ok rev) :
    ∃ op, q.ops s = q.meanwhile ++ [op] ∧ ∃ e ∈ op.events (Op.runAll q.meanwhile s),
      e.revision = rev ∧ Text.hasPrefix (Entity.typePrefix α) e.key = true := by
  obtain ⟨op, hops, htargets, hchange, hrev⟩ := q.outcome_of_ok h
  obtain ⟨e, he⟩ := List.exists_mem_of_ne_nil _ hchange
  obtain ⟨⟨w, hw, hkey⟩, heq⟩ := Contents.event_of_writeAll he
  have htarget := Op.target_of_writes hw
  rw [htargets, List.mem_singleton] at htarget
  refine ⟨op, hops, e, he, heq.trans hrev.symm, ?_⟩
  rw [hkey, htarget]
  exact Entity.hasPrefix_storeKey _

/-- **A request that succeeds while a cache is fed** is part of the history that the cache is told:
one of its changes is under the prefix of the type, at the revision that the request is told. -/
theorem Mirroring.logs_request {before during after : List FeedStep} {q : Request α}
    {rev : Revision} (hsteps : ∀ op, FeedStep.op op ∈ steps → op.subscriber? ≠ some who)
    (hsplit : steps = before ++ during ++ after)
    (hduring : FeedStep.ops during = q.ops ((start c who s).run before).store)
    (hok : (q.outcome ((start c who s).run before).store).1 = .ok rev) :
    ∃ e ∈ (Op.log (FeedStep.ops steps) s).flatten,
      e.revision = rev ∧ Text.hasPrefix (Entity.typePrefix α) e.key = true := by
  have hbefore : ∀ op, FeedStep.op op ∈ before → op.subscriber? ≠ some who := by
    intro op hop
    exact hsteps op (by rw [hsplit]; simp [hop])
  obtain ⟨done, late, hdone, hlooked⟩ := (Looked.start c who s).run hbefore
  -- the store differs from one without a feed only in what waits for the feed
  have hstore : ((start c who s).run before).store.SameKeys
      (Op.runAll (FeedStep.ops before) s) := by
    have hstore := hlooked.along.abreast.store
    rw [hdone] at hstore
    exact hstore
  obtain ⟨op, hops, e, he, hrev, hunder⟩ := Request.change_of_ok hok
  have hall : FeedStep.ops steps =
      (FeedStep.ops before ++ q.meanwhile) ++ op :: FeedStep.ops after := by
    rw [hsplit]
    unfold FeedStep.ops at hduring ⊢
    rw [List.filterMap_append, List.filterMap_append, hduring, hops]
    simp only [List.append_assoc, List.cons_append, List.nil_append]
  refine ⟨e, ?_, hrev, hunder⟩
  rw [hall]
  refine Op.mem_log_flatten ?_
  rw [Op.runAll_append, ← op.events_congr (Op.runAll_sameKeys q.meanwhile hstore)]
  exact he

end Served

/-- **No record and no change that cannot be read stalls those who wait for a revision.** -/
theorem nobody_is_stalled (c : Cache α) (who : Subscriber) (s : Store) (steps : List FeedStep)
    (hsteps : ∀ op, FeedStep.op op ∈ steps → op.subscriber? ≠ some who) :
    StallsNobody c who s steps := by
  have hlevel := Mirroring.level_of_start c s hsteps
  refine ⟨hlevel, Cache.revisionsOf_sorted _ c, ?moments, ?served⟩
  case moments =>
    obtain ⟨done, late, -, hrun⟩ := (Mirroring.Looked.start c who s).run hsteps
    exact hrun.sorted (Cache.revision_le_afterDeliveries _ c)
  case served =>
    intro before during after q rev hsplit hduring hok
    obtain ⟨e, he, hrev, hunder⟩ := Mirroring.logs_request hsteps hsplit hduring hok
    have hmem : e ∈ eventsUnder (Entity.typePrefix α) (Op.log (FeedStep.ops steps) s).flatten :=
      List.mem_filter.2 ⟨he, hunder⟩
    have hle := le_lastRevision ((Op.log_flatten_sorted (FeedStep.ops steps) s).filter _) hmem
    refine Cache.waitForRevision_of_le ?_
    rw [hlevel, Op.open_of_mem_log he, if_neg Bool.false_ne_true, ← hrev]
    exact Nat.le_trans hle (Nat.le_trans (Nat.le_max_right _ _) (Nat.le_max_right _ _))

namespace Corrupt

/-- A flavor. -/
def flavor (name : String) : Flavor := ⟨[], ⟨name⟩, 1, 1, 0⟩

/-- Puts a value that cannot be read in the place of a flavor. -/
def spoil (name : String) : Write := .put (Entity.storeKey (Entity.key (flavor name))) [255]

/-- A key under the prefix of flavors that is no key of a flavor. -/
def nameless : String := Entity.typePrefix Flavor ++ "?"

def start : Store := Op.runAll [.put nameless [1], .txn ⟨[], none, [spoil "x"]⟩] .empty

/-- A flavor is created while a cache of flavors is fed. -/
def request : Request Flavor := .create (flavor "y")

def who : Subscriber := .feed 5

/-- A commit of which nothing can be read, and elsewhere something is put. -/
def before : List FeedStep :=
  [.op (.txn ⟨[], none, [.delete nameless, spoil "z", .put "m" [1]]⟩), .deliver]

def during : List FeedStep := (request.ops Store.empty).map .op

/-- Records that cannot be read come and go. -/
def after : List FeedStep :=
  [.op (.put nameless [2]), .op (.delete nameless), .op (.put "m" [2])]

theorem others (op : Op) (h : FeedStep.op op ∈ before ++ during ++ after) :
    op.subscriber? ≠ some who := by
  have hall : ∀ op ∈ FeedStep.ops (before ++ during ++ after), op.subscriber? ≠ some who := by
    decide +kernel
  exact hall op (List.mem_filterMap.2 ⟨_, h, rfl⟩)

end Corrupt

open Corrupt in
/-- Nobody who waits for a flavor is stalled by records that are none. -/
theorem nobody_is_stalled_by_corrupt_flavors :
    (∀ op, FeedStep.op op ∈ before ++ during ++ after → op.subscriber? ≠ some who) ∧
    ((Mirroring.start (Cache.empty Flavor) who start).run
      (before ++ during ++ after ++ [.deliver])).feed.cache.revision = 6 ∧
    ((Mirroring.start (Cache.empty Flavor) who start).run
      (before ++ during ++ after ++ [.deliver])).feed.cache.waitForRevision 4 = .ok () := by
  have h := nobody_is_stalled (Cache.empty Flavor) who start _ others
  refine ⟨others, h.level.trans (by decide +kernel), ?_⟩
  exact h.served before during after request 4 rfl (by decide +kernel) (by decide +kernel)

end Inventory
