import Inventory.Proofs.Shares

/-!
# A hub feeds a cache as a sync of its own would

A hub follows the whole store and gives each cache its share of every commit; a sync of one type
is told only of the commits under its prefix. One copy of a cache is fed by a hub, with any other
caches registered, and another copy by a sync of its own, while others use the store. The two syncs
deliver when they like, so one of the copies can be ahead of the other.

* `Hub.receive_share`: of a delivery a hub gives a cache, and makes it announce, what a sync of its
  own would.
* `Hub.looksThrough_heard`: **the looks at a cache of a hub after some commits** are those at a
  cache that hears of the commits under its prefix, and of nothing else.
* `hub_feeds_as_own_sync`: **the two copies go through the same states and announce the same**, from
  the list on.
-/

namespace Inventory

/-! ## Announcements of a type -/

/-- The announcements of one type. -/
def announcedOf (k : Kind) (as : Announcements) : List (Announcement k.Obj) :=
  as.filterMap fun a => if h : a.1 = k then some (h ▸ a.2) else none

section Announced

variable {j k : Kind}

theorem announcedOf_append (as bs : Announcements) :
    announcedOf k (as ++ bs) = announcedOf k as ++ announcedOf k bs :=
  List.filterMap_append

theorem announcedOf_own (l : List (Announcement k.Obj)) : announcedOf k (l.map (⟨k, ·⟩)) = l := by
  unfold announcedOf
  rw [List.filterMap_map]
  refine (List.filterMap_congr fun a _ => ?_).trans List.filterMap_some
  exact dif_pos rfl

theorem announcedOf_other (h : j ≠ k) (l : List (Announcement j.Obj)) :
    announcedOf k (l.map (⟨j, ·⟩)) = [] := by
  unfold announcedOf
  rw [List.filterMap_map, List.filterMap_eq_nil_iff]
  intro a _
  exact dif_neg h

end Announced

/-! ## What a hub announces -/

namespace Hub

variable {h : Hub} {k : Kind} {c : Cache k.Obj}

theorem step_feed_own (hc : h.caches.get k = some c) (d : Delivery) :
    announcedOf k (h.step (.feed k d)).2 = Cache.announce (c.receiveDelivery d) := by
  simp only [step, hc]
  exact announcedOf_own _

theorem step_feed_other {j : Kind} (hj : j ≠ k) (h : Hub) (d : Delivery) :
    announcedOf k (h.step (.feed j d)).2 = [] := by
  cases hc : h.caches.get j with
  | none => simp only [step, hc]; rfl
  | some c =>
    simp only [step, hc]
    exact announcedOf_other hj _

/-- Steps that feed caches one after another, and then no cache: a cache announces what it is
fed. -/
theorem runSteps_announced {ks : List Kind} (hnodup : ks.Nodup) (d : Kind → Delivery)
    {rest : List HubStep} (hrest : ∀ k d, .feed k d ∉ rest) (hc : h.caches.get k = some c) :
    announcedOf k (runSteps (ks.map (fun k => .feed k (d k)) ++ rest) h).2 =
      if k ∈ ks then Cache.announce (c.receiveDelivery (d k)) else [] := by
  have hquiet (h : Hub) : announcedOf k (runSteps rest h).2 = [] := by
    clear hc
    induction rest generalizing h with
    | nil => rfl
    | cons s rest ih =>
      have hrest' : ∀ k d, HubStep.feed k d ∉ rest := fun k d hmem =>
        hrest k d (List.mem_cons_of_mem _ hmem)
      cases s with
      | feed k d => exact absurd List.mem_cons_self (hrest k d)
      | publish rev endOfList => exact ih hrest' _
  induction ks generalizing h c with
  | nil => rw [if_neg List.not_mem_nil]; exact hquiet h
  | cons j ks ih =>
    obtain ⟨hj, hks⟩ := List.nodup_cons.1 hnodup
    have hsplit : (runSteps ((j :: ks).map (fun k => .feed k (d k)) ++ rest) h).2 =
        (h.step (.feed j (d j))).2 ++
          (runSteps (ks.map (fun k => .feed k (d k)) ++ rest) (h.step (.feed j (d j))).1).2 := rfl
    have hfed := step_feed_caches h j (d j) k
    rw [hsplit, announcedOf_append]
    by_cases hjk : k = j
    · subst hjk
      rw [if_pos rfl, hc] at hfed
      rw [step_feed_own hc, ih hks hfed, if_neg hj, if_pos List.mem_cons_self, List.append_nil]
    · rw [if_neg hjk, hc] at hfed
      rw [step_feed_other (Ne.symm hjk), ih hks hfed, List.nil_append]
      simp only [List.mem_cons, hjk, false_or]

/-- **Of a delivery a hub gives a cache, and makes it announce, what its own sync would.** -/
theorem receive_share (hc : h.caches.get k = some c) (d : Delivery) :
    (h.receive d).1.caches.get k = some (c.afterDeliveries (d.shareOf k)) ∧
      announcedOf k (h.receive d).2 = c.announcedBy (d.shareOf k) := by
  have hk : (h.caches.get k).isSome = true := by rw [hc]; rfl
  refine ⟨by rw [receive_caches, hc]; rfl, ?_⟩
  have hall (d : Delivery) {rest : List HubStep} (hrest : ∀ k d, .feed k d ∉ rest) :
      announcedOf k (runSteps (h.kinds.map (.feed · d) ++ rest) h).2 = c.announcedBy [d] := by
    rw [runSteps_announced h.kinds_nodup (fun _ => d) hrest hc, if_pos (mem_kinds.2 hk)]
    exact (List.append_nil _).symm
  unfold receive
  cases d with
  | listStart =>
    have hstart := hall .listStart fun _ _ => List.not_mem_nil
    rw [List.append_nil] at hstart
    exact hstart
  | listEnd rev => exact hall (.listEnd rev) (by simp)
  | record r rev =>
    have hone : ((h.kindOf? r.key).toList).Nodup := by
      cases h.kindOf? r.key <;> simp
    have hfed := runSteps_announced hone (fun _ => .record r rev) (fun _ _ => List.not_mem_nil) hc
    rw [List.append_nil] at hfed
    have hmem : k ∈ (h.kindOf? r.key).toList ↔
        Text.hasPrefix (Entity.typePrefix k.Obj) r.key = true :=
      (Option.mem_toList.trans kindOf?_eq_some_iff).trans (and_iff_right hk)
    refine hfed.trans ?_
    simp only [Delivery.shareOf]
    by_cases hp : Text.hasPrefix (Entity.typePrefix k.Obj) r.key = true
    · rw [if_pos (hmem.2 hp), if_pos hp]
      exact (List.append_nil _).symm
    · rw [if_neg fun hm => hp (hmem.1 hm), if_neg hp]
      rfl
  | commit es =>
    cases hlast : es.getLast? with
    | none =>
      rw [List.getLast?_eq_none_iff] at hlast
      subst hlast
      rfl
    | some last =>
      have hfed := runSteps_announced (h.kindsSeen_nodup es)
        (fun k => .commit (h.eventsOf k es))
        (by simp : ∀ k d, HubStep.feed k d ∉ [.publish last.revision false]) hc
      simp only [steps, hlast]
      refine hfed.trans ?_
      simp only [Delivery.shareOf]
      by_cases hshare : eventsUnder (Entity.typePrefix k.Obj) es = []
      · rw [if_neg fun hseen => (mem_kindsSeen.1 hseen).2 hshare, if_pos hshare]
        rfl
      · rw [if_pos (mem_kindsSeen.2 ⟨hk, hshare⟩), if_neg hshare, eventsOf_eq hk]
        exact (List.append_nil _).symm

theorem receiveAll_share (ds : List Delivery) (hc : h.caches.get k = some c) :
    (receiveAll ds h).1.caches.get k = some (c.afterDeliveries (ds.flatMap (·.shareOf k))) ∧
      announcedOf k (receiveAll ds h).2 = c.announcedBy (ds.flatMap (·.shareOf k)) := by
  induction ds generalizing h c with
  | nil => exact ⟨hc, rfl⟩
  | cons d ds ih =>
    obtain ⟨hfirst, hannounced⟩ := receive_share hc d
    obtain ⟨hrest, hrests⟩ := ih hfirst
    have hsplit : (receiveAll (d :: ds) h).2 =
        (h.receive d).2 ++ (receiveAll ds (h.receive d).1).2 := rfl
    rw [List.flatMap_cons, Cache.announcedBy_append, hsplit, announcedOf_append, hannounced,
      hrests]
    refine ⟨hrest.trans ?_, rfl⟩
    rw [Cache.afterDeliveries_append]

end Hub

/-! ## Looks at a cache -/

/-- A look at a hub when it has received a commit and all of it was announced. -/
structure HubLook where
  commit : List WatchEvent
  hub : Hub
  announced : Announcements

/-- What a look shows of a cache. -/
def HubLook.of (k : Kind) (look : HubLook) : Option (Moment k.Obj) :=
  (look.hub.caches.get k).map fun c => ⟨c, announcedOf k look.announced⟩

namespace Hub

variable {h : Hub} {k : Kind} {c : Cache k.Obj}

/-- The looks at a hub after each of some commits. -/
def looksThrough : List (List WatchEvent) → Hub → List HubLook
  | [], _ => []
  | g :: gs, h =>
    ⟨g, (h.receive (.commit g)).1, (h.receive (.commit g)).2⟩ ::
      looksThrough gs (h.receive (.commit g)).1

/-- The looks of a delivery. -/
def looks (h : Hub) (s : Store) : List HubLook :=
  match h.sync with
  | none => []
  | some sync =>
    (sync.deliver (fun x => x.1.cancelled)
      (fun events (x : Hub × List HubLook) =>
        let received := x.1.receive (.commit events)
        (received.1, x.2 ++ [⟨events, received.1, received.2⟩])) s (h, [])).2.2.2

/-- A commit of which a cache of a hub hears. -/
theorem receive_hear (hc : h.caches.get k = some c) (es : List WatchEvent) :
    (h.receive (.commit (markMore es))).1.caches.get k = some (c.hear es).cache ∧
      announcedOf k (h.receive (.commit (markMore es))).2 = (c.hear es).announced := by
  obtain ⟨hcache, hannounced⟩ := receive_share hc (.commit (markMore es))
  rw [hcache, hannounced]
  simp only [Delivery.shareOf]
  unfold Cache.hear
  by_cases hshare : eventsUnder (Entity.typePrefix k.Obj) es = []
  · rw [if_pos hshare, if_pos (Cache.eventsUnder_marked_eq_nil.2 hshare)]
    exact ⟨rfl, rfl⟩
  · rw [if_neg hshare, if_neg fun hnone => hshare (Cache.eventsUnder_marked_eq_nil.1 hnone)]
    simp only [Cache.afterDeliveries, Cache.announcedBy, List.foldl_cons, List.foldl_nil,
      List.append_nil, Cache.receiveDelivery_marked, and_self]

/-- **The looks at a cache of a hub** are those at a cache that hears of what is under its prefix.
-/
theorem looksThrough_heard (hc : h.caches.get k = some c) (cs : List (List WatchEvent)) :
    (receiveAll ((cs.map markMore).map .commit) h).1.caches.get k = some (c.afterShares cs) ∧
      (looksThrough (cs.map markMore) h).map (fun look => (look.commit, look.of k)) =
        (c.heard cs).map fun x => (x.1, some x.2) := by
  induction cs generalizing h c with
  | nil => exact ⟨hc, rfl⟩
  | cons es cs ih =>
    obtain ⟨hcache, hannounced⟩ := receive_hear hc es
    obtain ⟨hlast, hlooks⟩ := ih hcache
    rw [Cache.afterShares_cons]
    refine ⟨hlast, ?_⟩
    rw [List.map_cons, looksThrough, List.map_cons, Cache.heard, List.map_cons, hlooks]
    unfold HubLook.of
    rw [hcache, hannounced]
    rfl

/-- What is announced of commits is announced when they are looked at. -/
theorem looksThrough_announced (gs : List (List WatchEvent)) (h : Hub) :
    (momentsThrough gs h).flatMap (·.announced) = (looksThrough gs h).flatMap (·.announced) := by
  induction gs generalizing h with
  | nil => rfl
  | cons g gs ih =>
    rw [momentsThrough, looksThrough, List.flatMap_append, List.flatMap_cons, ih]
    exact congrArg (· ++ _) (stepMoments_announced g _ h).symm

theorem foldl_looks (gs : List (List WatchEvent)) (h : Hub) (l : List HubLook) :
    gs.foldl (fun x g => ((x.1.receive (.commit g)).1,
        x.2 ++ [⟨g, (x.1.receive (.commit g)).1, (x.1.receive (.commit g)).2⟩])) (h, l) =
      ((receiveAll (gs.map .commit) h).1, l ++ looksThrough gs h) := by
  induction gs generalizing h l with
  | nil => rw [looksThrough, List.append_nil]; rfl
  | cons g gs ih =>
    rw [List.foldl_cons, ih, looksThrough, List.append_assoc]
    rfl

end Hub

/-! ## Deliveries -/

namespace Hub

variable {h : Hub} {sync : Sync} {who : Subscriber} {s₀ s : Store} {done late : List Op}

theorem keep_caches (h : Hub) (sync : Sync) (k : Kind) :
    (h.keep sync).caches.get k = (h.caches.get k).map sync.leave := by
  unfold keep Sync.leave
  simp only
  split
  · exact h.markStopped_caches k
  · rename_i hgoes
    cases h.caches.get k <;> rfl

/-- What a hub does to the store is nobody else's concern. -/
theorem deliver_frame (hsync : h.sync = some sync) (s : Store) :
    (h.deliver s).2.2.SameKeys s ∧
      ∀ (who : Subscriber) (scope : String) (backlog : List WatchEvent),
        who ≠ sync.subscriber → s.Watching who scope backlog →
          (h.deliver s).2.2.Watching who scope backlog := by
  unfold deliver
  rw [hsync]
  simp only
  split
  · exact ⟨⟨rfl, rfl, rfl⟩, fun _ _ _ _ hw => hw⟩
  · exact Sync.deliver_frame _ _ sync s _

/-- A hub that goes on delivers what waits for it. -/
theorem deliver_abreast (hsync : h.sync = some sync) (hgoes : h.cancelled = false)
    (ha : sync.Abreast who "" s₀ done late s) :
    ∃ sync', sync'.Abreast who "" s₀ (done ++ late) [] (h.deliver s).2.2 ∧
      h.looks s = looksThrough
        ((Op.commitsUnder "" late (Op.runAll done s₀)).map markMore) h ∧
      (h.deliver s).2.1 = (h.looks s).flatMap (·.announced) ∧
      (sync.outcome = none → (h.deliver s).1 = (receiveAll
        (((Op.commitsUnder "" late (Op.runAll done s₀)).map markMore).map .commit) h).1.keep
          sync') ∧
      (sync.outcome ≠ none → sync' = sync ∧ (h.deliver s).1 = h) := by
  obtain ⟨sync', s', hdeliver, ha'⟩ := ha.deliver
  have hstays (gs : List (List WatchEvent)) :
      (receiveAll (gs.map .commit) h).1.cancelled = false := (receiveAll_frame _ h).1.trans hgoes
  have hlooks : h.looks s = looksThrough
      ((Op.commitsUnder "" late (Op.runAll done s₀)).map markMore) h := by
    unfold looks
    rw [hsync]
    simp only
    rw [hdeliver _ _ _ _ fun gs => by rw [foldl_looks]; exact hstays gs, foldl_looks,
      List.nil_append]
  by_cases hnone : sync.outcome = none
  · have hdelivered : (h.deliver s).1 = (receiveAll
        (((Op.commitsUnder "" late (Op.runAll done s₀)).map markMore).map .commit) h).1.keep
          sync' ∧ (h.deliver s).2.2 = s' ∧
          (h.deliver s).2.1 = (h.looks s).flatMap (·.announced) := by
      rw [hlooks, ← looksThrough_announced]
      unfold deliver
      rw [hsync]
      simp only [hnone, Option.isSome_none, Bool.false_eq_true, if_false]
      rw [hdeliver _ _ _ _ fun gs => by rw [foldl_receive]; exact hstays gs, foldl_receive]
      exact ⟨rfl, rfl, rfl⟩
    refine ⟨sync', ?_, hlooks, hdelivered.2.2, fun _ => hdelivered.1,
      fun hsome => absurd hnone hsome⟩
    rw [hdelivered.2.1]
    exact ha'
  · -- a sync that has ended leaves everything as it is
    have hsame := hdeliver Unit (fun _ => false) (fun _ x => x) () fun _ => rfl
    rw [Sync.deliver_of_ended hnone] at hsame
    obtain ⟨rfl, hrest⟩ := Prod.ext_iff.1 hsame
    obtain ⟨rfl, -⟩ := Prod.ext_iff.1 hrest
    have hkept : h.deliver s = (h, [], s) := by
      unfold deliver
      rw [hsync]
      simp only [Option.isSome_iff_ne_none.2 hnone, if_true]
    have hquiet : h.looks s = [] := by
      rw [hlooks, Op.commitsUnder_of_closed (ha.ended hnone)]
      rfl
    refine ⟨sync, ?_, hlooks, ?_, fun h => absurd h hnone, fun _ => ⟨rfl, by rw [hkept]⟩⟩
    · rw [hkept]
      exact ha'
    · rw [hkept, hquiet]
      rfl

/-- What a delivery makes of a cache of a hub, and what there is to see of it. -/
theorem deliver_cache {k : Kind} {c : Cache k.Obj} (hsync : h.sync = some sync)
    (hgoes : h.cancelled = false) (ha : sync.Abreast who "" s₀ done late s)
    (hc : h.caches.get k = some (sync.leave c)) :
    ∃ sync', sync'.Abreast who "" s₀ (done ++ late) [] (h.deliver s).2.2 ∧
      (h.deliver s).1.cancelled = false ∧ (h.deliver s).1.sync = some sync' ∧
      (h.deliver s).1.caches.get k =
        some (sync'.leave (c.afterShares (Op.log late (Op.runAll done s₀)))) ∧
      (h.looks s).map (fun look => (look.commit, look.of k)) =
        (c.heard (sharesUnder "" (Op.log late (Op.runAll done s₀)))).map
          (fun x => (x.1, some x.2)) ∧
      (h.deliver s).2.1 = (h.looks s).flatMap (·.announced) := by
  obtain ⟨sync', ha', hlooks, hannounced, hlive, hended⟩ := deliver_abreast hsync hgoes ha
  refine ⟨sync', ha', ?_⟩
  by_cases hnone : sync.outcome = none
  · have hc : h.caches.get k = some c := by
      rw [hc]
      unfold Sync.leave
      rw [hnone]
      rfl
    obtain ⟨hlast, hviews⟩ := looksThrough_heard hc
      (sharesUnder "" (Op.log late (Op.runAll done s₀)))
    rw [Cache.afterShares_all] at hlast
    obtain ⟨hcancelled, hkept⟩ := keep_frame (receiveAll
      (((sharesUnder "" (Op.log late (Op.runAll done s₀))).map markMore).map .commit) h).1 sync'
    rw [hannounced, hlive hnone, hlooks]
    refine ⟨hcancelled.trans ((receiveAll_frame _ _).1.trans hgoes), hkept, ?_, hviews, rfl⟩
    rw [keep_caches]
    exact congrArg (Option.map sync'.leave) hlast
  · -- nothing is committed to a closed store
    obtain ⟨rfl, hsame⟩ := hended hnone
    have hnothing : Op.commitsUnder "" late (Op.runAll done s₀) = [] :=
      Op.commitsUnder_of_closed (ha.ended hnone) "" late
    have hshares : sharesUnder "" (Op.log late (Op.runAll done s₀)) = [] := hnothing
    have hall : c.afterShares (Op.log late (Op.runAll done s₀)) = c := by
      rw [← Cache.afterShares_all, hshares]
      rfl
    rw [hannounced, hsame, hlooks, hall, hnothing, hshares]
    exact ⟨hgoes, hsync, hc, rfl, rfl⟩

end Hub

/-! ## A hub and a sync of its own, side by side -/

/-- What happens next: an operation on the store, or one of the two syncs delivers. -/
inductive TwinMove where
  | op (o : Op)
  | hub
  | feed

/-- A store, a hub and a feed of one type, with what there was to see of the two copies of the
cache, after the list and after each commit that was delivered, and all that was announced. -/
structure Twins (k : Kind) where
  store : Store
  hub : Hub
  feed : Feed k.Obj
  listedLook : HubLook
  listedMoment : Moment k.Obj
  looks : List HubLook
  moments : List (Moment k.Obj)
  hubAnnounced : Announcements
  feedAnnounced : List (Announcement k.Obj)

namespace Twins

variable {k : Kind}

/-- A hub is started for the first time, with a cache and any others registered, and then a sync of
another copy of the cache. -/
def start (k : Kind) (caches : CacheSet) (c : Cache k.Obj) (hubWho feedWho : Subscriber)
    (s : Store) : Twins k :=
  let served := Hub.start { Hub.empty with caches := caches.set k (some c) } hubWho s
  let fed := Feed.start c feedWho served.2.2.2
  { store := fed.2.2
    hub := served.2.1
    feed := fed.1
    listedLook := ⟨[], served.2.1, served.2.2.1⟩
    listedMoment := ⟨fed.1.cache, fed.2.1⟩
    looks := []
    moments := []
    hubAnnounced := served.2.2.1
    feedAnnounced := fed.2.1 }

/-- The next step. -/
def step (st : Twins k) : TwinMove → Twins k
  | .op o => { st with store := (o.run st.store).2 }
  | .hub =>
    let delivered := st.hub.deliver st.store
    { st with
      store := delivered.2.2
      hub := delivered.1
      looks := st.looks ++ st.hub.looks st.store
      hubAnnounced := st.hubAnnounced ++ delivered.2.1 }
  | .feed =>
    let delivered := st.feed.deliver st.store
    { st with
      store := delivered.2.2
      feed := delivered.1
      moments := st.moments ++ st.feed.moments st.store
      feedAnnounced := st.feedAnnounced ++ delivered.2.1 }

/-- Steps one after another. -/
def run (st : Twins k) (moves : List TwinMove) : Twins k := moves.foldl step st

/-- What the hub's copy shows after the commits that change something of its type. -/
def shown (st : Twins k) : List (Moment k.Obj) :=
  (st.looks.filter fun look => eventsUnder (Entity.typePrefix k.Obj) look.commit ≠ []).filterMap
    (·.of k)

/-- The two copies are alike: what there is to see of one is what there is to see of the other, as
far as both have come. -/
structure Alike (st : Twins k) : Prop where
  /-- After the list both show the same and have announced the same. -/
  listed : st.listedLook.of k = some st.listedMoment
  /-- The hub's copy is there to be looked at after each commit. -/
  registered : ∀ look ∈ st.looks, (look.of k).isSome = true
  /-- A commit that changes nothing of the type leaves the hub's copy as it was, and nothing is
  announced of it. -/
  idle : (st.listedLook :: st.looks).IsChain fun look next =>
    eventsUnder (Entity.typePrefix k.Obj) next.commit = [] →
      next.of k = (look.of k).map fun moment => ⟨moment.cache, []⟩
  /-- After the other commits it shows what the other copy shows, one commit after another. -/
  course : st.shown <+: st.moments ∨ st.moments <+: st.shown
  /-- All that the hub announces is announced when it is looked at. -/
  hubAnnounced : st.hubAnnounced = (st.listedLook :: st.looks).flatMap (·.announced)
  /-- All that the feed announces is announced at the moments of its copy. -/
  feedAnnounced : st.feedAnnounced = (st.listedMoment :: st.moments).flatMap (·.announced)

/-- The two copies are level: they have gone through the same, have announced the same and are the
same now. -/
structure Level (st : Twins k) : Prop where
  course : st.shown = st.moments
  announced : announcedOf k st.hubAnnounced = st.feedAnnounced
  now : st.hub.caches.get k = some st.feed.cache

/-- What is known of the two copies: the hub's has received the commits of the operations
`hubDone` on the store, and `hubLate` came after them; the other copy has come as far as `feedDone`.
-/
structure Sound (st : Twins k) (c₀ : Cache k.Obj) (hubWho feedWho : Subscriber) (s₀ : Store)
    (sync : Sync) (hubDone hubLate feedDone feedLate : List Op) : Prop where
  ops : hubDone ++ hubLate = feedDone ++ feedLate
  going : st.hub.cancelled = false
  listed : st.listedLook.of k = some st.listedMoment
  cached : st.listedMoment.cache = c₀ ∨ s₀.closed = true
  hubAnnounced : st.hubAnnounced = (st.listedLook :: st.looks).flatMap (·.announced)
  feedAnnounced : st.feedAnnounced = (st.listedMoment :: st.moments).flatMap (·.announced)
  kept : st.hub.sync = some sync
  hubAbreast : sync.Abreast hubWho "" s₀ hubDone hubLate st.store
  hubCache : st.hub.caches.get k = some (sync.leave (c₀.afterShares (Op.log hubDone s₀)))
  looks : st.looks.map (fun look => (look.commit, look.of k)) =
    (c₀.heard (sharesUnder "" (Op.log hubDone s₀))).map fun x => (x.1, some x.2)
  feedAbreast : st.feed.sync.Abreast feedWho (Entity.typePrefix k.Obj) s₀ feedDone feedLate st.store
  feedCache : st.feed.cache = st.feed.sync.leave (c₀.afterShares (Op.log feedDone s₀))
  moments : st.moments = Cache.momentsOf
    ((sharesUnder (Entity.typePrefix k.Obj) (Op.log feedDone s₀)).map markMore) c₀

variable {st : Twins k} {c₀ : Cache k.Obj} {hubWho feedWho : Subscriber} {s₀ : Store} {sync : Sync}
  {hubDone hubLate feedDone feedLate : List Op}

/-- Others use the store. -/
theorem Sound.op (h : st.Sound c₀ hubWho feedWho s₀ sync hubDone hubLate feedDone feedLate)
    {op : Op} (hhub : op.subscriber? ≠ some hubWho) (hfeed : op.subscriber? ≠ some feedWho) :
    (st.step (.op op)).Sound c₀ hubWho feedWho s₀ sync hubDone (hubLate ++ [op]) feedDone
      (feedLate ++ [op]) :=
  { h with
    ops := by rw [← List.append_assoc, h.ops, List.append_assoc]
    hubAbreast := h.hubAbreast.op hhub
    feedAbreast := h.feedAbreast.op hfeed }

/-- The hub delivers. -/
theorem Sound.deliverHub
    (h : st.Sound c₀ hubWho feedWho s₀ sync hubDone hubLate feedDone feedLate)
    (hne : hubWho ≠ feedWho) :
    ∃ sync', (st.step .hub).Sound c₀ hubWho feedWho s₀ sync' (hubDone ++ hubLate) [] feedDone
      feedLate := by
  obtain ⟨sync', habreast, hgoing, hkept, hcache, hviews, hannounced⟩ :=
    Hub.deliver_cache h.kept h.going h.hubAbreast h.hubCache
  obtain ⟨hsame, hothers⟩ := Hub.deliver_frame h.kept st.store
  have hfeed := h.feedAbreast.other hsame fun backlog hw =>
    hothers _ _ _ (by rw [h.hubAbreast.name]; exact hne.symm) hw
  have hlog : Op.log (hubDone ++ hubLate) s₀ =
      Op.log hubDone s₀ ++ Op.log hubLate (Op.runAll hubDone s₀) := Op.log_append hubDone hubLate s₀
  refine ⟨sync', { h with
    ops := by rw [List.append_nil, h.ops]
    going := hgoing
    kept := hkept
    hubAbreast := habreast
    feedAbreast := hfeed
    hubAnnounced := ?_
    hubCache := ?_
    looks := ?_ }⟩
  · show st.hubAnnounced ++ _ = (st.listedLook :: (st.looks ++ _)).flatMap _
    rw [hannounced, h.hubAnnounced, ← List.cons_append, List.flatMap_append]
  · rw [hlog, Cache.afterShares_append]
    exact hcache
  · show (st.looks ++ _).map _ = _
    rw [List.map_append, h.looks, hviews, hlog, sharesUnder_append, Cache.heard_append,
      List.map_append, Cache.afterShares_all]

/-- The feed delivers. -/
theorem Sound.deliverFeed
    (h : st.Sound c₀ hubWho feedWho s₀ sync hubDone hubLate feedDone feedLate)
    (hne : hubWho ≠ feedWho) :
    (st.step .feed).Sound c₀ hubWho feedWho s₀ sync hubDone hubLate (feedDone ++ feedLate) [] := by
  obtain ⟨hnext, hnow, hlater, hannounced⟩ := Feed.deliver_abreast h.feedAbreast h.feedCache
  obtain ⟨hsame, hothers⟩ := Feed.deliver_frame st.feed st.store
  have hhub := h.hubAbreast.other hsame fun backlog hw =>
    hothers _ _ _ (by rw [h.feedAbreast.name]; exact hne) hw
  have hlog : Op.log (feedDone ++ feedLate) s₀ =
      Op.log feedDone s₀ ++ Op.log feedLate (Op.runAll feedDone s₀) :=
    Op.log_append feedDone feedLate s₀
  refine { h with
    ops := by rw [List.append_nil, h.ops]
    hubAbreast := hhub
    feedAbreast := hnext
    feedAnnounced := ?_
    feedCache := ?_
    moments := ?_ }
  · show st.feedAnnounced ++ _ = (st.listedMoment :: (st.moments ++ _)).flatMap _
    rw [hannounced, h.feedAnnounced, ← List.cons_append, List.flatMap_append]
  · rw [hlog, Cache.afterShares_append]
    exact hnow
  · show st.moments ++ _ = _
    rw [h.moments, hlater, hlog, sharesUnder_append, List.map_append, Cache.momentsOf_append]
    rfl

theorem Sound.run {moves : List TwinMove}
    (h : st.Sound c₀ hubWho feedWho s₀ sync hubDone hubLate feedDone feedLate)
    (hne : hubWho ≠ feedWho)
    (hmoves : ∀ op, TwinMove.op op ∈ moves →
      op.subscriber? ≠ some hubWho ∧ op.subscriber? ≠ some feedWho) :
    ∃ sync' hubDone' hubLate' feedDone' feedLate',
      (st.run moves).Sound c₀ hubWho feedWho s₀ sync' hubDone' hubLate' feedDone' feedLate' := by
  induction moves generalizing st sync hubDone hubLate feedDone feedLate with
  | nil => exact ⟨_, _, _, _, _, h⟩
  | cons move moves ih =>
    have hrest : ∀ op, TwinMove.op op ∈ moves →
        op.subscriber? ≠ some hubWho ∧ op.subscriber? ≠ some feedWho :=
      fun op hop => hmoves op (List.mem_cons_of_mem _ hop)
    cases move with
    | op o =>
      obtain ⟨hhub, hfeed⟩ := hmoves o List.mem_cons_self
      exact ih (h.op hhub hfeed) hrest
    | hub =>
      obtain ⟨sync', hnext⟩ := h.deliverHub hne
      exact ih hnext hrest
    | feed => exact ih (h.deliverFeed hne) hrest

/-- The hub starts with the list. -/
theorem start_hub (caches : CacheSet) (c : Cache k.Obj) (who : Subscriber) (s : Store) :
    ∃ sync, sync.Abreast who "" s [] []
        (Hub.start { Hub.empty with caches := caches.set k (some c) } who s).2.2.2 ∧
      (Hub.start { Hub.empty with caches := caches.set k (some c) } who s).2.1.cancelled = false ∧
      (Hub.start { Hub.empty with caches := caches.set k (some c) } who s).2.1.sync = some sync ∧
      (Hub.start { Hub.empty with caches := caches.set k (some c) } who s).2.1.caches.get k =
        some (sync.leave (c.afterDeliveries (Sync.start who (Entity.typePrefix k.Obj) s).2.1)) ∧
      announcedOf k (Hub.start { Hub.empty with caches := caches.set k (some c) } who s).2.2.1 =
        c.announcedBy (Sync.start who (Entity.typePrefix k.Obj) s).2.1 := by
  set h₀ : Hub := { Hub.empty with caches := caches.set k (some c) } with hh₀
  obtain ⟨ha, hlist, -⟩ := Sync.start_abreast who "" s
  obtain ⟨-, hown, -⟩ := Sync.start_abreast who (Entity.typePrefix k.Obj) s
  set sync := (Sync.start who "" s).1
  have hshare : (Sync.start who "" s).2.1.flatMap (·.shareOf k) =
      (Sync.start who (Entity.typePrefix k.Obj) s).2.1 := by
    rw [hlist, hown]
    split
    · rfl
    · exact Delivery.shareOf_listing s.contents s.revision k
  have hregistered : h₀.caches.get k = some c := PerKind.get_set_self _ _ _
  obtain ⟨hcache, hannounced⟩ := Hub.receiveAll_share (Sync.start who "" s).2.1 hregistered
  rw [hshare] at hcache hannounced
  obtain ⟨hgoing, hkept⟩ := Hub.keep_frame (Hub.receiveAll (Sync.start who "" s).2.1 h₀).1 sync
  have hlisted : ((Hub.receiveAll (Sync.start who "" s).2.1 h₀).1.keep sync).caches.get k =
      some (sync.leave (c.afterDeliveries (Sync.start who (Entity.typePrefix k.Obj) s).2.1)) := by
    rw [Hub.keep_caches, hcache]
    rfl
  -- nothing has come in yet
  obtain ⟨sync', ha', hgoing', hkept', hcache', hviews, hlive⟩ :=
    Hub.deliver_cache hkept (hgoing.trans (Hub.receiveAll_frame _ _).1) ha hlisted
  have hnothing : c.afterDeliveries (Sync.start who (Entity.typePrefix k.Obj) s).2.1 =
      (c.afterDeliveries (Sync.start who (Entity.typePrefix k.Obj) s).2.1).afterShares
        (Op.log [] (Op.runAll [] s)) := rfl
  have hlooks : Hub.looks ((Hub.receiveAll (Sync.start who "" s).2.1 h₀).1.keep sync)
      (Sync.start who "" s).2.2 = [] := List.map_eq_nil_iff.1 hviews
  rw [hlooks, List.flatMap_nil] at hlive
  rw [Hub.start_parts rfl, hlive, List.append_nil, hannounced, hnothing]
  exact ⟨sync', ha', hgoing', hkept', hcache', rfl⟩

/-- Both copies start with the list. -/
theorem Sound.start (caches : CacheSet) (c : Cache k.Obj) (hne : hubWho ≠ feedWho) (s : Store) :
    ∃ c₀ sync, (start k caches c hubWho feedWho s).Sound c₀ hubWho feedWho s sync [] [] [] [] := by
  obtain ⟨sync, ha, hgoing, hkept, hcache, hannounced⟩ := start_hub caches c hubWho s
  set served := Hub.start { Hub.empty with caches := caches.set k (some c) } hubWho s
  obtain ⟨hsync, hfed, hfeedAnnounced, hstore⟩ := Feed.start_parts c feedWho served.2.2.2
  obtain ⟨hown, hlist, hothers⟩ :=
    Sync.start_abreast feedWho (Entity.typePrefix k.Obj) served.2.2.2
  have hsame : served.2.2.2.SameKeys s := ha.store
  -- the two syncs list the same records
  have hlists : (Sync.start feedWho (Entity.typePrefix k.Obj) served.2.2.2).2.1 =
      (Sync.start hubWho (Entity.typePrefix k.Obj) s).2.1 := by
    rw [hlist, (Sync.start_abreast hubWho (Entity.typePrefix k.Obj) s).2.1, hsame.contents,
      hsame.revision, hsame.closed]
  rw [hlists] at hfed hfeedAnnounced
  set c₀ := c.afterDeliveries (Sync.start hubWho (Entity.typePrefix k.Obj) s).2.1
  set ownSync := (Sync.start feedWho (Entity.typePrefix k.Obj) served.2.2.2).1
  have hgoes : ownSync.outcome = none ↔ s.closed = false := by
    rw [hown.going]
    exact iff_of_eq (congrArg (· = false) hsame.closed)
  have hleave : sync.leave c₀ = ownSync.leave c₀ := by
    have houtcome : sync.outcome.isSome = ownSync.outcome.isSome := by
      rw [Bool.eq_iff_iff, Option.isSome_iff_ne_none, Option.isSome_iff_ne_none, Ne, Ne, hgoes,
        ha.going]
      rfl
    unfold Sync.leave
    rw [houtcome]
  refine ⟨c₀, sync, rfl, hgoing, ?listed, ?cached, ?hubAnnounced, ?feedAnnounced, hkept, ?hub,
    hcache, rfl, ?feed, ?feedCache, rfl⟩
  case listed =>
    show (served.2.1.caches.get k).map _ =
      some (⟨(Feed.start c feedWho served.2.2.2).1.cache, _⟩ : Moment k.Obj)
    rw [hcache, hfed, hleave, hfeedAnnounced]
    exact congrArg (fun l => some (⟨ownSync.leave c₀, l⟩ : Moment k.Obj)) hannounced
  case cached =>
    show (Feed.start c feedWho served.2.2.2).1.cache = c₀ ∨ _
    rw [hfed]
    unfold Sync.leave
    by_cases hnone : ownSync.outcome = none
    · rw [hnone]
      exact .inl rfl
    · rw [hgoes, Bool.not_eq_false] at hnone
      exact .inr hnone
  case hubAnnounced => exact (List.append_nil _).symm
  case feedAnnounced => exact (List.append_nil _).symm
  case hub =>
    show sync.Abreast hubWho "" s [] [] (Feed.start c feedWho served.2.2.2).2.2
    rw [hstore]
    exact ha.other (hown.store) fun backlog hw => hothers _ _ _ hne.symm hw
  case feed =>
    show (Feed.start c feedWho served.2.2.2).1.sync.Abreast feedWho _ s [] []
      (Feed.start c feedWho served.2.2.2).2.2
    rw [hstore, hsync]
    exact ⟨hown.name, hown.store.trans hsame, hown.waiting, hgoes⟩
  case feedCache =>
    show (Feed.start c feedWho served.2.2.2).1.cache =
      (Feed.start c feedWho served.2.2.2).1.sync.leave c₀
    rw [hsync, hfed]

/-! ### What this says of the two copies -/

/-- What the hub's copy shows after commits of its type is what a sync of its own would have led it
through. -/
theorem Sound.shown (h : st.Sound c₀ hubWho feedWho s₀ sync hubDone hubLate feedDone feedLate) :
    st.shown = Cache.momentsOf
      ((sharesUnder (Entity.typePrefix k.Obj) (Op.log hubDone s₀)).map markMore) c₀ := by
  have hviews : st.shown = ((st.looks.map fun look => (look.commit, look.of k)).filter fun x =>
      eventsUnder (Entity.typePrefix k.Obj) x.1 ≠ []).filterMap (·.2) := by
    rw [List.filter_map, List.filterMap_map]
    rfl
  rw [hviews, h.looks, List.filter_map, List.filterMap_map,
    ← sharesUnder_all (Entity.typePrefix k.Obj) (Op.log hubDone s₀), Cache.momentsOf_shares]
  exact congrFun (List.filterMap_eq_map (f := fun x : List WatchEvent × Moment k.Obj => x.2)) _

theorem momentsOf_early {early ops : List Op} (h : early <+: ops) (scope : String) (s : Store)
    (c : Cache k.Obj) :
    Cache.momentsOf ((sharesUnder scope (Op.log early s)).map markMore) c <+:
      Cache.momentsOf ((sharesUnder scope (Op.log ops s)).map markMore) c := by
  obtain ⟨late, rfl⟩ := h
  rw [Op.log_append, sharesUnder_append, List.map_append, Cache.momentsOf_append]
  exact List.prefix_append _ _

theorem Sound.alike (h : st.Sound c₀ hubWho feedWho s₀ sync hubDone hubLate feedDone feedLate) :
    st.Alike where
  listed := h.listed
  registered := by
    intro look hlook
    have hmem : (look.commit, look.of k) ∈ st.looks.map fun look => (look.commit, look.of k) :=
      List.mem_map_of_mem hlook
    rw [h.looks] at hmem
    obtain ⟨x, -, hx⟩ := List.mem_map.1 hmem
    have hsome : some x.2 = look.of k := congrArg Prod.snd hx
    rw [← hsome]
    rfl
  idle := by
    have hchain : (((st.listedLook :: st.looks).map fun look => (look.commit, look.of k)) :
        List (List WatchEvent × Option (Moment k.Obj))).IsChain fun x y =>
          eventsUnder (Entity.typePrefix k.Obj) y.1 = [] →
            y.2 = x.2.map fun moment => ⟨moment.cache, []⟩ := by
      rw [List.map_cons, h.looks]
      rcases h.cached with hcached | hclosed
      · -- the first look shows what the copy is led on from
        have hfirst : (st.listedLook.commit, st.listedLook.of k) =
            (fun x : List WatchEvent × Moment k.Obj => (x.1, some x.2))
              (st.listedLook.commit, ⟨c₀, st.listedMoment.announced⟩) := by
          rw [h.listed, ← hcached]
        rw [hfirst]
        refine (List.isChain_map fun x : List WatchEvent × Moment k.Obj => (x.1, some x.2)).2
          ((Cache.heard_isChain _ c₀ st.listedMoment.announced _).imp fun x y hxy hnone => ?_)
        exact congrArg some (hxy hnone)
      · have hnothing : sharesUnder "" (Op.log hubDone s₀) = [] :=
          Op.commitsUnder_of_closed hclosed "" hubDone
        rw [hnothing]
        exact .singleton _
    exact (List.isChain_map _).1 hchain
  course := by
    rw [h.shown, h.moments]
    have hearlier : hubDone <+: feedDone ∨ feedDone <+: hubDone :=
      List.prefix_or_prefix_of_prefix ⟨hubLate, rfl⟩ ⟨feedLate, h.ops.symm⟩
    rcases hearlier with hearlier | hearlier
    · exact .inl (momentsOf_early hearlier _ s₀ c₀)
    · exact .inr (momentsOf_early hearlier _ s₀ c₀)
  hubAnnounced := h.hubAnnounced
  feedAnnounced := h.feedAnnounced

/-- A commit that changes nothing of a type leads to no announcement of it, so all that is announced
of the hub's copy is announced after the list and after the other commits. -/
theorem Sound.announcedOf_looks
    (h : st.Sound c₀ hubWho feedWho s₀ sync hubDone hubLate feedDone feedLate) :
    announcedOf k (st.looks.flatMap (·.announced)) = st.shown.flatMap (·.announced) := by
  have hlooks : announcedOf k (st.looks.flatMap (·.announced)) =
      (st.looks.map fun look => (look.commit, look.of k)).flatMap
        fun x => (x.2.map (·.announced)).getD [] := by
    have hall : ∀ look ∈ st.looks, ((look.of k).map (·.announced)).getD [] =
        announcedOf k look.announced := by
      intro look hlook
      have hsome := h.alike.registered look hlook
      unfold HubLook.of at hsome ⊢
      cases hc : look.hub.caches.get k with
      | none => rw [hc] at hsome; cases hsome
      | some c => rfl
    rw [List.flatMap_map]
    revert hall
    generalize st.looks = looks
    intro hall
    induction looks with
    | nil => rfl
    | cons look looks ih =>
      rw [List.flatMap_cons, announcedOf_append, List.flatMap_cons,
        hall look List.mem_cons_self, ih fun l hl => hall l (List.mem_cons_of_mem _ hl)]
  rw [hlooks, h.looks, h.shown, ← sharesUnder_all (Entity.typePrefix k.Obj),
    Cache.momentsOf_shares]
  generalize sharesUnder "" (Op.log hubDone s₀) = cs
  clear hlooks h
  induction cs generalizing c₀ with
  | nil => rfl
  | cons es cs ih =>
    rw [Cache.heard, List.map_cons, List.flatMap_cons, ih]
    by_cases hshare : eventsUnder (Entity.typePrefix k.Obj) es = []
    · rw [List.filter_cons_of_neg (by simp [Cache.eventsUnder_marked_eq_nil, hshare]),
        Cache.hear_of_nil hshare]
      rfl
    · rw [List.filter_cons_of_pos (by simp [Cache.eventsUnder_marked_eq_nil, hshare])]
      rfl

/-- Two copies that have received all commits are level. -/
theorem Sound.level (h : st.Sound c₀ hubWho feedWho s₀ sync hubDone [] feedDone []) :
    st.Level := by
  have hops : hubDone = feedDone := by
    have hops := h.ops
    rw [List.append_nil, List.append_nil] at hops
    exact hops
  have hcourse : st.shown = st.moments := by rw [h.shown, h.moments, hops]
  -- both syncs have ended, or none
  have houtcome : sync.outcome.isSome = st.feed.sync.outcome.isSome := by
    rw [Bool.eq_iff_iff, Option.isSome_iff_ne_none, Option.isSome_iff_ne_none, Ne, Ne,
      h.hubAbreast.going, h.feedAbreast.going, hops]
  refine ⟨hcourse, ?_, ?_⟩
  · have hlisted : announcedOf k st.listedLook.announced = st.listedMoment.announced := by
      have hof := h.listed
      unfold HubLook.of at hof
      obtain ⟨c, -, hc⟩ := Option.map_eq_some_iff.1 hof
      exact congrArg Moment.announced hc
    rw [h.hubAnnounced, h.feedAnnounced, List.flatMap_cons, List.flatMap_cons,
      announcedOf_append, hlisted, h.announcedOf_looks, hcourse]
  · rw [h.hubCache, h.feedCache, hops]
    unfold Sync.leave
    rw [houtcome]

end Twins

/-- **A hub feeds a cache as a sync of its own would.** On any store a hub is started for the first
time, with a cache and any others registered, and then a sync of another copy of this cache alone,
at the same revision; then others use the store, and the two deliver when they like. At any time
the two copies are alike; once both have delivered what came in they are level. -/
theorem hub_feeds_as_own_sync (k : Kind) (caches : CacheSet) (c : Cache k.Obj)
    (hubWho feedWho : Subscriber) (s : Store) (moves : List TwinMove) (hne : hubWho ≠ feedWho)
    (hmoves : ∀ op, TwinMove.op op ∈ moves →
      op.subscriber? ≠ some hubWho ∧ op.subscriber? ≠ some feedWho) :
    ((Twins.start k caches c hubWho feedWho s).run moves).Alike ∧
      ((Twins.start k caches c hubWho feedWho s).run (moves ++ [.hub, .feed])).Level := by
  obtain ⟨c₀, sync, hstart⟩ := Twins.Sound.start caches c hne s
  obtain ⟨sync', hubDone, hubLate, feedDone, feedLate, hrun⟩ := hstart.run hne hmoves
  obtain ⟨sync'', hhub⟩ := hrun.deliverHub hne
  have hfeed := hhub.deliverFeed hne
  refine ⟨hrun.alike, ?_⟩
  unfold Twins.run
  rw [List.foldl_append]
  exact hfeed.level

namespace Side

/-- A hub for operators too. -/
def caches : CacheSet :=
  (PerKind.ofFn fun _ => none : CacheSet).set .operator (some (.empty _))

def hubWho : Subscriber := .feed 0

def feedWho : Subscriber := .feed 1

def operator : Operator := ⟨[], ⟨"o"⟩⟩

/-- A flavor of some size. -/
def sized (ram : UInt64) : Flavor := ⟨[], ⟨"a"⟩, ram, 1, 0⟩

def put (f : Flavor) : Write := .put (@Entity.storeKey Flavor _ f.key) (Entity.encode f)

def commit (ws : List Write) : Op := .txn ⟨[], none, ws⟩

/-- A flavor comes with an operator, grows while its record stands at another key too, and becomes
unreadable; the other writes are of no type or of one that nobody follows. The two syncs deliver at
different times. -/
def moves : List TwinMove :=
  [.op (commit [put (sized 1), .put (@Entity.storeKey Operator _ operator.key)
      (Entity.encode operator)]),
    .feed,
    .op (commit [.put "Flavor" [1], .put "Flavors/a" [2]]),
    .op (commit [put (sized 2), .put "Flavor/other" (Entity.encode (sized 3))]),
    .hub,
    .op (commit [.put (@Entity.storeKey Flavor _ (sized 2).key) [255], .delete "Flavor/other"]),
    .feed]

theorem others (op : Op) (h : TwinMove.op op ∈ moves) :
    op.subscriber? ≠ some hubWho ∧ op.subscriber? ≠ some feedWho := by
  simp only [moves, List.mem_cons, TwinMove.op.injEq, reduceCtorEq, List.not_mem_nil, or_false,
    false_or] at h
  rcases h with rfl | rfl | rfl | rfl <;>
    exact ⟨(Option.some_ne_none hubWho).symm, (Option.some_ne_none feedWho).symm⟩

end Side

open Side in
/-- The copy with a sync of its own is ahead by a commit; the hub has looked at a commit of no type
in between. -/
theorem hub_feeds_as_own_sync_in_turn :
    (∀ op, TwinMove.op op ∈ moves →
      op.subscriber? ≠ some hubWho ∧ op.subscriber? ≠ some feedWho) ∧
    (((Twins.start .flavor caches (.empty _) hubWho feedWho .empty).run moves).looks.length,
      ((Twins.start .flavor caches (.empty _) hubWho feedWho .empty).run moves).shown.length,
      ((Twins.start .flavor caches (.empty _) hubWho feedWho .empty).run moves).moments.length) =
        (3, 2, 3) ∧
    ((Twins.start .flavor caches (.empty _) hubWho feedWho .empty).run moves).Alike ∧
      ((Twins.start .flavor caches (.empty _) hubWho feedWho .empty).run
        (moves ++ [.hub, .feed])).Level := by
  have hsides : hubWho ≠ feedWho := by decide
  exact ⟨others, by decide +kernel,
    hub_feeds_as_own_sync .flavor caches (.empty _) hubWho feedWho .empty moves hsides others⟩

end Inventory
