import Inventory.Hub
import Inventory.Proofs.Cache

/-!
# How a hub feeds its caches

* `Hub.kindOf?_eq_some_iff`: a store key belongs to a type by what it starts with.
* `Hub.receive_caches`: **a hub gives each cache its own share of a delivery**, and nothing else.
* `Hub.mem_moments`: when a cache tells what a commit has changed, **the caches that are fed after
  it have not got their shares yet**, and all others have.
-/

namespace Inventory

theorem Kind.mem_all (k : Kind) : k ∈ Kind.all := by cases k <;> decide

namespace Hub

variable {h h' : Hub} {j k : Kind} {es : List WatchEvent}

/-! ## The types of store keys -/

theorem mem_kinds : k ∈ h.kinds ↔ (h.caches.get k).isSome = true := by
  unfold kinds
  rw [List.mem_filter]
  exact and_iff_right k.mem_all

theorem kinds_nodup (h : Hub) : h.kinds.Nodup :=
  List.filter_sublist.nodup (by decide : Kind.all.Nodup)

theorem kinds_congr (heq : ∀ k, (h.caches.get k).isSome = (h'.caches.get k).isSome) :
    h.kinds = h'.kinds :=
  List.filter_congr fun k _ => heq k

/-- **A store key belongs to a type by what it starts with**, if a cache is registered for the
type. -/
theorem kindOf?_eq_some_iff {key : String} :
    h.kindOf? key = some k ↔
      (h.caches.get k).isSome = true ∧ Text.hasPrefix (Entity.typePrefix k.Obj) key = true := by
  unfold kindOf?
  constructor
  · intro hk
    obtain ⟨⟨name, rest⟩, hsplit, hfind⟩ := Option.bind_eq_some_iff.1 hk
    have hname : k.name = name :=
      eq_of_beq (List.find?_some (p := fun i : Kind => i.name == name) hfind)
    rw [← hname] at hsplit
    exact ⟨mem_kinds.1 (List.mem_of_find?_eq_some hfind),
      Entity.hasPrefix_of_splitStoreKey (α := k.Obj) hsplit⟩
  · rintro ⟨hk, hprefix⟩
    obtain ⟨rest, hsplit⟩ := Entity.splitStoreKey_of_prefix hprefix
    rw [hsplit]
    show h.kinds.find? (fun i => i.name == k.name) = some k
    -- there is a type of this name, and no other one has it
    cases hfind : h.kinds.find? (fun i => i.name == k.name) with
    | none => exact absurd (beq_self_eq_true k.name) (List.find?_eq_none.1 hfind k (mem_kinds.2 hk))
    | some i =>
      have hname : (i.name == k.name) = true :=
        List.find?_some (p := fun i : Kind => i.name == k.name) hfind
      rw [Kind.name_injective (eq_of_beq hname)]

/-- The share of a registered cache in a commit. -/
theorem eventsOf_eq (hk : (h.caches.get k).isSome = true) (es : List WatchEvent) :
    h.eventsOf k es = eventsUnder (Entity.typePrefix k.Obj) es := by
  refine List.filter_congr fun e _ => ?_
  rw [Bool.eq_iff_iff, beq_iff_eq, kindOf?_eq_some_iff]
  exact and_iff_right hk

/-- Collecting without repetitions. -/
theorem foldl_collect (ks seen : List Kind) (hseen : seen.Nodup) :
    (ks.foldl (fun seen k => if seen.contains k then seen else seen ++ [k]) seen).Nodup ∧
      ∀ k, k ∈ ks.foldl (fun seen k => if seen.contains k then seen else seen ++ [k]) seen ↔
        k ∈ seen ∨ k ∈ ks := by
  induction ks generalizing seen with
  | nil => exact ⟨hseen, fun k => ⟨.inl, fun h => h.elim id (nomatch ·)⟩⟩
  | cons i ks ih =>
    rw [List.foldl_cons]
    by_cases hi : i ∈ seen
    · rw [if_pos (List.contains_iff_mem.2 hi)]
      obtain ⟨hnodup, hmem⟩ := ih seen hseen
      refine ⟨hnodup, fun k => (hmem k).trans ?_⟩
      rw [List.mem_cons]
      exact ⟨Or.imp_right .inr, fun h => h.elim .inl
        (·.elim (fun hk => .inl (hk ▸ hi)) .inr)⟩
    · rw [if_neg fun hc => hi (List.contains_iff_mem.1 hc)]
      have hnew : (seen ++ [i]).Nodup := by
        rw [List.nodup_append]
        refine ⟨hseen, List.nodup_cons.2 ⟨List.not_mem_nil, List.nodup_nil⟩, fun a ha b hb => ?_⟩
        rw [List.mem_singleton.1 hb]
        rintro rfl
        exact hi ha
      obtain ⟨hnodup, hmem⟩ := ih _ hnew
      refine ⟨hnodup, fun k => (hmem k).trans ?_⟩
      rw [List.mem_append, List.mem_singleton, List.mem_cons, or_assoc]

theorem kindsSeen_nodup (h : Hub) (es : List WatchEvent) : (h.kindsSeen es).Nodup :=
  (foldl_collect _ [] List.nodup_nil).1

/-- A commit is about the types of the registered caches that have a share in it. -/
theorem mem_kindsSeen :
    k ∈ h.kindsSeen es ↔
      (h.caches.get k).isSome = true ∧ eventsUnder (Entity.typePrefix k.Obj) es ≠ [] := by
  unfold kindsSeen
  rw [(foldl_collect _ [] List.nodup_nil).2, List.mem_filterMap]
  simp only [List.not_mem_nil, false_or, kindOf?_eq_some_iff]
  constructor
  · rintro ⟨e, he, hk, hprefix⟩
    exact ⟨hk, List.ne_nil_of_mem (List.mem_filter.2 ⟨he, hprefix⟩)⟩
  · rintro ⟨hk, hne⟩
    obtain ⟨e, he⟩ := List.exists_mem_of_ne_nil _ hne
    obtain ⟨he, hprefix⟩ := List.mem_filter.1 he
    exact ⟨e, he, hk, hprefix⟩

/-! ## Steps -/

/-- What feeding a cache does to the caches of a hub. -/
theorem step_feed_caches (h : Hub) (k : Kind) (d : Delivery) (j : Kind) :
    (h.step (.feed k d)).1.caches.get j =
      if j = k then (h.caches.get j).map fun c => (c.receiveDelivery d).1
      else h.caches.get j := by
  by_cases hj : j = k
  · subst hj
    rw [if_pos rfl]
    cases hk : h.caches.get j with
    | none => simp only [step, hk, Option.map_none]
    | some c => simp only [step, hk, PerKind.get_set_self, Option.map_some]
  · rw [if_neg hj]
    cases hk : h.caches.get k with
    | none => simp only [step, hk]
    | some c => simp only [step, hk, PerKind.get_set_of_ne _ _ hj]

/-- Only the caches and the revision of a hub change by a step. -/
theorem step_frame (h : Hub) (s : HubStep) :
    (h.step s).1.cancelled = h.cancelled ∧ (h.step s).1.sync = h.sync := by
  cases s with
  | publish rev endOfList => exact ⟨rfl, rfl⟩
  | feed k d =>
    unfold step
    cases hk : h.caches.get k with
    | none => simp only [hk, and_self]
    | some c => simp only [hk, and_self]

theorem runSteps_frame (ss : List HubStep) (h : Hub) :
    (runSteps ss h).1.cancelled = h.cancelled ∧ (runSteps ss h).1.sync = h.sync := by
  induction ss generalizing h with
  | nil => exact ⟨rfl, rfl⟩
  | cons s ss ih =>
    obtain ⟨h1, h2⟩ := ih (h.step s).1
    obtain ⟨h3, h4⟩ := h.step_frame s
    exact ⟨h1.trans h3, h2.trans h4⟩

/-- Steps that feed caches one after another, and then no cache: each cache that is fed receives
what it is fed. -/
theorem runSteps_caches {ks : List Kind} (hnodup : ks.Nodup) (d : Kind → Delivery)
    {rest : List HubStep} (hrest : ∀ k d, .feed k d ∉ rest) (h : Hub) (j : Kind) :
    (runSteps (ks.map (fun k => .feed k (d k)) ++ rest) h).1.caches.get j =
      if j ∈ ks then (h.caches.get j).map fun c => (c.receiveDelivery (d j)).1
      else h.caches.get j := by
  induction ks generalizing h with
  | nil =>
    rw [if_neg List.not_mem_nil]
    show (runSteps rest h).1.caches.get j = _
    induction rest generalizing h with
    | nil => rfl
    | cons s rest ih =>
      refine (ih (fun k d hmem => hrest k d (List.mem_cons_of_mem _ hmem)) _).trans ?_
      cases s with
      | feed k d => exact absurd List.mem_cons_self (hrest k d)
      | publish rev endOfList => rfl
  | cons k ks ih =>
    obtain ⟨hk, hks⟩ := List.nodup_cons.1 hnodup
    refine (ih hks (h.step (.feed k (d k))).1).trans ?_
    rw [step_feed_caches]
    by_cases hj : j = k
    · subst hj
      rw [if_neg hk, if_pos rfl, if_pos List.mem_cons_self]
    · rw [if_neg hj]
      simp only [List.mem_cons, hj, false_or]

end Hub

/-- The part of a delivery that is about a type. -/
def Delivery.shareOf (j : Kind) : Delivery → List Delivery
  | .listStart => [.listStart]
  | .record r rev =>
    if Text.hasPrefix (Entity.typePrefix j.Obj) r.key then [.record r rev] else []
  | .listEnd rev => [.listEnd rev]
  | .commit es =>
    if eventsUnder (Entity.typePrefix j.Obj) es = [] then []
    else [.commit (eventsUnder (Entity.typePrefix j.Obj) es)]

namespace Hub

variable {h : Hub}

theorem map_afterDeliveries_nil {α : Type} [Entity α] (o : Option (Cache α)) :
    o.map (Cache.afterDeliveries []) = o := by
  cases o <;> rfl

theorem feed_all_caches (h : Hub) (d : Delivery) {rest : List HubStep}
    (hrest : ∀ k d, .feed k d ∉ rest) (j : Kind) :
    (runSteps (h.kinds.map (.feed · d) ++ rest) h).1.caches.get j =
      (h.caches.get j).map (Cache.afterDeliveries [d]) := by
  rw [runSteps_caches h.kinds_nodup (fun _ => d) hrest]
  split
  · rfl
  · rename_i hj
    rw [mem_kinds, Option.not_isSome_iff_eq_none] at hj
    rw [hj]
    rfl

/-- **A hub gives each cache its own share of a delivery**, and nothing else. -/
theorem receive_caches (h : Hub) (d : Delivery) (j : Kind) :
    (h.receive d).1.caches.get j = (h.caches.get j).map (Cache.afterDeliveries (d.shareOf j)) := by
  unfold receive
  cases d with
  | listStart =>
    have hall := h.feed_all_caches .listStart (fun _ _ => List.not_mem_nil) j
    rw [List.append_nil] at hall
    exact hall
  | listEnd rev => exact h.feed_all_caches (.listEnd rev) (by simp) j
  | record r rev =>
    have hone : ((h.kindOf? r.key).toList).Nodup := by
      cases h.kindOf? r.key <;> simp
    have hfed := runSteps_caches hone (fun _ => .record r rev) (fun _ _ => List.not_mem_nil) h j
    rw [List.append_nil] at hfed
    refine hfed.trans ?_
    have hmem : j ∈ (h.kindOf? r.key).toList ↔ (h.caches.get j).isSome = true ∧
        Text.hasPrefix (Entity.typePrefix j.Obj) r.key = true :=
      Option.mem_toList.trans kindOf?_eq_some_iff
    simp only [Delivery.shareOf]
    cases hc : h.caches.get j with
    | none => split <;> rfl
    | some c =>
      rw [hc] at hmem
      by_cases hp : Text.hasPrefix (Entity.typePrefix j.Obj) r.key = true
      · rw [if_pos (hmem.2 ⟨rfl, hp⟩), if_pos hp]; rfl
      · rw [if_neg fun hj => hp (hmem.1 hj).2, if_neg hp]; rfl
  | commit es =>
    cases hlast : es.getLast? with
    | none =>
      rw [List.getLast?_eq_none_iff] at hlast
      subst hlast
      exact (map_afterDeliveries_nil _).symm
    | some last =>
      have hfed := runSteps_caches (h.kindsSeen_nodup es) (fun k => .commit (h.eventsOf k es))
        (by simp : ∀ k d, HubStep.feed k d ∉ [.publish last.revision false]) h j
      simp only [steps, hlast]
      refine hfed.trans ?_
      simp only [Delivery.shareOf]
      cases hc : h.caches.get j with
      | none => split <;> rfl
      | some c =>
        have hj : (h.caches.get j).isSome = true := by rw [hc]; rfl
        by_cases hshare : eventsUnder (Entity.typePrefix j.Obj) es = []
        · rw [if_neg fun hseen => (mem_kindsSeen.1 hseen).2 hshare, if_pos hshare]; rfl
        · rw [if_pos (mem_kindsSeen.2 ⟨hj, hshare⟩), if_neg hshare, eventsOf_eq hj]; rfl

theorem receive_frame (h : Hub) (d : Delivery) :
    (h.receive d).1.cancelled = h.cancelled ∧ (h.receive d).1.sync = h.sync :=
  runSteps_frame _ h

/-- A hub gives each cache its own share of the deliveries. -/
theorem receiveAll_caches (ds : List Delivery) (h : Hub) (j : Kind) :
    (receiveAll ds h).1.caches.get j =
      (h.caches.get j).map (Cache.afterDeliveries (ds.flatMap (·.shareOf j))) := by
  induction ds generalizing h with
  | nil => exact (map_afterDeliveries_nil _).symm
  | cons d ds ih =>
    refine (ih (h.receive d).1).trans ?_
    rw [receive_caches, Option.map_map, List.flatMap_cons]
    refine Option.map_congr fun c _ => ?_
    exact (Cache.afterDeliveries_append ..).symm

theorem receiveAll_frame (ds : List Delivery) (h : Hub) :
    (receiveAll ds h).1.cancelled = h.cancelled ∧ (receiveAll ds h).1.sync = h.sync := by
  induction ds generalizing h with
  | nil => exact ⟨rfl, rfl⟩
  | cons d ds ih =>
    obtain ⟨h1, h2⟩ := ih (h.receive d).1
    obtain ⟨h3, h4⟩ := h.receive_frame d
    exact ⟨h1.trans h3, h2.trans h4⟩

end Hub

/-- The share of a type in the list of a store is the list of its records. -/
theorem Delivery.shareOf_listing (m : Contents) (rev : Revision) (j : Kind) :
    (listing (m.scan "") rev).flatMap (·.shareOf j) =
      listing (m.scan (Entity.typePrefix j.Obj)) rev := by
  have hrecords (rs : List KvRecord) : (rs.map (Delivery.record · rev)).flatMap (·.shareOf j) =
      (rs.filter fun r => Text.hasPrefix (Entity.typePrefix j.Obj) r.key).map (.record · rev) := by
    induction rs with
    | nil => rfl
    | cons r rs ih =>
      rw [List.map_cons, List.flatMap_cons, ih]
      simp only [shareOf]
      by_cases hp : Text.hasPrefix (Entity.typePrefix j.Obj) r.key = true
      · rw [if_pos hp, List.filter_cons, if_pos hp]; rfl
      · rw [if_neg hp, List.filter_cons, if_neg hp]; rfl
  have hscan : (m.scan "").filter (fun r => Text.hasPrefix (Entity.typePrefix j.Obj) r.key) =
      m.scan (Entity.typePrefix j.Obj) := by
    rw [Contents.scan_eq_filter, Contents.scan_eq_filter, List.filter_map, List.filter_filter]
    refine congrArg _ (List.filter_congr fun p _ => ?_)
    exact Bool.and_true _
  unfold listing
  rw [List.flatMap_append, List.flatMap_cons, hrecords, hscan]
  rfl

/-! ## Between two steps -/

/-- A moment at which a cache of a hub has got its share of a commit and tells what has changed. -/
structure HubMoment where
  hub : Hub
  kind : Kind
  commit : List WatchEvent
  announced : Announcements

namespace Hub

variable {h : Hub} {m : HubMoment} {es : List WatchEvent}

/-- The moments of steps that are done for a commit: one after each feeding of a cache. -/
def stepMoments (commit : List WatchEvent) : List HubStep → Hub → List HubMoment
  | [], _ => []
  | .feed k d :: ss, h =>
    ⟨(h.step (.feed k d)).1, k, commit, (h.step (.feed k d)).2⟩ ::
      stepMoments commit ss (h.step (.feed k d)).1
  | .publish rev endOfList :: ss, h => stepMoments commit ss (h.step (.publish rev endOfList)).1

/-- The moments of a commit. -/
def moments (h : Hub) (commit : List WatchEvent) : List HubMoment :=
  stepMoments commit (h.steps (.commit commit)) h

/-- In a commit a cache is fed after another one. -/
def FedAfter (h : Hub) (commit : List WatchEvent) (earlier later : Kind) : Prop :=
  [earlier, later].Sublist (h.kindsSeen commit)

instance (h : Hub) (commit : List WatchEvent) (earlier later : Kind) :
    Decidable (h.FedAfter commit earlier later) :=
  inferInstanceAs (Decidable (List.Sublist _ _))

/-- What is announced of a commit is announced at its moments. -/
theorem stepMoments_announced (commit : List WatchEvent) (ss : List HubStep) (h : Hub) :
    (runSteps ss h).2 = (stepMoments commit ss h).flatMap (·.announced) := by
  induction ss generalizing h with
  | nil => rfl
  | cons s ss ih =>
    cases s with
    | feed k d =>
      rw [stepMoments, List.flatMap_cons, ← ih]
      rfl
    | publish rev endOfList =>
      rw [stepMoments, ← ih]
      rfl

/-- A step that feeds a cache announces changes of that cache only. -/
theorem step_feed_announced (h : Hub) (k : Kind) (d : Delivery) :
    ∀ a ∈ (h.step (.feed k d)).2, a.1 = k := by
  intro a ha
  unfold step at ha
  cases hk : h.caches.get k with
  | none => simp only [hk, List.not_mem_nil] at ha
  | some c =>
    simp only [hk] at ha
    obtain ⟨_, -, rfl⟩ := List.mem_map.1 ha
    rfl

theorem mem_stepMoments {ks : List Kind} (hnodup : ks.Nodup) (d : Kind → Delivery)
    {rest : List HubStep} (hrest : ∀ k d, .feed k d ∉ rest) {h : Hub}
    (hm : m ∈ stepMoments es (ks.map (fun k => .feed k (d k)) ++ rest) h) :
    m.commit = es ∧ m.kind ∈ ks ∧ (∀ a ∈ m.announced, a.1 = m.kind) ∧
      ∀ j, m.hub.caches.get j =
        if [m.kind, j].Sublist ks then h.caches.get j
        else (runSteps (ks.map (fun k => .feed k (d k)) ++ rest) h).1.caches.get j := by
  induction ks generalizing h with
  | nil =>
    have hnone : stepMoments es rest h = [] := by
      clear hm
      induction rest generalizing h with
      | nil => rfl
      | cons s rest ih =>
        cases s with
        | feed k d => exact absurd List.mem_cons_self (hrest k d)
        | publish rev endOfList => exact ih fun k d hmem => hrest k d (List.mem_cons_of_mem _ hmem)
    rw [List.map_nil, List.nil_append, hnone] at hm
    cases hm
  | cons k ks ih =>
    obtain ⟨hk, hks⟩ := List.nodup_cons.1 hnodup
    rcases List.mem_cons.1 hm with rfl | hm
    · -- this is the moment of the first cache, and all others are still to come
      refine ⟨rfl, List.mem_cons_self, h.step_feed_announced k (d k), fun j => ?_⟩
      show (h.step (.feed k (d k))).1.caches.get j = _
      rw [step_feed_caches, runSteps_caches hnodup d hrest]
      simp only [List.cons_sublist_cons, List.singleton_sublist, List.mem_cons]
      by_cases hj : j = k
      · subst hj
        rw [if_pos rfl, if_neg hk, if_pos (.inl rfl)]
      · rw [if_neg hj]
        split
        · rfl
        · rename_i hlater
          rw [if_neg fun h => h.elim hj hlater]
    · obtain ⟨hcommit, hkind, hannounced, hcaches⟩ := ih hks hm
      refine ⟨hcommit, List.mem_cons_of_mem _ hkind, hannounced, fun j => ?_⟩
      -- the first cache was fed before
      have hsublist : [m.kind, j].Sublist (k :: ks) ↔ [m.kind, j].Sublist ks := by
        refine ⟨fun hs => ?_, fun hs => hs.cons k⟩
        rcases List.sublist_cons_iff.1 hs with hs | ⟨r, heq, -⟩
        · exact hs
        · obtain ⟨rfl, -⟩ := List.cons.inj heq
          exact absurd hkind hk
      rw [hcaches j]
      by_cases hlater : [m.kind, j].Sublist ks
      · have hj : j ∈ ks := hlater.subset (List.mem_cons_of_mem _ List.mem_cons_self)
        have hne : j ≠ k := fun h => hk (h ▸ hj)
        rw [if_pos hlater, if_pos (hsublist.2 hlater), step_feed_caches, if_neg hne]
      · rw [if_neg hlater, if_neg fun hs => hlater (hsublist.1 hs)]
        rfl

/-- **When a cache tells what a commit has changed, the caches that are fed after it have not got
their shares yet**, and all others have. -/
theorem mem_moments (hm : m ∈ h.moments es) :
    m.commit = es ∧ m.kind ∈ h.kindsSeen es ∧ (∀ a ∈ m.announced, a.1 = m.kind) ∧
      ∀ j, m.hub.caches.get j =
        if h.FedAfter es m.kind j then h.caches.get j
        else (h.receive (.commit es)).1.caches.get j := by
  unfold moments receive at *
  cases hlast : es.getLast? with
  | none => simp only [steps, hlast, stepMoments, List.not_mem_nil] at hm
  | some last =>
    simp only [steps, hlast] at hm ⊢
    exact mem_stepMoments (h.kindsSeen_nodup es) (fun k => .commit (h.eventsOf k es))
      (by simp : ∀ k d, HubStep.feed k d ∉ [.publish last.revision false]) hm

end Hub

end Inventory
