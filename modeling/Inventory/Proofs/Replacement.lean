import Inventory.Proofs.Shares

/-!
# A list replaces what a cache holds

A cache can receive a list at any time, also when it holds entities already or when it has not come
to the end of an earlier list. Several records can have entities with one key, and some records
cannot be read.

* `Cache.Reached`: a cache after some entities of a list; `Reached.list` is one more entity.
* `Cache.Reached.records`: what a cache holds and has announced after some records of a list, of
  which those count that can be read.
* `Cache.removeAll_notices`: entities that are removed are told once each.
* `list_replaces_contents`: **after a list a cache holds the entities of the list and nothing
  else**, and it has announced just the differences and what it was listed.
* `list_wakes_watchers`: a watcher is told of its key also when a list comes to it.
-/

namespace Inventory

/-! ## The entities of a list -/

section Entities

variable {α : Type} [Entity α]

variable (α) in
/-- The entities of the records that can be read, in the order of the records. -/
def entitiesOf (records : List KvRecord) : List α :=
  records.filterMap fun r => (Entity.decode r.key r.value).toOption

/-- The last of some entities with a key. -/
def lastWith (k : Entity.Key α) (objs : List α) : Option α :=
  (objs.filter fun a => compare (Entity.key a) k == .eq).getLast?

theorem lastWith_own (objs : List α) (a : α) :
    lastWith (Entity.key a) (objs ++ [a]) = some a := by
  have hkept : (compare (Entity.key a) (Entity.key a) == .eq) = true :=
    beq_iff_eq.2 Std.ReflCmp.compare_self
  have hown : [a].filter (fun x => compare (Entity.key x) (Entity.key a) == .eq) = [a] :=
    List.filter_cons_of_pos hkept
  unfold lastWith
  rw [List.filter_append, hown, List.getLast?_concat]

theorem lastWith_other {k : Entity.Key α} {a : α} (h : k ≠ Entity.key a) (objs : List α) :
    lastWith k (objs ++ [a]) = lastWith k objs := by
  have hdropped : ¬ (compare (Entity.key a) k == .eq) = true := by
    intro hsame
    exact h (Std.LawfulEqOrd.eq_of_compare (beq_iff_eq.1 hsame)).symm
  have hother : [a].filter (fun x => compare (Entity.key x) k == .eq) = [] :=
    List.filter_cons_of_neg hdropped
  unfold lastWith
  rw [List.filter_append, hother, List.append_nil]

theorem entitiesOf_concat_ok {r : KvRecord} {a : α} (h : Entity.decode r.key r.value = .ok a)
    (records : List KvRecord) : entitiesOf α (records ++ [r]) = entitiesOf α records ++ [a] := by
  unfold entitiesOf
  rw [List.filterMap_append, List.filterMap_cons, h]
  rfl

theorem entitiesOf_concat_error {r : KvRecord} {e : StoreError}
    (h : (Entity.decode r.key r.value : StoreResult α) = .error e) (records : List KvRecord) :
    entitiesOf α (records ++ [r]) = entitiesOf α records := by
  unfold entitiesOf
  rw [List.filterMap_append, List.filterMap_cons, h]
  exact List.append_nil _

end Entities

/-- A notice with the revision that the cache has when it is sent out. -/
def Announcement.dated {α : Type} [Entity α] (a : Announcement α) : Notice α × Revision :=
  (a.notice, a.revision)

namespace Cache

variable {α : Type} [Entity α] {c reached : Cache α} {k : Entity.Key α} {rev : Revision}
  {objs : List α} {a : α}

/-! ## What a list changes before its end -/

theorem asStored_own (a : α) : asStored (Entity.key a) a = Entity.clearFields a := by
  have hsame : (compare (Entity.key a) (Entity.key a) == .eq) = true :=
    beq_iff_eq.2 Std.ReflCmp.compare_self
  unfold asStored
  rw [if_pos hsame]

/-- What a cache holds under a key after some entities of a list: the last of them with the key, and
what it held before if there is none. -/
def heldAfter (c : Cache α) (objs : List α) (k : Entity.Key α) : Option α :=
  ((lastWith k objs).map Entity.clearFields).or (c.get? k)

/-- A cache that is receiving a list and has come to some entities. -/
structure Reached (c : Cache α) (rev : Revision) (objs : List α) (reached : Cache α) : Prop where
  entries : ∀ k, reached.entries[k]? =
    ((lastWith k objs).map fun a => ⟨Entity.clearFields a, rev⟩).or c.entries[k]?
  listed : ∃ seen, reached.listed = some seen ∧ ∀ k, k ∈ seen ↔ (lastWith k objs).isSome = true
  revision : reached.revision = c.revision
  watchers : reached.watchers = c.watchers

/-- Whatever an earlier list has left behind, a list starts from the beginning. -/
theorem Reached.start (c : Cache α) (rev : Revision) : c.Reached rev [] c.listStart where
  entries _ := rfl
  listed := by
    refine ⟨∅, rfl, fun k => ⟨fun h => absurd h Std.ExtTreeSet.not_mem_empty, fun h => ?_⟩⟩
    cases h
  revision := rfl
  watchers := rfl

/-- The next entity of a list takes the place of what its key had. -/
theorem Reached.list (h : c.Reached rev objs reached) (a : α) :
    c.Reached rev (objs ++ [a]) (reached.list a rev).1 := by
  obtain ⟨hentries, ⟨seen, hseen, hiff⟩, hrevision, hwatchers⟩ := h
  refine ⟨fun k => ?_, ⟨seen.insert (Entity.key a), ?_, fun k => ?_⟩, hrevision, hwatchers⟩
  · show ((reached.noteListed _).store _ rev a).1.entries[k]? = _
    by_cases hk : k = Entity.key a
    · rw [hk, store_entry, lastWith_own, asStored_own]
      rfl
    · rw [store_other _ _ _ hk, lastWith_other hk]
      exact hentries k
  · show reached.listed.map _ = _
    rw [hseen]
    rfl
  · rw [Std.ExtTreeSet.mem_insert, Std.LawfulEqCmp.compare_eq_iff_eq, hiff]
    by_cases hk : k = Entity.key a
    · rw [hk, lastWith_own]
      simp
    · rw [lastWith_other hk]
      have hne : Entity.key a ≠ k := fun heq => hk heq.symm
      simp [hne]

theorem Reached.get? (h : c.Reached rev objs reached) (k : Entity.Key α) :
    reached.get? k = c.heldAfter objs k := by
  unfold Cache.get? heldAfter
  rw [h.entries k]
  cases lastWith k objs <;> rfl

theorem Reached.watcherNotices (h : c.Reached rev objs reached) (k : Entity.Key α) :
    reached.watcherNotices k = c.watcherNotices k := by
  unfold Cache.watcherNotices watchersOf
  rw [h.watchers]

/-! ## What a list announces before its end -/

/-- What is told of the entities of a list: each of them with what the cache holds just before, and
then the watchers of its key. -/
def listedNotices (c : Cache α) (objs : List α) : List (Notice α) :=
  objs.zipIdx.flatMap fun (a, i) =>
    .updated (c.heldAfter (objs.take i) (Entity.key a)) (Entity.clearFields a) ::
      c.watcherNotices (Entity.key a)

theorem listedNotices_concat (c : Cache α) (objs : List α) (a : α) :
    c.listedNotices (objs ++ [a]) = c.listedNotices objs ++
      .updated (c.heldAfter objs (Entity.key a)) (Entity.clearFields a) ::
        c.watcherNotices (Entity.key a) := by
  unfold listedNotices
  rw [List.zipIdx_append, List.flatMap_append]
  congr 1
  · -- an entity is told of before those behind it come
    refine List.flatMap_congr fun (b, i) hi => ?_
    have hlt : i < objs.length := (List.mem_zipIdx' hi).1
    simp only [List.take_append_of_le_length (Nat.le_of_lt hlt)]
  · simp

theorem announce_dated (changed : Cache α × Notices α) :
    (announce changed).map (·.dated) = changed.2.inOrder.map (·, changed.1.revision) := by
  unfold announce
  rw [List.map_map]
  rfl

/-- One more entity of a list is told at the revision that the cache had before the list. -/
theorem Reached.announce_list (h : c.Reached rev objs reached) (a : α) :
    (announce (reached.list a rev)).map (·.dated) =
      (.updated (c.heldAfter objs (Entity.key a)) (Entity.clearFields a) ::
        c.watcherNotices (Entity.key a)).map (·, c.revision) := by
  have hnotices : (reached.list a rev).2.inOrder =
      .updated (reached.get? (Entity.key a)) (asStored (Entity.key a) a) ::
        reached.watcherNotices (Entity.key a) := List.append_nil _
  rw [announce_dated, hnotices, (h.list a).revision, h.get?, h.watcherNotices, asStored_own]

/-- The records of a list one after another, from the start of the list. -/
theorem Reached.records (c : Cache α) (rev : Revision) (records : List KvRecord) :
    c.Reached rev (entitiesOf α records)
        (c.afterDeliveries (.listStart :: records.map (.record · rev))) ∧
      (c.announcedBy (.listStart :: records.map (.record · rev))).map (·.dated) =
        (c.listedNotices (entitiesOf α records)).map (·, c.revision) := by
  induction records using List.reverseRecOn with
  | nil => exact ⟨.start c rev, rfl⟩
  | append_singleton records r ih =>
    obtain ⟨hreached, hannounced⟩ := ih
    set deliveries := Delivery.listStart :: records.map (.record · rev)
    have hsplit : Delivery.listStart :: (records ++ [r]).map (.record · rev) =
        deliveries ++ [.record r rev] := by
      rw [List.map_append]
      rfl
    have hafter : c.afterDeliveries (deliveries ++ [.record r rev]) =
        ((c.afterDeliveries deliveries).receiveDelivery (.record r rev)).1 := by
      rw [afterDeliveries_append]
      rfl
    rw [hsplit, hafter, announcedBy_append, List.map_append, hannounced]
    cases hd : (Entity.decode r.key r.value : StoreResult α) with
    | error e =>
      -- a record that cannot be read is left out
      have hreceive (x : Cache α) : x.receiveDelivery (.record r rev) = (x, .none) := by
        unfold receiveDelivery Delivery.message?
        simp only [hd]
      rw [entitiesOf_concat_error hd]
      unfold announcedBy
      rw [hreceive]
      exact ⟨hreached, List.append_nil _⟩
    | ok a =>
      have hreceive (x : Cache α) : x.receiveDelivery (.record r rev) = x.list a rev := by
        unfold receiveDelivery Delivery.message?
        simp only [hd]
        rfl
      have htold := hreached.announce_list a
      rw [entitiesOf_concat_ok hd, listedNotices_concat, List.map_append, ← htold]
      unfold announcedBy
      rw [hreceive]
      exact ⟨hreached.list a, congrArg (_ ++ ·) (congrArg _ (List.append_nil _))⟩

/-! ## The end of a list -/

/-- What is told when the entity of a key is removed: its last value, and then the watchers of the
key. -/
def removalNotices (c : Cache α) (k : Entity.Key α) : List (Notice α) :=
  match c.get? k with
  | none => []
  | some old => .deleted old :: c.watcherNotices k

theorem remove_notices (c : Cache α) (k : Entity.Key α) :
    (c.remove k).2 = ⟨[], c.removalNotices k⟩ := by
  unfold remove removalNotices
  cases c.get? k <;> rfl

theorem remove_watchers (c : Cache α) (k : Entity.Key α) :
    (c.remove k).1.watchers = c.watchers := by
  unfold remove
  cases c.get? k <;> rfl

theorem removalNotices_congr {c c' : Cache α} (hget : c'.get? k = c.get? k)
    (hwatchers : c'.watchers = c.watchers) : c'.removalNotices k = c.removalNotices k := by
  unfold removalNotices watcherNotices watchersOf
  rw [hget, hwatchers]

/-- Entities that are removed are told once each, as they were before. -/
theorem removeAll_notices {ks : List (Entity.Key α)} (h : ks.Nodup) (c : Cache α) :
    (removeAll ks c).2 = ⟨[], ks.flatMap c.removalNotices⟩ := by
  induction ks generalizing c with
  | nil => rfl
  | cons k ks ih =>
    obtain ⟨hk, hks⟩ := List.nodup_cons.1 h
    have hrest : ks.flatMap (c.remove k).1.removalNotices = ks.flatMap c.removalNotices := by
      refine List.flatMap_congr fun k' hk' => ?_
      have hne : k' ≠ k := by
        rintro rfl
        exact hk hk'
      have hget : (c.remove k).1.get? k' = c.get? k' := by
        unfold get?
        rw [c.remove_other hne]
      exact removalNotices_congr hget (c.remove_watchers k)
    have hcons : (removeAll (k :: ks) c).2 =
        (c.remove k).2.append (removeAll ks (c.remove k).1).2 := rfl
    rw [hcons, ih hks, hrest, remove_notices]
    rfl

theorem keys_nodup (c : Cache α) : c.keys.Nodup := by
  refine List.Pairwise.imp (fun hne heq => ?_) Std.ExtTreeMap.distinct_keys
  subst heq
  exact hne Std.ReflCmp.compare_self

theorem mem_keys (c : Cache α) (k : Entity.Key α) : k ∈ c.keys ↔ c.entries[k]?.isSome = true :=
  Std.ExtTreeMap.mem_keys.trans Std.ExtTreeMap.mem_iff_isSome_getElem?

/-- Of the entities that the cache held before a list, its end removes those that were not listed,
and tells each of them once. -/
theorem Reached.listEnd (h : c.Reached rev objs reached) :
    (∀ k, (reached.listEnd rev).1.entries[k]? =
      (lastWith k objs).map fun a => ⟨Entity.clearFields a, rev⟩) ∧
    (reached.listEnd rev).1.revision = max c.revision rev ∧
    ∃ gone : List (Entity.Key α), gone.Nodup ∧
      (∀ k, k ∈ gone ↔ (c.get? k).isSome = true ∧ lastWith k objs = none) ∧
      (reached.listEnd rev).2 = ⟨[], gone.flatMap c.removalNotices⟩ := by
  obtain ⟨seen, hseen, hiff⟩ := h.listed
  have hretain : (reached.listEnd rev).1.entries =
        (({ reached with listed := none } : Cache α).retain (seen.contains ·)).1.entries ∧
      (reached.listEnd rev).2 =
        (({ reached with listed := none } : Cache α).retain (seen.contains ·)).2 := by
    unfold Cache.listEnd
    rw [hseen]
    exact ⟨rfl, rfl⟩
  have hunlisted (k : Entity.Key α) : seen.contains k = false ↔ lastWith k objs = none := by
    rw [← Bool.not_eq_true, Std.ExtTreeSet.contains_iff_mem, hiff, Bool.not_eq_true,
      Option.isSome_eq_false_iff, Option.isNone_iff_eq_none]
  refine ⟨fun k => ?_, ?_, (reached.keys.filter fun k => !seen.contains k),
    reached.keys_nodup.filter _, fun k => ?_, ?_⟩
  · rw [hretain.1, retain_entry]
    cases hk : seen.contains k with
    | true =>
      -- what was listed stays as it was listed
      have hsome := (hiff k).1 (Std.ExtTreeSet.contains_iff_mem.1 hk)
      obtain ⟨a, ha⟩ := Option.isSome_iff_exists.1 hsome
      rw [if_pos rfl]
      show reached.entries[k]? = _
      rw [h.entries k, ha]
      rfl
    | false =>
      rw [(hunlisted k).1 hk]
      rfl
  · have hrevision : (reached.listEnd rev).1.revision = max reached.revision rev := by
      show max (({ reached with listed := none } : Cache α).retain _).1.revision rev = _
      unfold retain
      rw [removeAll_revision]
    rw [hrevision, h.revision]
  · rw [List.mem_filter, mem_keys, Bool.not_eq_true', hunlisted, h.entries k]
    constructor
    · rintro ⟨hsome, hnone⟩
      rw [hnone] at hsome
      refine ⟨?_, hnone⟩
      unfold Cache.get?
      rw [Option.isSome_map]
      exact hsome
    · rintro ⟨hsome, hnone⟩
      unfold Cache.get? at hsome
      rw [Option.isSome_map] at hsome
      rw [hnone]
      exact ⟨hsome, rfl⟩
  · rw [hretain.2]
    have hnodup := reached.keys_nodup.filter fun k => !seen.contains k
    refine (removeAll_notices hnodup { reached with listed := none }).trans ?_
    congr 1
    refine List.flatMap_congr fun k hk => ?_
    have hnone : lastWith k objs = none := by
      have hgone := (List.mem_filter.1 hk).2
      rw [Bool.not_eq_true'] at hgone
      exact (hunlisted k).1 hgone
    have hget : reached.get? k = c.get? k := by
      rw [h.get? k]
      unfold heldAfter
      rw [hnone]
      rfl
    exact removalNotices_congr hget h.watchers

/-- What a list of some records does to a cache that held anything before. `gone` are the keys that
were not listed, in any order. -/
structure Replaced (c : Cache α) (records : List KvRecord) (rev : Revision) : Prop where
  entries : ∀ k, (c.afterDeliveries (Delivery.listing records rev)).entries[k]? =
    (lastWith k (entitiesOf α records)).map fun a => ⟨Entity.clearFields a, rev⟩
  revision : (c.afterDeliveries (Delivery.listing records rev)).revision = max c.revision rev
  still : ∀ done, done <+: records →
    (c.afterDeliveries (.listStart :: done.map (.record · rev))).revision = c.revision
  synced : (c.afterDeliveries (Delivery.listing records rev)).initialSyncDone = true
  announced : ∃ gone : List (Entity.Key α), gone.Nodup ∧
    (∀ k, k ∈ gone ↔ (c.get? k).isSome = true ∧ lastWith k (entitiesOf α records) = none) ∧
    (c.announcedBy (Delivery.listing records rev)).map (·.dated) =
      (c.listedNotices (entitiesOf α records)).map (·, c.revision) ++
        (gone.flatMap c.removalNotices).map (·, max c.revision rev)

end Cache

/-- **After a list a cache holds the entities of the list and nothing else**, whatever it held and
whatever it was receiving before: under each key the last entity that was listed with it, at the
revision of the list. The revision moves at the end only. Each record that can be read is told once,
in order, with what the cache held just before, and with it the watchers of its key; at the end
each entity that was not listed is told once with its last value, and with it the watchers of its
key; and nothing else is told. -/
theorem list_replaces_contents {α : Type} [Entity α] (c : Cache α) (records : List KvRecord)
    (rev : Revision) : c.Replaced records rev := by
  obtain ⟨hreached, hannounced⟩ := Cache.Reached.records c rev records
  have hlisting : Delivery.listing records rev =
      (.listStart :: records.map (.record · rev)) ++ [.listEnd rev] := rfl
  have hafter : c.afterDeliveries (Delivery.listing records rev) =
      ((c.afterDeliveries (.listStart :: records.map (.record · rev))).listEnd rev).1 :=
    Cache.afterDeliveries_listing records rev c
  obtain ⟨hentries, hrevision, gone, hnodup, hgone, hnotices⟩ := hreached.listEnd
  refine ⟨?_, ?_, fun done _ => (Cache.Reached.records c rev done).1.revision, ?_,
    gone, hnodup, hgone, ?_⟩
  · rw [hafter]
    exact hentries
  · rw [hafter]
    exact hrevision
  · rw [hafter]
    rfl
  · rw [hlisting, Cache.announcedBy_append, List.map_append, hannounced]
    congr 1
    have hend : Cache.announcedBy [.listEnd rev]
          (c.afterDeliveries (.listStart :: records.map (.record · rev))) =
        Cache.announce
          ((c.afterDeliveries (.listStart :: records.map (.record · rev))).listEnd rev) :=
      List.append_nil _
    rw [hend, Cache.announce_dated, hnotices, hrevision]
    rfl

namespace Doorbell

def flavor : Flavor := ⟨[], ⟨"a"⟩, 1, 0, 0⟩

/-- The record of the flavor. -/
def record : KvRecord := ⟨Entity.storeKey (α := Flavor) flavor.key, Entity.encode flavor, 3⟩

/-- A cache without entities, with a watcher of the flavor's key. -/
def cache : Cache Flavor := ((Cache.empty Flavor).watch flavor.key "w").2

end Doorbell

/-- A list comes to a key that has a watcher. The watcher is told although nothing is removed. -/
theorem list_wakes_watchers :
    ¬ ∀ (c : Cache Flavor) (records : List KvRecord) (rev : Revision),
      ∀ n ∈ (c.announcedBy (Delivery.listing records rev)).map (·.notice),
        (∃ old new, n = .updated old new) ∨
        ∃ k, (c.get? k).isSome = true ∧ lastWith k (entitiesOf Flavor records) = none ∧
          n ∈ c.removalNotices k := by
  intro h
  have htold : (Doorbell.cache.announcedBy (Delivery.listing [Doorbell.record] 3)).map (·.notice) =
      [.updated none Doorbell.flavor, .watched ⟨0, "w"⟩ Doorbell.flavor.key] := by
    rfl
  have hwatcher := h Doorbell.cache [Doorbell.record] 3 (.watched ⟨0, "w"⟩ Doorbell.flavor.key)
  rw [htold] at hwatcher
  rcases hwatcher (.tail _ (.head _)) with ⟨old, new, hupdated⟩ | ⟨k, hheld, -⟩
  · cases hupdated
  · -- the cache held nothing
    have hnothing : Doorbell.cache.get? k = none := by
      unfold Cache.get?
      show ((∅ : Std.ExtTreeMap FlavorKey (CacheEntry Flavor))[k]?).map _ = none
      rw [Std.ExtTreeMap.getElem?_empty]
      rfl
    rw [hnothing] at hheld
    cases hheld

end Inventory
