import Inventory.Cache.Change
import Inventory.Proofs.Records
import Inventory.Proofs.Watch
import Mathlib.Data.List.Basic

/-!
# What a cache holds

What the changes of a cache do to its entries, and how these follow the records of a store.

* `Cache.Follows`: a cache has the entry of every record and no other.
* `receive_listing`: **a cache that receives the list of a store follows it**, whatever it held
  before.
* `Follows.commit`: **a cache that receives a commit follows the store through it.**
-/

namespace Inventory

namespace Cache

variable {α : Type} [Entity α]

/-! ## Entries -/

section Entries

variable {c : Cache α} {k k' : Entity.Key α} {rev : Revision} {obj : α}

theorem getElem?_insert_of_ne {β : Type} (m : Std.ExtTreeMap (Entity.Key α) β) (b : β)
    (h : k' ≠ k) : (m.insert k b)[k']? = m[k']? := by
  rw [Std.ExtTreeMap.getElem?_insert, if_neg fun heq => h (Std.LawfulEqOrd.eq_of_compare heq).symm]

theorem getElem?_erase_of_ne {β : Type} (m : Std.ExtTreeMap (Entity.Key α) β) (h : k' ≠ k) :
    (m.erase k)[k']? = m[k']? := by
  rw [Std.ExtTreeMap.getElem?_erase, if_neg fun heq => h (Std.LawfulEqOrd.eq_of_compare heq).symm]

theorem store_entry (c : Cache α) (k : Entity.Key α) (rev : Revision) (obj : α) :
    (c.store k rev obj).1.entries[k]? = some ⟨asStored k obj, rev⟩ :=
  Std.ExtTreeMap.getElem?_insert_self

theorem store_other (c : Cache α) (rev : Revision) (obj : α) (h : k' ≠ k) :
    (c.store k rev obj).1.entries[k']? = c.entries[k']? :=
  getElem?_insert_of_ne c.entries _ h

theorem remove_entry (c : Cache α) (k : Entity.Key α) : (c.remove k).1.entries[k]? = none := by
  unfold remove
  cases hg : c.get? k with
  | none => exact Option.map_eq_none_iff.1 hg
  | some old => exact Std.ExtTreeMap.getElem?_erase_self

theorem remove_other (c : Cache α) (h : k' ≠ k) :
    (c.remove k).1.entries[k']? = c.entries[k']? := by
  unfold remove
  cases c.get? k with
  | none => rfl
  | some old => exact getElem?_erase_of_ne c.entries h

theorem remove_revision (c : Cache α) (k : Entity.Key α) :
    (c.remove k).1.revision = c.revision := by
  unfold remove
  cases c.get? k <;> rfl

theorem removeAll_other {ks : List (Entity.Key α)} (h : k' ∉ ks) :
    (removeAll ks c).1.entries[k']? = c.entries[k']? := by
  induction ks generalizing c with
  | nil => rfl
  | cons k ks ih =>
    rw [List.mem_cons, not_or] at h
    exact (ih h.2).trans (c.remove_other h.1)

theorem removeAll_entry {ks : List (Entity.Key α)} (h : k' ∈ ks) :
    (removeAll ks c).1.entries[k']? = none := by
  induction ks generalizing c with
  | nil => cases h
  | cons k ks ih =>
    by_cases hmem : k' ∈ ks
    · exact ih hmem
    · -- once removed it stays away
      obtain rfl := (List.mem_cons.1 h).resolve_right hmem
      exact (removeAll_other hmem).trans (c.remove_entry k')

theorem removeAll_revision (ks : List (Entity.Key α)) (c : Cache α) :
    (removeAll ks c).1.revision = c.revision := by
  induction ks generalizing c with
  | nil => rfl
  | cons k ks ih => exact (ih _).trans (c.remove_revision k)

/-- What is retained is what passes the test. -/
theorem retain_entry {keep : Entity.Key α → Bool} (c : Cache α) (k : Entity.Key α) :
    (c.retain keep).1.entries[k]? = if keep k then c.entries[k]? else none := by
  unfold retain
  cases hkeep : keep k with
  | true =>
    refine removeAll_other fun hmem => ?_
    have hdropped := (List.mem_filter.1 hmem).2
    rw [hkeep] at hdropped
    cases hdropped
  | false =>
    rw [if_neg Bool.false_ne_true]
    by_cases hmem : k ∈ c.keys
    · refine removeAll_entry (List.mem_filter.2 ⟨hmem, ?_⟩)
      rw [hkeep]
      rfl
    · rw [removeAll_other fun h => hmem (List.mem_filter.1 h).1]
      exact Std.ExtTreeMap.getElem?_eq_none fun h => hmem (Std.ExtTreeMap.mem_keys.2 h)

end Entries

/-! ## Following a store -/

/-- The entry of a record; a list that is current for a revision brings entries of that
revision. -/
def entryOf (since : Revision) (key : String) (found : Option Stored) : Option (CacheEntry α) :=
  found.bind fun stored =>
    (Entity.decode key stored.value).toOption.map fun a => ⟨a, max since stored.modRevision⟩

/-- A cache has the entry of every record and no other. -/
def Follows (c : Cache α) (m : Contents) (since : Revision) : Prop :=
  ∀ k : Entity.Key α, c.entries[k]? = entryOf since (Entity.storeKey k) m[Entity.storeKey k]?

variable [LawfulEntity α] {c : Cache α} {m : Contents} {since rev : Revision}

/-- An entity that was read is stored as it is. -/
theorem asStored_restored (a : α) :
    asStored (Entity.key a) (Entity.restored a) = Entity.restored a := by
  unfold asStored
  have hsame : compare (Entity.key a) (Entity.key a) = .eq := Std.ReflCmp.compare_self
  rw [Entity.key_restored, hsame]
  show Entity.make [] (Entity.body (Entity.make [] _ : α)) = _
  rw [Entity.body_make]
  rfl

/-- The entry of an entity that was written. -/
theorem entryOf_written {a : α} (hfits : Entity.Fits a) {stored : Stored}
    (hvalue : stored.value = Entity.encode a) (since : Revision) (key : String) :
    entryOf since key (some stored) = some ⟨Entity.restored a, max since stored.modRevision⟩ := by
  show (Entity.decode key stored.value).toOption.map _ = _
  rw [hvalue, Entity.decode_encode hfits]
  rfl

/-! ## Receiving a list -/

/-- A cache that is receiving a list of a store and has come so far. -/
structure Listing (c : Cache α) (m : Contents) (since base : Revision) (done : List KvRecord) :
    Prop where
  listed : ∃ seen : Std.ExtTreeSet (Entity.Key α), c.listed = some seen ∧
    ∀ k, k ∈ seen ↔ ∃ r ∈ done, r.key = Entity.storeKey k
  entries : ∀ k : Entity.Key α, (∃ r ∈ done, r.key = Entity.storeKey k) →
    c.entries[k]? = entryOf since (Entity.storeKey k) m[Entity.storeKey k]?
  revision : c.revision = base

omit [LawfulEntity α] in
theorem Listing.start (c : Cache α) (m : Contents) (since : Revision) :
    c.listStart.Listing m since c.revision [] := by
  refine ⟨⟨∅, rfl, fun k => ⟨fun h => absurd h Std.ExtTreeSet.not_mem_empty, ?_⟩⟩, ?_, rfl⟩
  · rintro ⟨r, hr, -⟩
    cases hr
  · rintro k ⟨r, hr, -⟩
    cases hr

/-- The next record of a list. -/
theorem Listing.record {base : Revision} {done : List KvRecord} (h : c.Listing m since base done)
    (hm : m.Recorded α) {r : KvRecord} {stored : Stored}
    (hkey : Text.hasPrefix (Entity.typePrefix α) r.key = true) (hfound : m[r.key]? = some stored)
    (hvalue : r.value = stored.value) (hmod : stored.modRevision ≤ since) :
    (c.receiveDelivery (.record r since)).1.Listing m since base (done ++ [r]) := by
  obtain ⟨a, hfits, hown, hstored⟩ := hm r.key stored hfound hkey
  have hdecode : Entity.decode r.key r.value = .ok (Entity.restored a) := by
    rw [hvalue, hstored, Entity.decode_encode hfits]
  have hreceive : (c.receiveDelivery (.record r since)).1 =
      (c.list (Entity.restored a) since).1 := by
    unfold receiveDelivery Delivery.message?
    simp only [hdecode]
    rfl
  have hmem (k : Entity.Key α) : (∃ x ∈ done ++ [r], x.key = Entity.storeKey k) ↔
      (∃ x ∈ done, x.key = Entity.storeKey k) ∨ k = Entity.key a := by
    constructor
    · rintro ⟨x, hx, hk⟩
      rcases List.mem_append.1 hx with hx | hx
      · exact .inl ⟨x, hx, hk⟩
      · rw [List.mem_singleton.1 hx, hown] at hk
        exact .inr (Entity.storeKey_injective hk).symm
    · rintro (⟨x, hx, hk⟩ | rfl)
      · exact ⟨x, List.mem_append_left _ hx, hk⟩
      · exact ⟨r, List.mem_append_right _ (List.mem_singleton_self r), hown⟩
  rw [hreceive]
  unfold list
  rw [Entity.key_restored]
  obtain ⟨⟨seen, hseen, hiff⟩, hentries, hrev⟩ := h
  refine ⟨⟨seen.insert (Entity.key a), ?_, fun k => ?_⟩, fun k hk => ?_, hrev⟩
  · show c.listed.map _ = _
    rw [hseen]
    rfl
  · rw [Std.ExtTreeSet.mem_insert, hmem, ← hiff, Std.LawfulEqCmp.compare_eq_iff_eq, or_comm,
      eq_comm]
  · by_cases heq : k = Entity.key a
    · -- the entry of a list has the revision of the list
      rw [heq, store_entry, asStored_restored, ← hown, hfound, entryOf_written hfits hstored,
        Nat.max_eq_left hmod]
    · rw [store_other _ _ _ heq]
      exact hentries k (((hmem k).1 hk).resolve_right heq)

omit [LawfulEntity α] in
/-- The end of a list that has come to every record. -/
theorem Listing.finish {base : Revision} {done : List KvRecord} (h : c.Listing m since base done)
    (hall : ∀ (k : Entity.Key α) (stored : Stored), m[Entity.storeKey k]? = some stored →
      ∃ r ∈ done, r.key = Entity.storeKey k) :
    (c.listEnd since).1.Follows m since ∧ (c.listEnd since).1.revision = max base since := by
  obtain ⟨⟨seen, hseen, hiff⟩, hentries, hrev⟩ := h
  constructor
  · intro k
    show (({ c with listed := none } : Cache α).retain _).1.entries[k]? = _
    rw [retain_entry]
    simp only [hseen]
    by_cases hk : k ∈ seen
    · -- what was listed is as it was listed, and the rest is removed
      rw [if_pos (Std.ExtTreeSet.contains_iff_mem.2 hk)]
      exact hentries k ((hiff k).1 hk)
    · rw [if_neg fun hc => hk (Std.ExtTreeSet.contains_iff_mem.1 hc)]
      cases hm : m[Entity.storeKey k]? with
      | none => rfl
      | some stored => exact absurd ((hiff k).2 (hall k stored hm)) hk
  · show max (({ c with listed := none } : Cache α).retain _).1.revision since = _
    unfold retain
    rw [removeAll_revision]
    exact congrArg (max · since) hrev

/-- The cache after some deliveries. -/
def afterDeliveries (ds : List Delivery) (c : Cache α) : Cache α :=
  ds.foldl (fun c d => (c.receiveDelivery d).1) c

omit [LawfulEntity α] in
theorem afterDeliveries_append (ds es : List Delivery) (c : Cache α) :
    c.afterDeliveries (ds ++ es) = (c.afterDeliveries ds).afterDeliveries es := List.foldl_append

omit [LawfulEntity α] in
/-- The list of a snapshot from its start to its end. -/
theorem afterDeliveries_listing (rs : List KvRecord) (rev : Revision) (c : Cache α) :
    c.afterDeliveries (Delivery.listing rs rev) =
      ((c.listStart.afterDeliveries (rs.map (.record · rev))).listEnd rev).1 :=
  afterDeliveries_append (.listStart :: rs.map (.record · rev)) [.listEnd rev] c

theorem Listing.records {base : Revision} {done : List KvRecord}
    (h : c.Listing m since base done) (hm : m.Recorded α) (rs : List KvRecord)
    (hrs : ∀ r ∈ rs, Text.hasPrefix (Entity.typePrefix α) r.key = true ∧
      ∃ stored, m[r.key]? = some stored ∧ r.value = stored.value ∧ stored.modRevision ≤ since) :
    (c.afterDeliveries (rs.map (.record · since))).Listing m since base (done ++ rs) := by
  induction rs generalizing c done with
  | nil => rw [List.append_nil]; exact h
  | cons r rs ih =>
    obtain ⟨hkey, stored, hfound, hvalue, hmod⟩ := hrs r List.mem_cons_self
    have hrest := ih (h.record hm hkey hfound hvalue hmod) fun x hx =>
      hrs x (List.mem_cons_of_mem r hx)
    rw [List.append_assoc] at hrest
    exact hrest

/-- **A cache that receives the list of a store follows it**, whatever it held before. -/
theorem receive_listing (c : Cache α) (hm : m.Recorded α)
    (hmod : ∀ (key : String) (stored : Stored), m[key]? = some stored →
      stored.modRevision ≤ since) :
    (c.afterDeliveries (Delivery.listing (m.scan (Entity.typePrefix α)) since)).Follows m since ∧
      (c.afterDeliveries (Delivery.listing (m.scan (Entity.typePrefix α)) since)).revision =
        max c.revision since := by
  have hall : ∀ (k : Entity.Key α) (stored : Stored), m[Entity.storeKey k]? = some stored →
      ∃ r ∈ m.scan (Entity.typePrefix α), r.key = Entity.storeKey k := fun k stored hk =>
    ⟨⟨Entity.storeKey k, stored.value, stored.modRevision⟩,
      Contents.mem_scan.2 ⟨Entity.hasPrefix_storeKey k, stored, hk, rfl⟩, rfl⟩
  have hlisted := (Listing.start c m since).records hm (m.scan (Entity.typePrefix α))
    fun r hr => by
      obtain ⟨hkey, stored, hfound, heq⟩ := Contents.mem_scan.1 hr
      exact ⟨hkey, stored, hfound, congrArg KvRecord.value heq, hmod r.key stored hfound⟩
  rw [afterDeliveries_listing]
  exact hlisted.finish hall

/-! ## Receiving commits -/

omit [LawfulEntity α] in
theorem applyParts_append (es fs : List (SyncEvent α)) (c : Cache α) :
    (applyParts (es ++ fs) c).1 = (applyParts fs (applyParts es c).1).1 := by
  induction es generalizing c with
  | nil => rfl
  | cons e es ih => exact ih (c.applyPart e).1

omit [LawfulEntity α] in
theorem applyParts_revision (es : List (SyncEvent α)) (c : Cache α) :
    (applyParts es c).1.revision = c.revision := by
  induction es generalizing c with
  | nil => rfl
  | cons e es ih =>
    refine (ih _).trans ?_
    cases e with
    | delete k rev => exact c.remove_revision k
    | _ => rfl

variable (α) in
omit [LawfulEntity α] in
/-- What a cache is told of the changes of a commit. -/
def told (events : List WatchEvent) : List (SyncEvent α) :=
  (eventsUnder (Entity.typePrefix α) events).map (WatchEvent.decode α)

omit [LawfulEntity α] in
theorem told_append (early late : List WatchEvent) :
    told α (early ++ late) = told α early ++ told α late := by
  unfold told eventsUnder
  rw [List.filter_append, List.map_append]

omit [LawfulEntity α] in
theorem told_under {key : String} (h : Text.hasPrefix (Entity.typePrefix α) key = true)
    (change : Change) (rev : Revision) (more : Bool) :
    told α [⟨key, change, rev, more⟩] = [WatchEvent.decode α ⟨key, change, rev, more⟩] := by
  have hkept : eventsUnder (Entity.typePrefix α) [⟨key, change, rev, more⟩] =
      [⟨key, change, rev, more⟩] := List.filter_cons_of_pos h
  unfold told
  rw [hkept]
  rfl

/-- A cache that is told of the put of an entity follows the store through it. -/
theorem Follows.put (h : c.Follows m since) {a : α} (hfits : Entity.Fits a) (hrev : since ≤ rev) :
    (applyParts (told α [⟨Entity.storeKey (Entity.key a), .put (Entity.encode a), rev, false⟩])
      c).1.Follows (m.put (Entity.storeKey (Entity.key a)) (Entity.encode a) rev) since := by
  have htold : told α [⟨Entity.storeKey (Entity.key a), .put (Entity.encode a), rev, false⟩] =
      [.update (Entity.restored a) rev] := by
    rw [told_under (Entity.hasPrefix_storeKey _)]
    unfold WatchEvent.decode
    simp only [Entity.decode_encode hfits]
  intro k
  rw [htold, m.getElem?_put (Entity.storeKey (Entity.key a)) (Entity.storeKey k)]
  show (c.store (Entity.key (Entity.restored a)) rev (Entity.restored a)).1.entries[k]? = _
  rw [Entity.key_restored]
  by_cases hk : k = Entity.key a
  · -- the entry of a change is as new as the record
    rw [hk, store_entry, asStored_restored, if_pos rfl,
      entryOf_written hfits (Stored.rewritten_value _ _ _), Stored.rewritten_modRevision,
      Nat.max_eq_right hrev]
  · rw [store_other _ _ _ hk, if_neg fun heq => hk (Entity.storeKey_injective heq)]
    exact h k

/-- A cache that is told of the delete of a record follows the store through it. -/
theorem Follows.delete (h : c.Follows m since) (k₀ : Entity.Key α) :
    (applyParts (told α [⟨Entity.storeKey k₀, .delete, rev, false⟩]) c).1.Follows
      (m.erase (Entity.storeKey k₀)) since := by
  have htold : told α [⟨Entity.storeKey k₀, .delete, rev, false⟩] = [.delete k₀ rev] := by
    rw [told_under (Entity.hasPrefix_storeKey _)]
    unfold WatchEvent.decode
    simp only [Entity.keyOfStoreKey_storeKey]
  intro k
  rw [htold, m.getElem?_erase (Entity.storeKey k₀) (Entity.storeKey k)]
  show (c.remove k₀).1.entries[k]? = _
  by_cases hk : k = k₀
  · rw [hk, remove_entry, if_pos rfl]
    rfl
  · rw [remove_other _ hk, if_neg fun heq => hk (Entity.storeKey_injective heq)]
    exact h k

/-- A cache that is told of a write follows the store through it. -/
theorem Follows.write (h : c.Follows m since) {w : Write} (hw : w.Files α)
    (hrev : since ≤ rev) :
    (applyParts (told α (m.write rev w).2.toList) c).1.Follows (m.write rev w).1 since := by
  by_cases hkey : Text.hasPrefix (Entity.typePrefix α) w.key = true
  · cases w with
    | put key value =>
      obtain ⟨a, hfits, rfl, rfl⟩ := hw hkey
      exact h.put hfits hrev
    | delete key =>
      obtain ⟨k₀, rfl⟩ := hw hkey
      simp only [Contents.write]
      by_cases hc : m.contains (Entity.storeKey k₀) = true
      · rw [if_pos hc]
        exact h.delete k₀
      · -- nobody is told of the delete of an absent key
        rw [if_neg hc]
        exact h
  · -- nothing is told of what happens elsewhere
    have htold : told α (m.write rev w).2.toList = [] := by
      unfold told eventsUnder
      rw [List.filter_eq_nil_iff.2, List.map_nil]
      intro e he
      rw [(Contents.event_of_write (Option.mem_toList.1 he)).1]
      exact hkey
    rw [htold]
    intro k
    rw [Contents.getElem?_write, if_neg]
    · exact h k
    · intro heq
      exact hkey (heq ▸ Entity.hasPrefix_storeKey k)

/-- A cache that is told of the writes of a commit follows the store through them. -/
theorem Follows.writeAll (h : c.Follows m since) {ws : List Write}
    (hws : ∀ w ∈ ws, w.Files α) (hrev : since ≤ rev) :
    (applyParts (told α (m.writeAll rev ws).2) c).1.Follows (m.writeAll rev ws).1 since := by
  induction ws generalizing c m with
  | nil => exact h
  | cons w ws ih =>
    rw [Contents.writeAll_cons, told_append, applyParts_append]
    exact ih (h.write (hws w List.mem_cons_self) hrev) fun v hv => hws v (List.mem_cons_of_mem w hv)

omit [LawfulEntity α] in
/-- Announcing that more events follow makes no difference. -/
theorem told_markMore (events : List WatchEvent) :
    (markMore (eventsUnder (Entity.typePrefix α) events)).map (WatchEvent.decode α) =
      told α events := by
  have hmarked := congrArg (List.map (WatchEvent.decode α))
    (markMore_plain (eventsUnder (Entity.typePrefix α) events))
  rw [List.map_map, List.map_map] at hmarked
  exact hmarked

omit [LawfulEntity α] in
theorem partRevision_decode (e : WatchEvent) : partRevision? (e.decode α) = some e.revision := by
  unfold WatchEvent.decode
  cases e.change with
  | put value =>
    simp only
    cases (Entity.decode e.key value : StoreResult α) <;> rfl
  | delete =>
    simp only
    cases Entity.keyOfStoreKey α e.key <;> rfl

omit [LawfulEntity α] in
/-- A commit changes the entries as its events do one after another. -/
theorem applyCommit_entries (es : List (SyncEvent α)) (c : Cache α) :
    (c.applyCommit es).1.entries = (applyParts es c).1.entries := by
  unfold applyCommit
  cases (es.filterMap partRevision?).getLast? <;> rfl

omit [LawfulEntity α] in
/-- The last event of a commit gives the revision. -/
theorem applyCommit_of_revision {es : List (SyncEvent α)}
    (h : ∀ e ∈ es, partRevision? e = some rev) (hne : es ≠ []) (c : Cache α) :
    (c.applyCommit es).1 = (applyParts es c).1.advance rev := by
  have hlast : (es.filterMap partRevision?).getLast? = some rev := by
    have hall : es.filterMap partRevision? = es.map fun _ => rev := by
      rw [← List.filterMap_eq_map]
      exact List.filterMap_congr fun e he => h e he
    rw [hall, List.getLast?_map, List.getLast?_eq_some_getLast hne]
    rfl
  unfold applyCommit
  simp only [hlast]

/-- **A cache that receives a commit follows the store through it**, and comes to its revision. -/
theorem Follows.commit (h : c.Follows m since) {ws : List Write}
    (hws : ∀ w ∈ ws, w.Files α) (hrev : since ≤ rev)
    (hne : eventsUnder (Entity.typePrefix α) (m.writeAll rev ws).2 ≠ []) :
    (c.receiveDelivery (.commit
        (markMore (eventsUnder (Entity.typePrefix α) (m.writeAll rev ws).2)))).1.Follows
      (m.writeAll rev ws).1 since ∧
    (c.receiveDelivery (.commit
        (markMore (eventsUnder (Entity.typePrefix α) (m.writeAll rev ws).2)))).1.revision =
      max c.revision rev := by
  have hshared : ∀ e ∈ told α (m.writeAll rev ws).2, partRevision? e = some rev := by
    intro e he
    obtain ⟨event, hevent, rfl⟩ := List.mem_map.1 he
    rw [partRevision_decode, (Contents.event_of_writeAll (List.mem_filter.1 hevent).1).2]
  have htold : told α (m.writeAll rev ws).2 ≠ [] := fun h => hne (List.map_eq_nil_iff.1 h)
  have hreceive : (c.receiveDelivery (.commit
      (markMore (eventsUnder (Entity.typePrefix α) (m.writeAll rev ws).2)))).1 =
      ((applyParts (told α (m.writeAll rev ws).2) c).1.advance rev) := by
    rw [← applyCommit_of_revision hshared htold, ← told_markMore]
    rfl
  rw [hreceive]
  refine ⟨h.writeAll hws hrev, ?_⟩
  show max (applyParts (told α (m.writeAll rev ws).2) c).1.revision rev = max c.revision rev
  rw [applyParts_revision]

end Cache

end Inventory
