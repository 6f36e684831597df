import Inventory.Proofs.CacheRuns
import Inventory.Proofs.KeyOrder
import Inventory.Proofs.Mirror
import Inventory.Visit

/-!
# In which order entities are loaded

All entities of a type are loaded in the order of their store keys, and a cache lists them in the
order of their keys.

* `Entity.Loads`: all records of a type were loaded, each once, in the order of their store keys.
* `Entity.loadAll_of_recorded`: **so they are** from a store of entities.
* `Cache.Mirrors.keyed`, `Entity.Loads.perm_objects`: a cache that mirrors the store has the same
  entities, each under its own key.
* `Entity.Loads.eq_objects_iff`: when both orders are the same.
* `load_order_iff`: **which stores are loaded in the order in which a synced cache lists them.**
* `load_order_differs`: a store that is not.
-/

namespace Inventory

theorem Contents.scan_ordered (m : Contents) (scope : String) :
    (m.scan scope).Pairwise fun r r' => compare r.key r'.key = .lt := by
  rw [scan_eq_filter, List.pairwise_map]
  exact (m.toList_ordered.filter _).imp fun h => compare_eq_lt.2 h

namespace Entity

variable {α : Type} [Entity α]

/-- All records of a type were loaded, each once, in the order of their store keys: the entities as
they are read, and the revisions that wrote them. -/
structure Loads (found : List (α × Revision)) (m : Contents) : Prop where
  sound : ∀ p ∈ found, ∃ stored, m[storeKey (key p.1)]? = some stored ∧
    decode (storeKey (key p.1)) stored.value = .ok p.1 ∧ p.2 = stored.modRevision
  complete : ∀ (name : String) (stored : Stored), Text.hasPrefix (typePrefix α) name = true →
    m[name]? = some stored → ∃ p ∈ found, storeKey (key p.1) = name
  ordered : found.Pairwise fun p q =>
    compare (storeKey (key p.1)) (storeKey (key q.1)) = .lt

section Lawful

variable [LawfulEntity α]

/-- A record of an entity is loaded as that entity. -/
theorem ofRecord?_of_recorded {m : Contents} (hm : m.Recorded α) {r : KvRecord}
    (hr : r ∈ m.scan (typePrefix α)) : ∃ p, ofRecord? α r = some p ∧ storeKey (key p.1) = r.key ∧
      ∃ stored, m[r.key]? = some stored ∧ decode r.key stored.value = .ok p.1 ∧
        p.2 = stored.modRevision := by
  obtain ⟨hkey, stored, hstored, hrecord⟩ := Contents.mem_scan.1 hr
  obtain ⟨a, hfits, hown, hvalue⟩ := hm r.key stored hstored hkey
  have hdecode : decode r.key stored.value = .ok (restored a) := by
    rw [hvalue, decode_encode hfits]
  refine ⟨(restored a, stored.modRevision), ?_, ?_, stored, hstored, hdecode, rfl⟩
  · rw [hrecord]
    unfold ofRecord?
    simp only [hdecode]
  · rw [key_restored, hown]

/-- **All records of a type are loaded**, each once, in the order of their store keys. -/
theorem loadAll_of_recorded {s : Store} (hopen : s.closed = false) (hm : s.contents.Recorded α) :
    ∃ found, loadAll α s = .ok found ∧ Loads found s.contents := by
  have hlist : (s.list (typePrefix α)).1 = .ok (s.contents.scan (typePrefix α)) := by
    unfold Store.list
    rw [Store.ifOpen_of_open hopen]
  refine ⟨(s.contents.scan (typePrefix α)).filterMap (ofRecord? α), ?_, ?_, ?_, ?_⟩
  · unfold loadAll
    rw [hlist]
  · intro p hp
    obtain ⟨r, hr, heq⟩ := List.mem_filterMap.1 hp
    obtain ⟨p', hp', hown, stored, hstored, hdecode, hrev⟩ := ofRecord?_of_recorded hm hr
    obtain rfl := Option.some.inj (hp'.symm.trans heq)
    rw [hown]
    exact ⟨stored, hstored, hdecode, hrev⟩
  · intro name stored hname hstored
    have hr : (⟨name, stored.value, stored.modRevision⟩ : KvRecord) ∈
        s.contents.scan (typePrefix α) := Contents.mem_scan.2 ⟨hname, stored, hstored, rfl⟩
    obtain ⟨p, hp, hown, -⟩ := ofRecord?_of_recorded hm hr
    exact ⟨p, List.mem_filterMap.2 ⟨_, hr, hp⟩, hown⟩
  · rw [List.pairwise_filterMap]
    refine (s.contents.scan_ordered _).imp_of_mem fun {r r'} hr hr' hlt p hp p' hp' => ?_
    obtain ⟨q, hq, hown, -⟩ := ofRecord?_of_recorded hm hr
    obtain ⟨q', hq', hown', -⟩ := ofRecord?_of_recorded hm hr'
    obtain rfl := Option.some.inj (hq.symm.trans hp)
    obtain rfl := Option.some.inj (hq'.symm.trans hp')
    rw [hown, hown']
    exact hlt

end Lawful

end Entity

/-! ## A cache of the same store -/

namespace Cache

variable {α : Type} [Entity α] {c : Cache α} {m : Contents} {since : Revision}

/-- The keys of a cache are those of its entities, in the same order. -/
theorem Keyed.keys_eq (h : c.Keyed) : c.keys = c.objects.map Entity.key := by
  rw [objects_eq_map, List.map_map]
  unfold keys
  rw [← Std.ExtTreeMap.map_fst_toList_eq_keys]
  refine List.map_congr_left fun x hx => ?_
  exact (h x.1 x.2.obj (get?_of_mem hx)).symm

/-- A cache that mirrors a store of entities has each under its own key. -/
theorem Mirrors.keyed [LawfulEntity α] (h : c.Mirrors m since) (hm : m.Recorded α) : c.Keyed := by
  intro k a ha
  obtain ⟨e, he, rfl⟩ := Option.map_eq_some_iff.1 ha
  obtain ⟨stored, hstored, hdecode, -⟩ := h.sound k e he
  obtain ⟨b, -, hkey, hread⟩ := (hm _ stored hstored).decode
  rw [← Except.ok.inj (hread.symm.trans hdecode), Entity.key_restored, hkey]

end Cache

namespace Entity

variable {α : Type} [Entity α] {found : List (α × Revision)} {m : Contents} {c : Cache α}
  {since : Revision}

theorem Loads.nodup (h : Loads found m) : (found.map (·.1)).Nodup := by
  rw [List.Nodup, List.pairwise_map]
  refine h.ordered.imp fun hlt heq => ?_
  rw [heq, Std.compare_self] at hlt
  cases hlt

/-- What was loaded is what the cache lists. -/
theorem Loads.perm_objects [LawfulEntity α] (h : Loads found m) (hc : c.Mirrors m since)
    (hm : m.Recorded α) : (found.map (·.1)).Perm c.objects := by
  have hsorted := (hc.keyed hm).objects_sorted
  have hobjects : c.objects.Nodup := hsorted.imp fun hlt heq => by
    rw [heq, Std.compare_self] at hlt
    cases hlt
  refine (List.perm_ext_iff_of_nodup h.nodup hobjects).2 fun a => ?_
  rw [List.mem_map, Cache.mem_objects]
  constructor
  · rintro ⟨p, hp, rfl⟩
    obtain ⟨stored, hstored, hdecode, -⟩ := h.sound p hp
    obtain ⟨k, hk, hhas⟩ := hc.complete _ stored (hasPrefix_storeKey (key p.1)) hstored
    obtain rfl := storeKey_injective hk
    have hentry : (c.entries[key p.1]?).isSome = true := by
      rw [← Std.ExtTreeMap.contains_eq_isSome_getElem?]
      exact hhas
    obtain ⟨e, he⟩ := Option.isSome_iff_exists.1 hentry
    obtain ⟨stored', hstored', hdecode', -⟩ := hc.sound _ e he
    obtain rfl := Option.some.inj (hstored.symm.trans hstored')
    refine ⟨key p.1, ?_⟩
    unfold Cache.get?
    rw [he, Except.ok.inj (hdecode.symm.trans hdecode')]
    rfl
  · rintro ⟨k, hget⟩
    obtain ⟨e, he, rfl⟩ := Option.map_eq_some_iff.1 hget
    obtain ⟨stored, hstored, hdecode, -⟩ := hc.sound k e he
    obtain ⟨p, hp, hown⟩ := h.complete _ stored (hasPrefix_storeKey k) hstored
    obtain ⟨stored', hstored', hdecode', -⟩ := h.sound p hp
    rw [hown] at hstored' hdecode'
    obtain rfl := Option.some.inj (hstored.symm.trans hstored')
    exact ⟨p, hp, Except.ok.inj (hdecode'.symm.trans hdecode)⟩

/-- **Both orders are the same** exactly if they compare all loaded keys alike. -/
theorem Loads.eq_objects_iff (h : Loads found m) (hsorted : c.Keyed)
    (hperm : (found.map (·.1)).Perm c.objects) :
    found.map (·.1) = c.objects ↔ ∀ p ∈ found, ∀ q ∈ found,
      compare (storeKey (key p.1)) (storeKey (key q.1)) = compare (key p.1) (key q.1) := by
  have hobjects := hsorted.objects_sorted
  constructor
  · intro heq
    rw [← heq, List.pairwise_map] at hobjects
    have hboth : found.Pairwise fun p q =>
        compare (storeKey (key p.1)) (storeKey (key q.1)) = compare (key p.1) (key q.1) :=
      h.ordered.imp₂ (fun _ _ hstore hkey => hstore.trans hkey.symm) hobjects
    have hturned : found.Pairwise (flip fun p q =>
        compare (storeKey (key p.1)) (storeKey (key q.1)) = compare (key p.1) (key q.1)) :=
      hboth.imp fun {p q} hpq => by
        have hswap := congrArg Ordering.swap hpq
        rw [← Std.OrientedCmp.eq_swap, ← Std.OrientedCmp.eq_swap] at hswap
        exact hswap
    refine fun p hp q hq => hboth.forall_of_forall_of_flip (fun p _ => ?_) hturned hp hq
    rw [Std.compare_self, Std.compare_self]
  · intro hsame
    have hloaded : (found.map (·.1)).Pairwise fun a b => compare (key a) (key b) = .lt := by
      rw [List.pairwise_map]
      exact h.ordered.imp_of_mem fun hp hq hlt => (hsame _ hp _ hq).symm.trans hlt
    refine hperm.eq_of_pairwise (fun a b _ _ hab hba => ?_) hloaded hobjects
    rw [Std.OrientedCmp.gt_iff_lt.2 hba] at hab
    cases hab

end Entity

/-! ## Loading from a store that a cache is fed from -/

/-- What was loaded from a store and what a cache of it lists: the same entities, each under its own
key, in the order of the store keys and in that of the keys. -/
structure Entity.Beside {α : Type} [Entity α] [TextKey (Key α)] (found : List (α × Revision))
    (c : Cache α) : Prop where
  keys : c.keys = c.objects.map key
  sorted : c.objects.Pairwise fun a b => compare (key a) (key b) = .lt
  same : (found.map (·.1)).Perm c.objects
  /-- The lists are the same exactly if the orders compare all keys alike. -/
  order : found.map (·.1) = c.objects ↔ ∀ p ∈ found, ∀ q ∈ found,
    compare (storeKey (key p.1)) (storeKey (key q.1)) = compare (key p.1) (key q.1)
  /-- They do unless a key has a space, an exclamation mark, a quote or a control character. -/
  plain : (∀ p ∈ found, ∀ t ∈ TextKey.texts (key p.1), Text.Plain t) →
    found.map (·.1) = c.objects

/-- **In which order entities are loaded.** The records of a type are only written as entities, by
typed requests and transactions; whatever these do is done by operations that file. A cache that
holds anything at all and is not ahead of the store is fed from it from some moment on. Then from
the open store all records of the type are loaded and every visitor is shown them, each once, in the
order of their store keys, and a cache to which all commits have been delivered lists the same
entities in the order of their keys.
Both orders go through the texts of the fields one after another; they compare these texts as they
are, or with their quotes and escapes. -/
theorem load_order_iff (k : Kind) (who : Subscriber) (before : List Op)
    (hbefore : ∀ op ∈ before, op.Files k.Obj) :
    (∀ d : Deed k.Obj, d.Files who →
      (Op.runAll before .empty).ByFiling k.Obj who (d.run (Op.runAll before .empty))) ∧
    (∀ j j' : Entity.Key k.Obj, compare j j' = compare (TextKey.texts j) (TextKey.texts j') ∧
      compare (Entity.storeKey j) (Entity.storeKey j') =
        compare ((TextKey.texts j).map Json.writeText) ((TextKey.texts j').map Json.writeText)) ∧
    ∀ (c : Cache k.Obj) (steps : List FeedStep), (Op.runAll before .empty).closed = false →
      c.revision ≤ (Op.runAll before .empty).revision →
      (∀ op, FeedStep.op op ∈ steps → op.FilesAside k.Obj who) →
      ∀ st, st = (Mirroring.start c who (Op.runAll before .empty)).run steps →
        st.store.closed = false → st.feed.sync.outcome = none →
        ∃ found, Entity.loadAll k.Obj st.store = .ok found ∧
          ShowsEach (fun _ f x => Entity.visitStored f st.store x) found ∧
          Entity.Loads found st.store.contents ∧
          Entity.Beside found (st.step .deliver).feed.cache := by
  have hrecorded : (Op.runAll before .empty).contents.Recorded k.Obj :=
    Contents.Recorded.runAll Contents.Recorded.empty hbefore
  refine ⟨fun d hd => Deed.byFiling hrecorded hd,
    fun j j' => ⟨TextKey.compare_eq j j', Entity.compare_storeKey j j'⟩, ?_⟩
  rintro c steps hopen hc hsteps st rfl hstill hgoes
  have hsound := (Mirroring.Sound.start hrecorded (Store.Stamped.empty.runAll before) hopen hc
    who).run hsteps
  have hnow := hsound.way.recorded _ hsound.way.now
  have hmirrors := hsound.faithful.delivered hgoes
  obtain ⟨found, hfound, hloads⟩ := Entity.loadAll_of_recorded hstill hnow
  have hkeyed := hmirrors.keyed hnow
  have hsame := hloads.perm_objects hmirrors hnow
  have horder := hloads.eq_objects_iff hkeyed hsame
  refine ⟨found, hfound, ?_, hloads, hkeyed.keys_eq, hkeyed.objects_sorted, hsame, horder,
    fun hplain => ?_⟩
  · unfold Entity.visitStored
    rw [hfound]
    exact showsEach_visit found
  · exact horder.2 fun p hp q hq => Entity.compare_storeKey_of_plain (hplain p hp) (hplain q hq)

namespace Larder

open Flavors (sized put commit)

/-- Two flavors, one with the name of the other and an exclamation mark. -/
def before : List Op := [commit [put (sized "a" 1), put (sized "a!" 1)]]

/-- A third one comes, and one of the two grows after the last delivery. -/
def steps : List FeedStep :=
  [.op (commit [put (sized "b" 1)]), .deliver, .op (commit [put (sized "a" 2)])]

theorem before_files : ∀ op ∈ before, op.Files Flavor := by
  refine List.forall_mem_singleton.2 (Flavors.commit_files ?_).1
  simp only [List.forall_mem_cons]
  exact ⟨Flavors.put_files _ (by decide +kernel), Flavors.put_files _ (by decide +kernel),
    fun _ hw => (nomatch hw)⟩

theorem steps_files (op : Op) (h : FeedStep.op op ∈ steps) :
    op.FilesAside Flavor Flavors.who := by
  simp only [steps, List.mem_cons, FeedStep.op.injEq, reduceCtorEq, List.not_mem_nil, or_false,
    false_or] at h
  rcases h with rfl | rfl
  · exact Flavors.commit_files <| List.forall_mem_singleton.2 <|
      Flavors.put_files _ (by decide +kernel)
  · exact Flavors.commit_files <| List.forall_mem_singleton.2 <|
      Flavors.put_files _ (by decide +kernel)

/-- The store and an empty cache that was fed from it. -/
def fed : Mirroring Flavor :=
  (Mirroring.start (Cache.empty Flavor) Flavors.who (Op.runAll before .empty)).run steps

end Larder

open Larder in
/-- Flavors that are not loaded in the order of their names. -/
theorem load_order_iff_of_a_larder :
    (∀ op ∈ before, op.Files Flavor) ∧ (Op.runAll before .empty).closed = false ∧
    (Cache.empty Flavor).revision ≤ (Op.runAll before .empty).revision ∧
    (∀ op, FeedStep.op op ∈ steps → op.FilesAside Flavor Flavors.who) ∧
    fed.store.closed = false ∧ fed.feed.sync.outcome = none ∧
    ((fed.step .deliver).feed.cache.objects.map fun f => (f.key.name, f.ram)) =
      [("a", 2), ("a!", 1), ("b", 1)] ∧
    ∃ found, Entity.loadAll Flavor fed.store = .ok found ∧
      (found.map fun p => (p.1.key.name, p.1.ram)) = [("a!", 1), ("a", 2), ("b", 1)] ∧
      Entity.Loads found fed.store.contents ∧
      (found.map (·.1)).Perm (fed.step .deliver).feed.cache.objects := by
  obtain ⟨found, hfound, -, hloads, -, -, hsame, -⟩ :=
    (load_order_iff .flavor Flavors.who before before_files).2.2 (Cache.empty Flavor) steps
      (by decide +kernel) (by decide +kernel) steps_files fed rfl (by decide +kernel)
      (by decide +kernel)
  have hnames : ((Entity.loadAll Flavor fed.store).map fun found =>
      found.map fun p => (p.1.key.name, p.1.ram)) = .ok [("a!", 1), ("a", 2), ("b", 1)] := by
    decide +kernel
  have hfound' : Entity.loadAll Flavor fed.store = .ok found := hfound
  rw [hfound'] at hnames
  exact ⟨before_files, by decide +kernel, by decide +kernel, steps_files, by decide +kernel,
    by decide +kernel, by decide +kernel, found, hfound, Except.ok.inj hnames, hloads, hsame⟩

/-- Entities need not be loaded in the order of their keys. -/
theorem load_order_differs :
    ¬ ∀ (k : Kind) (before : List Op), (∀ op ∈ before, op.Files k.Obj) →
      ∀ found, Entity.loadAll k.Obj (Op.runAll before .empty) = .ok found →
        found.Pairwise fun p q => compare (Entity.key p.1) (Entity.key q.1) = .lt := by
  intro h
  have hfound : Entity.loadAll Flavor (Op.runAll Larder.before .empty) =
      .ok [(Flavors.sized "a!" 1, 1), (Flavors.sized "a" 1, 1)] := by decide +kernel
  have hordered := h .flavor Larder.before Larder.before_files _ hfound
  have hpair := List.rel_of_pairwise_cons hordered (List.mem_singleton_self _)
  exact absurd hpair (by decide +kernel)

end Inventory
