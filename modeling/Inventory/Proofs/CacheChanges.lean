import Inventory.Proofs.CacheRuns
import Inventory.Proofs.Replacement

/-!
# What an act changes in a cache, and whom it tells

The changes of an act are read off what the cache holds before it: an entity is stored, in the place
of what was there or of nothing, or one that is there is removed. Removing what is not there is no
change, and neither is modifying an entity when nothing is made of it.

* `Cache.Reports`: a cache goes through some changes and tells each of them, and with it the
  watchers of its key.
* `CacheAct.replays_changes`: **an act makes its changes**, one after another, and no others.
* `CacheAct.notices_eq`: **an act tells each of its changes once**, what was stored before what was
  removed, and after each of them the watchers of its key.
-/

namespace Inventory

section Changes

variable {α : Type} [Entity α]

/-- The key of the entity that a notice tells of. -/
def Notice.key : Notice α → Entity.Key α
  | updated _ new => Entity.key new
  | deleted old => Entity.key old
  | watched _ k => k

namespace Mirror

/-- Storing an entity changes what is under its key. -/
def stored (m : Mirror α) (k : Entity.Key α) (a : α) : Notice α :=
  .updated m[k]? (Cache.asStored k a)

/-- Removing the entity of a key changes something if there is one. -/
def removed (m : Mirror α) (k : Entity.Key α) : List (Notice α) := m[k]?.toList.map .deleted

/-- Removing the entities whose keys do not pass a test. -/
def pruned (m : Mirror α) (keep : Entity.Key α → Bool) : List (Notice α) :=
  (m.keys.filter fun k => !keep k).flatMap m.removed

/-- What an event of a commit changes. -/
def part (m : Mirror α) : SyncEvent α → List (Notice α)
  | .update obj _ => [m.stored (Entity.key obj) obj]
  | .delete k _ => m.removed k
  | .revisionOnly _ | .listStart | .listed _ _ | .listEnd _ => []

/-- What the events of a commit change, one after another. -/
def parts : List (SyncEvent α) → Mirror α → List (Notice α)
  | [], _ => []
  | e :: es, m => m.part e ++ parts es ((m.part e).foldl Notice.replay m)

end Mirror

/-- What an act changes. The end of a list removes what has not come since its start. -/
def CacheAct.changes (c : Cache α) : CacheAct α → List (Notice α)
  | .apply (.update obj _) | .apply (.listed obj _) => [c.held.stored (Entity.key obj) obj]
  | .apply (.delete k _) => c.held.removed k
  | .apply (.listEnd _) =>
    match c.listed with
    | some seen => c.held.pruned (seen.contains ·)
    | none => []
  | .commit es => Mirror.parts es c.held
  | .modify k _ f => (f c.held[k]?).toList.map (c.held.stored k)
  | .retain keep => c.held.pruned keep
  | .apply .listStart | .apply (.revisionOnly _) | .markStopped | .watch _ _ | .unwatch _ _ => []

end Changes

namespace Notice

variable {α : Type} [Entity α]

theorem Replays.foldl_replay {ns : List (Notice α)} {m m' : Mirror α} (h : Replays ns m m') :
    ns.foldl replay m = m' := by
  induction ns generalizing m with
  | nil => exact h
  | cons n ns ih => exact ih h.2

/-- What is told to everybody is that something was stored or that something was removed. -/
theorem perm_parted {ns : List (Notice α)} (h : ∀ n ∈ ns, n.isPublic = true) :
    (ns.filter isUpdate ++ ns.filter isDelete).Perm ns := by
  have hdelete : ns.filter isDelete = ns.filter fun n => !n.isUpdate := by
    refine List.filter_congr fun n hn => ?_
    have := h n hn
    cases n <;> simp_all [isPublic, isUpdate, isDelete]
  rw [hdelete]
  exact List.filter_append_perm isUpdate ns

end Notice

namespace Cache

variable {α : Type} [Entity α] {c c' : Cache α} {changes : List (Notice α)}

/-- A notice, and after it those for the watchers of its key. -/
def withWatchers (c : Cache α) (n : Notice α) : List (Notice α) := n :: c.watcherNotices n.key

/-- A cache goes through some changes and tells each of them, and after it the watchers of its
key. -/
structure Reports (c : Cache α) (changes : List (Notice α)) (changed : Cache α × Notices α) :
    Prop where
  replays : Notice.Replays changes c.held changed.1.held
  isPublic : ∀ n ∈ changes, n.isPublic = true
  watchers : changed.1.watchers = c.watchers
  nextWatcher : changed.1.nextWatcher = c.nextWatcher
  updated : changed.2.updated = (changes.filter Notice.isUpdate).flatMap c.withWatchers
  deleted : changed.2.deleted = (changes.filter Notice.isDelete).flatMap c.withWatchers

theorem withWatchers_congr (h : c'.watchers = c.watchers) : c'.withWatchers = c.withWatchers := by
  funext n
  unfold withWatchers watcherNotices watchersOf
  rw [h]

theorem held_congr (h : c'.entries = c.entries) : c'.held = c.held :=
  congrArg (·.map fun _ entry => entry.obj) h

namespace Reports

theorem quiet (hentries : c'.entries = c.entries) (hwatchers : c'.watchers = c.watchers)
    (hnext : c'.nextWatcher = c.nextWatcher) : c.Reports [] (c', .none) where
  replays := (held_congr hentries).symm
  isPublic _ h := nomatch h
  watchers := hwatchers
  nextWatcher := hnext
  updated := rfl
  deleted := rfl

/-- Changes of what does not belong to the entities or the watchers can come before. -/
theorem after {changed : Cache α × Notices α} (h : c'.Reports changes changed)
    (hentries : c'.entries = c.entries) (hwatchers : c'.watchers = c.watchers)
    (hnext : c'.nextWatcher = c.nextWatcher) : c.Reports changes changed where
  replays := held_congr hentries ▸ h.replays
  isPublic := h.isPublic
  watchers := h.watchers.trans hwatchers
  nextWatcher := h.nextWatcher.trans hnext
  updated := withWatchers_congr hwatchers ▸ h.updated
  deleted := withWatchers_congr hwatchers ▸ h.deleted

theorem append {first rest : List (Notice α)} {m n : Notices α} {c₁ c₂ : Cache α}
    (h : c.Reports first (c₁, m)) (h' : c₁.Reports rest (c₂, n)) :
    c.Reports (first ++ rest) (c₂, m.append n) where
  replays := h.replays.append h'.replays
  isPublic := List.forall_mem_append.2 ⟨h.isPublic, h'.isPublic⟩
  watchers := h'.watchers.trans h.watchers
  nextWatcher := h'.nextWatcher.trans h.nextWatcher
  updated := by
    have hrest : n.updated = (rest.filter Notice.isUpdate).flatMap c.withWatchers :=
      withWatchers_congr h.watchers ▸ h'.updated
    rw [List.filter_append, List.flatMap_append, ← h.updated, ← hrest]
    rfl
  deleted := by
    have hrest : n.deleted = (rest.filter Notice.isDelete).flatMap c.withWatchers :=
      withWatchers_congr h.watchers ▸ h'.deleted
    rw [List.filter_append, List.flatMap_append, ← h.deleted, ← hrest]
    rfl

/-- Changes of what does not belong to the entities or the watchers can come behind. -/
theorem before {notices : Notices α} {c₁ : Cache α} (h : c.Reports changes (c₁, notices))
    (hentries : c'.entries = c₁.entries) (hwatchers : c'.watchers = c₁.watchers)
    (hnext : c'.nextWatcher = c₁.nextWatcher) : c.Reports changes (c', notices) where
  replays := held_congr hentries ▸ h.replays
  isPublic := h.isPublic
  watchers := hwatchers.trans h.watchers
  nextWatcher := hnext.trans h.nextWatcher
  updated := h.updated
  deleted := h.deleted

end Reports

/-! ## Removing -/

theorem reports_remove (hc : c.Keyed) (k : Entity.Key α) :
    c.Reports (c.held.removed k) (c.remove k) := by
  unfold Mirror.removed
  rw [getElem?_held]
  cases hget : c.get? k with
  | none =>
    have hsame : c.remove k = (c, .none) := by
      unfold remove
      rw [hget]
    rw [hsame]
    exact .quiet rfl rfl rfl
  | some old =>
    have hkey : Entity.key old = k := hc k old hget
    have htold : c.remove k =
        ({ c with entries := c.entries.erase k }, ⟨[], .deleted old :: c.watcherNotices k⟩) := by
      unfold remove
      rw [hget]
    have hheld : ({ c with entries := c.entries.erase k } : Cache α).held = c.held.erase k := by
      have := c.held_remove k
      rwa [htold] at this
    rw [htold]
    refine ⟨⟨?_, ?_⟩, ?_, rfl, rfl, rfl, ?_⟩
    · show c.held[Entity.key old]? = some old
      rw [hkey, getElem?_held, hget]
    · show c.held.erase (Entity.key old) = _
      rw [hkey, hheld]
    · exact List.forall_mem_singleton.2 rfl
    · show .deleted old :: c.watcherNotices k = (.deleted old :: c.watcherNotices _) ++ []
      rw [List.append_nil, ← hkey]
      rfl

theorem reports_removeAll (hc : c.Keyed) {ks : List (Entity.Key α)} (hks : ks.Nodup) :
    c.Reports (ks.flatMap c.held.removed) (removeAll ks c) := by
  induction ks generalizing c with
  | nil => exact .quiet rfl rfl rfl
  | cons k ks ih =>
    obtain ⟨hk, hrest⟩ := List.nodup_cons.1 hks
    -- the other keys have what they had
    have hsame : ks.flatMap (c.remove k).1.held.removed = ks.flatMap c.held.removed := by
      refine List.flatMap_congr fun k' hk' => ?_
      have hne : k' ≠ k := fun heq => hk (heq ▸ hk')
      unfold Mirror.removed
      rw [held_remove, getElem?_erase_of_ne _ hne]
    have hlater := ih (hc.remove k) hrest
    rw [hsame] at hlater
    exact (reports_remove hc k).append hlater

theorem keys_held (c : Cache α) : c.held.keys = c.keys := Std.ExtTreeMap.keys_map

theorem reports_retain (hc : c.Keyed) (keep : Entity.Key α → Bool) :
    c.Reports (c.held.pruned keep) (c.retain keep) := by
  unfold Mirror.pruned retain
  rw [keys_held]
  exact reports_removeAll hc (c.keys_nodup.filter _)

/-! ## Storing -/

section Lawful

variable [LawfulEntity α]

theorem reports_store (c : Cache α) (k : Entity.Key α) (rev : Revision) (a : α) :
    c.Reports [c.held.stored k a] (c.store k rev a) where
  replays := by
    refine ⟨?_, ?_⟩
    · show c.held[Entity.key (asStored k a)]? = c.held[k]?
      rw [key_asStored]
    · show c.held.insert (Entity.key (asStored k a)) (asStored k a) = _
      rw [key_asStored, held_store]
  isPublic := List.forall_mem_singleton.2 rfl
  watchers := rfl
  nextWatcher := rfl
  updated := by
    show .updated (c.get? k) (asStored k a) :: c.watcherNotices k =
      (.updated c.held[k]? (asStored k a) :: c.watcherNotices (Entity.key (asStored k a))) ++ []
    rw [key_asStored, getElem?_held, List.append_nil]
  deleted := rfl

theorem reports_modify (c : Cache α) (k : Entity.Key α) (rev : Revision)
    (f : Option α → Option α) :
    c.Reports ((f c.held[k]?).toList.map (c.held.stored k)) (c.modify k rev f) := by
  unfold modify
  rw [getElem?_held]
  cases f (c.get? k) with
  | none => exact .quiet rfl rfl rfl
  | some a => exact (c.reports_store k rev a).before rfl rfl rfl

theorem reports_part (hc : c.Keyed) (e : SyncEvent α) :
    c.Reports (c.held.part e) (c.applyPart e) := by
  cases e with
  | update obj rev => exact c.reports_store (Entity.key obj) rev obj
  | delete k rev => exact reports_remove hc k
  | revisionOnly | listStart | listed | listEnd => exact .quiet rfl rfl rfl

/-- The events of a commit make their changes one after another. -/
theorem reports_parts (hc : c.Keyed) (es : List (SyncEvent α)) :
    c.Reports (Mirror.parts es c.held) (applyParts es c) := by
  induction es generalizing c with
  | nil => exact .quiet rfl rfl rfl
  | cons e es ih =>
    have hfirst := reports_part hc e
    have hlater := ih ((c.part e).keyed hc)
    rw [← hfirst.replays.foldl_replay] at hlater
    exact hfirst.append hlater

theorem reports_commit (hc : c.Keyed) (es : List (SyncEvent α)) :
    c.Reports (Mirror.parts es c.held) (c.applyCommit es) := by
  have hparts : c.Reports (Mirror.parts es c.held)
      ((applyParts es c).1, (c.applyCommit es).2) := by
    rw [applyCommit_notices]
    exact reports_parts hc es
  -- the revision is all that a commit changes besides
  have hrest : (c.applyCommit es).1.watchers = (applyParts es c).1.watchers ∧
      (c.applyCommit es).1.nextWatcher = (applyParts es c).1.nextWatcher := by
    unfold applyCommit
    cases (es.filterMap partRevision?).getLast? <;> exact ⟨rfl, rfl⟩
  exact hparts.before (applyCommit_entries es c) hrest.1 hrest.2

/-- An event makes its changes. -/
theorem reports_apply (hc : c.Keyed) (e : SyncEvent α) :
    c.Reports ((CacheAct.apply e).changes c) (c.apply e) := by
  cases e with
  | listStart | revisionOnly => exact .quiet rfl rfl rfl
  | update obj rev => exact c.reports_modify (Entity.key obj) rev fun _ => some obj
  | delete k rev => exact (reports_remove hc k).before rfl rfl rfl
  | listed obj rev =>
    exact ((c.noteListed (Entity.key obj)).reports_store (Entity.key obj) rev obj).after rfl rfl rfl
  | listEnd rev =>
    set keep : Entity.Key α → Bool := fun k =>
      match c.listed with
      | some seen => seen.contains k
      | none => true
    have hpruned : (CacheAct.apply (.listEnd rev)).changes c = c.held.pruned keep := by
      show (match c.listed with
        | some seen => c.held.pruned (seen.contains ·)
        | none => []) = _
      cases hlisted : c.listed with
      | some seen => simp only [keep, hlisted]
      | none =>
        -- without a list everything is kept
        simp [Mirror.pruned, keep, hlisted]
    have hended : ({ c with listed := none } : Cache α).Keyed := hc.congr rfl
    have hretained : c.Reports (c.held.pruned keep)
        (({ c with listed := none } : Cache α).retain keep) :=
      (reports_retain hended keep).after rfl rfl rfl
    rw [hpruned]
    exact hretained.before rfl rfl rfl

end Lawful

end Cache

/-! ## Acts -/

namespace CacheAct

variable {α : Type} [Entity α]

/-- The act is about who watches, not about entities. -/
def isOfWatchers : CacheAct α → Bool
  | .watch _ _ | .unwatch _ _ => true
  | .apply _ | .commit _ | .modify _ _ _ | .retain _ | .markStopped => false

variable [LawfulEntity α] {c : Cache α}

theorem reports (hc : c.Keyed) (act : CacheAct α) (h : act.isOfWatchers = false) :
    c.Reports (act.changes c) (act.step c) := by
  cases act with
  | apply e => exact Cache.reports_apply hc e
  | commit es => exact Cache.reports_commit hc es
  | modify k rev f => exact c.reports_modify k rev f
  | retain keep => exact Cache.reports_retain hc keep
  | markStopped => exact .quiet rfl rfl rfl
  | watch | unwatch => cases h

omit [LawfulEntity α] in
/-- Nothing is told of who watches. -/
theorem changes_of_watchers {act : CacheAct α} (h : act.isOfWatchers = true) (c : Cache α) :
    act.changes c = [] ∧ (act.step c).1.held = c.held ∧ (act.step c).2 = .none := by
  cases act with
  | watch | unwatch => exact ⟨rfl, rfl, rfl⟩
  | _ => cases h

theorem changes_public (hc : c.Keyed) (act : CacheAct α) :
    ∀ n ∈ act.changes c, n.isPublic = true := by
  cases h : act.isOfWatchers with
  | true =>
    rw [(changes_of_watchers h c).1]
    exact fun _ hn => nomatch hn
  | false => exact (reports hc act h).isPublic

/-- **An act makes its changes**, one after another, and no others. -/
theorem replays_changes (hc : c.Keyed) (act : CacheAct α) :
    Notice.Replays (act.changes c) c.held (act.step c).1.held := by
  cases h : act.isOfWatchers with
  | true =>
    obtain ⟨hchanges, hheld, -⟩ := changes_of_watchers h c
    rw [hchanges, hheld]
    rfl
  | false => exact (reports hc act h).replays

/-- **An act tells each of its changes once**, what was stored before what was removed, and after
each of them the watchers of its key. -/
theorem notices_eq (hc : c.Keyed) (act : CacheAct α) :
    (act.step c).2.inOrder = ((act.changes c).filter Notice.isUpdate ++
      (act.changes c).filter Notice.isDelete).flatMap c.withWatchers := by
  cases h : act.isOfWatchers with
  | true =>
    obtain ⟨hchanges, -, hnotices⟩ := changes_of_watchers h c
    rw [hchanges, hnotices]
    rfl
  | false =>
    have hreports := reports hc act h
    rw [List.flatMap_append, ← hreports.updated, ← hreports.deleted]
    rfl

end CacheAct

end Inventory
