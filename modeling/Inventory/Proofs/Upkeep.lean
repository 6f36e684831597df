import Inventory.Proofs.CacheChanges

/-!
# What every act keeps in order

Entities come into a cache by single events, whole commits, lists, and whatever a caller makes of
what is there. All of them are stored by the same step, which gives them the key that they are
stored under and takes the addresses off them; so what an act changes says enough of what is there
afterwards.

* `Notice.Replays.held_or_told`, `Notice.Replays.holds`: what is there after some changes was there
  before or has come with one of them, and the last change of a key decides.
* `CacheAct.bare_changes`: **nothing is stored with addresses**, whatever an act asks for.
* `CacheAct.updates_eq`: the entities that are told as stored are those that an act stores.
* `CacheAct.onward_step`: the revision does not go back, and a cache that was synced once stays so.
* `cache_form_is_kept`: **every cache is tidy, and every act upholds that**, in any order.
-/

namespace Inventory

/-! ## What is there after some changes -/

namespace Notice

variable {α : Type} [Entity α] {ns front back : List (Notice α)} {m m' : Mirror α}
  {k : Entity.Key α} {a new : α} {old : Option α}

/-- What an observer holds in the end was held before **or told**. -/
theorem Replays.held_or_told (h : Replays ns m m') (hk : m'[k]? = some a) :
    m[k]? = some a ∨ ∃ old, updated old a ∈ ns := by
  induction ns generalizing m with
  | nil =>
    obtain rfl : m = m' := h
    exact .inl hk
  | cons n ns ih =>
    obtain ⟨-, hrest⟩ := h
    rcases ih hrest with hheld | ⟨old, htold⟩
    · -- it was held after the first notice
      cases n with
      | updated old new =>
        by_cases hnew : k = Entity.key new
        · have hown : (m.insert (Entity.key new) new)[k]? = some new := by
            rw [hnew, Std.ExtTreeMap.getElem?_insert_self]
          obtain rfl : new = a := Option.some.inj (hown.symm.trans hheld)
          exact .inr ⟨old, List.mem_cons_self⟩
        · exact .inl ((Cache.getElem?_insert_of_ne m new hnew).symm.trans hheld)
      | deleted old =>
        by_cases hold : k = Entity.key old
        · have hgone : (m.erase (Entity.key old))[k]? = none := by
            rw [hold, Std.ExtTreeMap.getElem?_erase_self]
          cases hgone.symm.trans hheld
        · exact .inl ((Cache.getElem?_erase_of_ne m hold).symm.trans hheld)
      | watched => exact .inl hheld
    · exact .inr ⟨old, List.mem_cons_of_mem _ htold⟩

/-- Keys of which nothing is told keep what they have. -/
theorem Replays.untold (h : Replays ns m m') (hns : ∀ n ∈ ns, n.key ≠ k) : m'[k]? = m[k]? := by
  induction ns generalizing m with
  | nil =>
    obtain rfl : m = m' := h
    rfl
  | cons n ns ih =>
    obtain ⟨-, hrest⟩ := h
    rw [List.forall_mem_cons] at hns
    rw [ih hrest hns.2]
    cases n with
    | updated old new => exact Cache.getElem?_insert_of_ne m new (Ne.symm hns.1)
    | deleted old => exact Cache.getElem?_erase_of_ne m (Ne.symm hns.1)
    | watched => rfl

/-- An entity that is told as stored **is there in the end**, unless more is told of its key. -/
theorem Replays.holds (h : Replays (front ++ updated old new :: back) m m')
    (hback : ∀ n ∈ back, n.key ≠ Entity.key new) : m'[Entity.key new]? = some new := by
  induction front generalizing m with
  | nil =>
    rw [h.2.untold hback]
    exact Std.ExtTreeMap.getElem?_insert_self
  | cons n front ih => exact ih h.2

end Notice

/-! ## Entities without addresses -/

section Bare

variable {α : Type} [Entity α] {c : Cache α} {m : Mirror α} {n : Notice α}

/-- If a notice tells that an entity was stored, the entity carries no addresses. -/
def Notice.Bare (n : Notice α) : Prop := ∀ old new, n = .updated old new → Entity.fields new = []

theorem Cache.fields_asStored (k : Entity.Key α) (a : α) : Entity.fields (asStored k a) = [] :=
  Entity.fields_make _ _

namespace Mirror

theorem bare_stored (m : Mirror α) (k : Entity.Key α) (a : α) : (m.stored k a).Bare := by
  intro old new heq
  cases heq
  exact Cache.fields_asStored k a

theorem bare_removed {k : Entity.Key α} (h : n ∈ m.removed k) : n.Bare := by
  obtain ⟨old, -, rfl⟩ := List.mem_map.1 h
  exact fun _ _ heq => nomatch heq

theorem bare_pruned {keep : Entity.Key α → Bool} (h : n ∈ m.pruned keep) : n.Bare := by
  obtain ⟨k, -, hk⟩ := List.mem_flatMap.1 h
  exact bare_removed hk

theorem bare_part {e : SyncEvent α} (h : n ∈ m.part e) : n.Bare := by
  cases e with
  | update obj rev =>
    rw [List.mem_singleton.1 h]
    exact m.bare_stored _ obj
  | delete k rev => exact bare_removed h
  | revisionOnly | listStart | listed | listEnd => cases h

theorem bare_parts {es : List (SyncEvent α)} (h : n ∈ parts es m) : n.Bare := by
  induction es generalizing m with
  | nil => cases h
  | cons e es ih =>
    rcases List.mem_append.1 h with hfirst | hlater
    · exact bare_part hfirst
    · exact ih hlater

end Mirror

/-- **Nothing is stored with addresses**, whatever an act asks for. -/
theorem CacheAct.bare_changes {act : CacheAct α} (h : n ∈ act.changes c) : n.Bare := by
  cases act with
  | apply e =>
    cases e with
    | update obj rev | listed obj rev =>
      rw [List.mem_singleton.1 h]
      exact c.held.bare_stored _ obj
    | delete k rev => exact Mirror.bare_removed h
    | listEnd rev =>
      cases hlisted : c.listed with
      | some seen =>
        simp only [changes, hlisted] at h
        exact Mirror.bare_pruned h
      | none =>
        simp only [changes, hlisted] at h
        cases h
    | listStart | revisionOnly => cases h
  | commit es => exact Mirror.bare_parts h
  | modify k rev f =>
    obtain ⟨a, -, rfl⟩ := List.mem_map.1 h
    exact c.held.bare_stored k a
  | retain keep => exact Mirror.bare_pruned h
  | markStopped | watch | unwatch => cases h

end Bare

/-! ## What is told as stored -/

section Told

variable {α : Type} [Entity α]

theorem Notice.filter_isDelete_isUpdate (ns : List (Notice α)) :
    (ns.filter isDelete).filter isUpdate = [] := by
  rw [List.filter_filter, List.filter_eq_nil_iff]
  intro n _
  cases n <;> simp [isUpdate, isDelete]

/-- Those who watch a key are not told what was stored. -/
theorem Cache.filter_withWatchers (c : Cache α) (n : Notice α) :
    (c.withWatchers n).filter Notice.isUpdate = [n].filter Notice.isUpdate := by
  have hnone : (c.watcherNotices n.key).filter Notice.isUpdate = [] := by
    refine List.filter_eq_nil_iff.2 fun x hx => ?_
    simp [(not_public_of_watcher hx).1]
  have hsplit : c.withWatchers n = [n] ++ c.watcherNotices n.key := rfl
  rw [hsplit, List.filter_append, hnone, List.append_nil]

theorem Cache.filter_flatMap_withWatchers (c : Cache α) (ns : List (Notice α)) :
    (ns.flatMap c.withWatchers).filter Notice.isUpdate = ns.filter Notice.isUpdate := by
  rw [List.filter_flatMap]
  simp only [c.filter_withWatchers]
  rw [← List.filter_flatMap, List.flatMap_singleton']

/-- **The entities that are told as stored are those that an act stores**, in the order in which it
stores them. -/
theorem CacheAct.updates_eq [LawfulEntity α] {c : Cache α} (hc : c.Keyed) (act : CacheAct α) :
    (act.step c).2.inOrder.filter Notice.isUpdate = (act.changes c).filter Notice.isUpdate := by
  rw [notices_eq hc, c.filter_flatMap_withWatchers, List.filter_append,
    Notice.filter_isDelete_isUpdate, List.append_nil, List.filter_filter]
  simp only [Bool.and_self]

end Told

/-! ## What never goes back -/

namespace Cache

variable {α : Type} [Entity α] {c c' c'' : Cache α}

/-- A cache has gone on to another state: its revision has not gone back, and if it was synced once
it still is. -/
structure Onward (c c' : Cache α) : Prop where
  revision : c.revision ≤ c'.revision
  synced : c.initialSyncDone = true → c'.initialSyncDone = true

namespace Onward

theorem refl (c : Cache α) : c.Onward c := ⟨le_rfl, id⟩

theorem trans (h : c.Onward c') (h' : c'.Onward c'') : c.Onward c'' :=
  ⟨le_trans h.revision h'.revision, fun hdone => h'.synced (h.synced hdone)⟩

/-- The revision moves forward only, also to a revision that has passed. -/
theorem advance (h : c.Onward c') (rev : Revision) : c.Onward (c'.advance rev) :=
  ⟨le_trans h.revision (le_max_left _ _), h.synced⟩

end Onward

theorem onward_store (c : Cache α) (k : Entity.Key α) (rev : Revision) (a : α) :
    c.Onward (c.store k rev a).1 := ⟨le_rfl, id⟩

theorem onward_remove (c : Cache α) (k : Entity.Key α) : c.Onward (c.remove k).1 := by
  unfold remove
  cases c.get? k with
  | none => exact .refl c
  | some old => exact ⟨le_rfl, id⟩

theorem onward_removeAll (ks : List (Entity.Key α)) (c : Cache α) :
    c.Onward (removeAll ks c).1 := by
  induction ks generalizing c with
  | nil => exact .refl c
  | cons k ks ih => exact (c.onward_remove k).trans (ih _)

theorem onward_retain (c : Cache α) (keep : Entity.Key α → Bool) : c.Onward (c.retain keep).1 :=
  onward_removeAll _ c

theorem onward_modify (c : Cache α) (k : Entity.Key α) (rev : Revision)
    (f : Option α → Option α) : c.Onward (c.modify k rev f).1 := by
  unfold modify
  cases f (c.get? k) with
  | none => exact .refl c
  | some a => exact (c.onward_store k rev a).advance rev

theorem onward_parts (es : List (SyncEvent α)) (c : Cache α) : c.Onward (applyParts es c).1 := by
  induction es generalizing c with
  | nil => exact .refl c
  | cons e es ih =>
    have hfirst : c.Onward (c.applyPart e).1 := by
      cases e with
      | update obj rev => exact c.onward_store _ rev obj
      | delete k rev => exact c.onward_remove k
      | revisionOnly | listStart | listed | listEnd => exact .refl c
    exact hfirst.trans (ih _)

theorem onward_commit (c : Cache α) (es : List (SyncEvent α)) : c.Onward (c.applyCommit es).1 := by
  unfold applyCommit
  cases (es.filterMap partRevision?).getLast? with
  | none => exact onward_parts es c
  | some rev => exact (onward_parts es c).advance rev

theorem onward_apply (c : Cache α) (e : SyncEvent α) : c.Onward (c.apply e).1 := by
  cases e with
  | listStart => exact ⟨le_rfl, id⟩
  | listed obj rev =>
    have hnoted : c.Onward (c.noteListed (Entity.key obj)) := ⟨le_rfl, id⟩
    exact hnoted.trans (onward_store _ _ rev obj)
  | listEnd rev =>
    have hended : c.Onward { c with listed := none } := ⟨le_rfl, id⟩
    have hpruned (keep : Entity.Key α → Bool) :
        c.Onward ((({ c with listed := none } : Cache α).retain keep).1.advance rev) :=
      (hended.trans (onward_retain _ keep)).advance rev
    exact ⟨(hpruned _).revision, fun _ => rfl⟩
  | update obj rev => exact c.onward_modify _ rev _
  | delete k rev => exact (c.onward_remove k).advance rev
  | revisionOnly rev => exact (Onward.refl c).advance rev

end Cache

namespace CacheAct

variable {α : Type} [Entity α]

/-- **No act takes a cache back.** -/
theorem onward_step (c : Cache α) (act : CacheAct α) : c.Onward (act.step c).1 := by
  cases act with
  | apply e => exact c.onward_apply e
  | commit es => exact c.onward_commit es
  | modify k rev f => exact c.onward_modify k rev f
  | retain keep => exact c.onward_retain keep
  | markStopped | watch | unwatch => exact ⟨le_rfl, id⟩

theorem onward_run (acts : List (CacheAct α)) (c : Cache α) : c.Onward (run acts c) := by
  induction acts generalizing c with
  | nil => exact .refl c
  | cons act acts ih => exact (act.onward_step c).trans (ih _)

end CacheAct

/-! ## Tidy caches -/

section Upkeep

variable {α : Type} [Entity α]

/-- A cache in order: the entity of a key has that key and carries no addresses. -/
structure Cache.Tidy (c : Cache α) : Prop where
  keyed : c.Keyed
  bare : ∀ (k : Entity.Key α) (a : α), c.get? k = some a → Entity.fields a = []

/-- What an act does to a cache in order. It leaves it in order and goes on from it. It makes its
changes, and those of them that store an entity are told in turn with this entity, so an entity of
whose key nothing else is told after it is there in the end. A change for which nothing is made of
what is there changes nothing and is told to nobody. -/
structure CacheAct.Upholds (act : CacheAct α) (c : Cache α) : Prop where
  tidy : (act.step c).1.Tidy
  onward : c.Onward (act.step c).1
  made : Notice.Replays (act.changes c) c.held (act.step c).1.held
  told : (act.step c).2.inOrder.filter Notice.isUpdate = (act.changes c).filter Notice.isUpdate
  shown : ∀ front old new back, act.changes c = front ++ .updated old new :: back →
    (∀ n ∈ back, n.key ≠ Entity.key new) →
    (act.step c).1.get? (Entity.key new) = some new ∧ Entity.fields new = []
  declined : ∀ k rev f, act = .modify k rev f → f (c.get? k) = none → act.step c = (c, .none)

variable (α) in
theorem Cache.Tidy.empty : (Cache.empty α).Tidy where
  keyed := .empty α
  bare k a ha := by
    have hnone : (Cache.empty α).get? k = none := by
      unfold Cache.empty get?
      rw [Std.ExtTreeMap.getElem?_empty]
      rfl
    rw [hnone] at ha
    cases ha

variable [LawfulEntity α] {c : Cache α}

/-- **An act leaves a cache in order**: what is there afterwards was there or was stored. -/
theorem Cache.Tidy.step (h : c.Tidy) (act : CacheAct α) : (act.step c).1.Tidy where
  keyed := act.keyed_step h.keyed
  bare k a ha := by
    rw [← getElem?_held] at ha
    rcases (act.replays_changes h.keyed).held_or_told ha with hheld | ⟨old, htold⟩
    · rw [getElem?_held] at hheld
      exact h.bare k a hheld
    · exact CacheAct.bare_changes htold old a rfl

theorem Cache.Tidy.run (h : c.Tidy) (acts : List (CacheAct α)) : (CacheAct.run acts c).Tidy := by
  induction acts generalizing c with
  | nil => exact h
  | cons act acts ih => exact ih (h.step act)

theorem Cache.Tidy.upholds (h : c.Tidy) (act : CacheAct α) : act.Upholds c where
  tidy := h.step act
  onward := act.onward_step c
  made := act.replays_changes h.keyed
  told := act.updates_eq h.keyed
  shown := by
    intro front old new back hchanges hback
    have hmade := act.replays_changes h.keyed
    have hmem : .updated old new ∈ act.changes c := by
      rw [hchanges]
      exact List.mem_append_right _ List.mem_cons_self
    rw [hchanges] at hmade
    rw [← getElem?_held]
    exact ⟨hmade.holds hback, CacheAct.bare_changes hmem old new rfl⟩
  declined := by
    rintro k rev f rfl hf
    show c.modify k rev f = _
    unfold modify
    rw [hf]

end Upkeep

/-- **Caches keep their form.** Whatever was asked of a cache of entities of any type, in any order
and with any revisions: the entity of each key has that key and carries no addresses, and whatever
is asked next upholds that. It tells exactly the entities that it stores as stored; it stores nothing
and tells nothing if nothing is made of what is there. The revision never goes back, however much is
asked, and a cache that was synced once stays so. -/
theorem cache_form_is_kept (kind : Kind) (acts : List (CacheAct kind.Obj)) :
    (CacheAct.run acts (Cache.empty kind.Obj)).Tidy ∧
      (∀ act : CacheAct kind.Obj, act.Upholds (CacheAct.run acts (Cache.empty kind.Obj))) ∧
      ∀ more, (CacheAct.run acts (Cache.empty kind.Obj)).Onward
        (CacheAct.run (acts ++ more) (Cache.empty kind.Obj)) := by
  have htidy : (CacheAct.run acts (Cache.empty kind.Obj)).Tidy :=
    (Cache.Tidy.empty kind.Obj).run acts
  refine ⟨htidy, htidy.upholds, fun more => ?_⟩
  have hsplit : CacheAct.run (acts ++ more) (Cache.empty kind.Obj) =
      CacheAct.run more (CacheAct.run acts (Cache.empty kind.Obj)) := List.foldl_append
  rw [hsplit]
  exact CacheAct.onward_run more _

namespace Careen

/-- A flavor with the address of a field. -/
def flavor : Kind.flavor.Obj := ⟨["ram"], ⟨"b"⟩, 1, 2, 3⟩

/-- Under another key somebody stores this flavor, and then a list ends that never started, at a
revision that has passed. -/
def acts : List (CacheAct Kind.flavor.Obj) :=
  [.modify ⟨"a"⟩ 5 fun _ => some flavor, .apply (.listEnd 3)]

/-- The cache that comes of it. -/
def cache : Cache Kind.flavor.Obj := CacheAct.run acts (Cache.empty Kind.flavor.Obj)

/-- The flavor comes under its own key, at a revision that has passed. -/
def update : CacheAct Kind.flavor.Obj := .apply (.update flavor 4)

/-- Nothing is made of what is there. -/
def idle : CacheAct Kind.flavor.Obj := .modify ⟨"a"⟩ 9 fun _ => none

end Careen

/-- The flavor has the key that it is stored under, the revision stays, and the end of the list
counts. What is stored next is there, and what is made of nothing changes nothing. -/
theorem cache_form_is_kept_on_the_beach :
    Careen.cache.get? ⟨"a"⟩ = some ⟨[], ⟨"a"⟩, 1, 2, 3⟩ ∧ Careen.cache.revision = 5 ∧
    (∀ more, (CacheAct.run (Careen.acts ++ more)
      (Cache.empty Kind.flavor.Obj)).initialSyncDone = true) ∧
    (Careen.update.step Careen.cache).1.get? ⟨"b"⟩ = some ⟨[], ⟨"b"⟩, 1, 2, 3⟩ ∧
    Careen.idle.step Careen.cache = (Careen.cache, .none) := by
  obtain ⟨-, hupholds, honward⟩ := cache_form_is_kept .flavor Careen.acts
  have hdone : Careen.cache.initialSyncDone = true := by decide +kernel
  obtain ⟨hstored, -⟩ := (hupholds Careen.update).shown [] none
    { Careen.flavor with fields := [] } [] rfl (fun _ hn => nomatch hn)
  have hidle := (hupholds Careen.idle).declined _ _ _ rfl rfl
  exact ⟨by decide +kernel, by decide +kernel, fun more => (honward more).synced hdone, hstored,
    hidle⟩

end Inventory
