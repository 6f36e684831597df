import Inventory.Proofs.Cache

/-!
# What the notices of a commit tell

An observer can mirror a cache from its notices. A commit sends out first what it stored and then
what it removed, so its notices are not in the order of its events.

* `Cache.replays_story`: **the notices of the events, one event after another, replay to what the
  cache holds**, and each of them tells the old value that the observer holds.
* `Notice.replays_sorted_iff`: notices can be told with everything stored before everything removed
  exactly if nothing was stored again after it was removed.
* `notices_replay_iff`: **the notices of a commit replay to what the cache holds unless the commit
  removes an entity and stores it again**, and they come in the order of the events unless it
  stores something after it has removed something.
-/

namespace Inventory

/-! ## Observers -/

/-- What somebody knows of the entities of a cache. -/
abbrev Mirror (α : Type) [Entity α] := Std.ExtTreeMap (Entity.Key α) α

namespace Notice

variable {α : Type} [Entity α]

/-- What an observer makes of a notice. -/
def replay (m : Mirror α) : Notice α → Mirror α
  | updated _ new => m.insert (Entity.key new) new
  | deleted old => m.erase (Entity.key old)
  | watched _ _ => m

/-- The old value that a notice tells is what the observer holds. -/
def Fits (m : Mirror α) : Notice α → Prop
  | updated old new => m[Entity.key new]? = old
  | deleted old => m[Entity.key old]? = some old
  | watched _ _ => True

/-- Notices take an observer from one state to another, and each of them fits. -/
def Replays : List (Notice α) → Mirror α → Mirror α → Prop
  | [], m, m' => m = m'
  | n :: ns, m, m' => n.Fits m ∧ Replays ns (n.replay m) m'

/-- The notice tells that an entity was stored. -/
def isUpdate : Notice α → Bool
  | updated _ _ => true
  | deleted _ | watched _ _ => false

/-- The notice tells that an entity was removed. -/
def isDelete : Notice α → Bool
  | deleted _ => true
  | updated _ _ | watched _ _ => false

/-- The notice tells anything to an observer of the whole cache. -/
def isPublic (n : Notice α) : Bool := n.isUpdate || n.isDelete

/-- The notice tells that the entity of a key was stored. -/
def Updates (n : Notice α) (k : Entity.Key α) : Prop :=
  ∃ old new, n = updated old new ∧ Entity.key new = k

/-- A notice is not that an entity was stored when an earlier one was that some was removed. -/
def InOrder (earlier later : Notice α) : Prop :=
  earlier.isDelete = true → later.isUpdate = false

/-- A notice is not that an entity was stored when an earlier one was that it was removed. -/
def Unrevived (earlier later : Notice α) : Prop :=
  ∀ old, earlier = deleted old → ¬ later.Updates (Entity.key old)

theorem Replays.append {early late : List (Notice α)} {m m' m'' : Mirror α}
    (h : Replays early m m') (h' : Replays late m' m'') : Replays (early ++ late) m m'' := by
  induction early generalizing m with
  | nil => exact (show m = m' from h) ▸ h'
  | cons n ns ih => exact ⟨h.1, ih h.2⟩

/-- Notices for watchers do not matter to an observer. -/
theorem replays_public (ns : List (Notice α)) (m m' : Mirror α) :
    Replays (ns.filter isPublic) m m' ↔ Replays ns m m' := by
  induction ns generalizing m with
  | nil => exact Iff.rfl
  | cons n ns ih =>
    cases n with
    | updated old new => exact and_congr_right fun _ => ih _
    | deleted old => exact and_congr_right fun _ => ih _
    | watched watcher key => exact (ih m).trans ⟨fun h => ⟨trivial, h⟩, fun h => h.2⟩

/-! ## Stored before removed -/

section Sorted

variable {m m' m₁ m₂ : Mirror α} {ns rest : List (Notice α)} {k : Entity.Key α} {a : α}

/-- Changes to different keys can change places. -/
theorem erase_insert_comm (m : Mirror α) (a : α) {k k' : Entity.Key α} (h : k' ≠ k) :
    (m.erase k).insert k' a = (m.insert k' a).erase k := by
  apply Std.ExtTreeMap.ext_getElem?
  intro j
  by_cases hj : j = k'
  · subst hj
    rw [Cache.getElem?_erase_of_ne _ h, Std.ExtTreeMap.getElem?_insert_self,
      Std.ExtTreeMap.getElem?_insert_self]
  · rw [Cache.getElem?_insert_of_ne _ _ hj]
    by_cases hk : j = k
    · subst hk
      rw [Std.ExtTreeMap.getElem?_erase_self, Std.ExtTreeMap.getElem?_erase_self]
    · rw [Cache.getElem?_erase_of_ne _ hk, Cache.getElem?_erase_of_ne _ hk,
        Cache.getElem?_insert_of_ne _ _ hj]

/-- That an entity was removed can be told before or after others were stored. -/
theorem replays_delete_iff (hold : m[Entity.key a]? = some a)
    (hother : ∀ n ∈ ns, ¬ n.Updates (Entity.key a)) :
    Replays (ns.filter isUpdate ++ deleted a :: rest) m m' ↔
      Replays (ns.filter isUpdate ++ rest) (m.erase (Entity.key a)) m' := by
  induction ns generalizing m with
  | nil => exact ⟨fun h => h.2, fun h => ⟨hold, h⟩⟩
  | cons n ns ih =>
    have hns : ∀ n ∈ ns, ¬ n.Updates (Entity.key a) :=
      fun n h => hother n (List.mem_cons_of_mem _ h)
    cases n with
    | deleted old => exact ih hold hns
    | watched watcher key => exact ih hold hns
    | updated old new =>
      have hne : Entity.key new ≠ Entity.key a :=
        fun h => hother _ List.mem_cons_self ⟨old, new, rfl, h⟩
      have hstep := ih (m := m.insert (Entity.key new) new)
        ((Cache.getElem?_insert_of_ne m new hne.symm).trans hold) hns
      rw [← erase_insert_comm m new hne] at hstep
      refine and_congr ?_ hstep
      show m[Entity.key new]? = old ↔ (m.erase (Entity.key a))[Entity.key new]? = old
      rw [Cache.getElem?_erase_of_ne m hne]

/-- The notice that an entity was stored tells what was there before. If one observer holds it and
another does not, it fits only one of them. -/
theorem not_updates_of_differ (h : Replays ns m₁ m)
    (h' : Replays (ns.filter isUpdate ++ rest) m₂ m') (hnone : m₁[k]? = none)
    (hsome : m₂[k]? = some a) : ∀ n ∈ ns, ¬ n.Updates k := by
  induction ns generalizing m₁ m₂ with
  | nil => intro n hn; cases hn
  | cons n ns ih =>
    rw [List.forall_mem_cons]
    cases n with
    | watched watcher key =>
      refine ⟨?_, ih h.2 h' hnone hsome⟩
      rintro ⟨_, _, heq, -⟩
      cases heq
    | deleted old =>
      -- what is not there cannot be removed
      have hne : k ≠ Entity.key old := by
        rintro rfl
        rw [show m₁[Entity.key old]? = some old from h.1] at hnone
        cases hnone
      refine ⟨?_, ih h.2 h' ((Cache.getElem?_erase_of_ne m₁ hne).trans hnone) hsome⟩
      rintro ⟨_, _, heq, -⟩
      cases heq
    | updated old new =>
      have hne : k ≠ Entity.key new := by
        rintro rfl
        have hold : m₁[Entity.key new]? = old := h.1
        have hold' : m₂[Entity.key new]? = old := h'.1
        rw [hnone] at hold
        rw [hsome, ← hold] at hold'
        cases hold'
      refine ⟨?_, ih h.2 h'.2 ((Cache.getElem?_insert_of_ne m₁ new hne).trans hnone)
        ((Cache.getElem?_insert_of_ne m₂ new hne).trans hsome)⟩
      rintro ⟨_, _, heq, hk⟩
      cases heq
      exact hne hk.symm

/-- **Notices can be told with everything stored before everything removed** exactly if nothing was
stored again after it was removed. -/
theorem replays_sorted_iff (h : Replays ns m m') :
    Replays (ns.filter isUpdate ++ ns.filter isDelete) m m' ↔ ns.Pairwise Unrevived := by
  induction ns generalizing m with
  | nil => exact ⟨fun _ => List.Pairwise.nil, fun _ => h⟩
  | cons n ns ih =>
    rw [List.pairwise_cons]
    cases n with
    | watched watcher key =>
      exact (ih h.2).trans ⟨fun hp => ⟨fun _ _ _ hd => (nomatch hd), hp⟩, fun hp => hp.2⟩
    | updated old new =>
      refine (and_congr_right fun _ => ih h.2).trans ?_
      exact ⟨fun hp => ⟨fun _ _ _ hd => (nomatch hd), hp.2⟩, fun hp => ⟨h.1, hp.2⟩⟩
    | deleted old =>
      have hhead : (∀ n ∈ ns, Unrevived (deleted old) n) ↔
          ∀ n ∈ ns, ¬ n.Updates (Entity.key old) :=
        forall₂_congr fun n _ => ⟨fun hn => hn old rfl, fun hn o ho => by cases ho; exact hn⟩
      rw [hhead]
      show Replays (ns.filter isUpdate ++ deleted old :: ns.filter isDelete) m m' ↔ _
      constructor
      · intro hs
        have hnot := not_updates_of_differ h.2 hs Std.ExtTreeMap.getElem?_erase_self h.1
        exact ⟨hnot, (ih h.2).1 ((replays_delete_iff h.1 hnot).1 hs)⟩
      · rintro ⟨hnot, hp⟩
        exact (replays_delete_iff h.1 hnot).2 ((ih h.2).2 hp)

end Sorted

end Notice

/-! ## The notices of a commit -/

namespace Notices

variable {α : Type} [Entity α] {m n : Notices α}

/-- What was stored and what was removed is told apart. -/
structure Parted (n : Notices α) : Prop where
  updated : ∀ x ∈ n.updated, x.isDelete = false
  deleted : ∀ x ∈ n.deleted, x.isUpdate = false

theorem Parted.append (hm : m.Parted) (hn : n.Parted) : (m.append n).Parted where
  updated := List.forall_mem_append.2 ⟨hm.updated, hn.updated⟩
  deleted := List.forall_mem_append.2 ⟨hm.deleted, hn.deleted⟩

/-- What was stored is told before what was removed. -/
theorem Parted.inOrder (h : n.Parted) : n.inOrder.Pairwise Notice.InOrder := by
  refine List.pairwise_append.2 ⟨?_, ?_, fun x hx y _ hd => ?_⟩
  · exact List.pairwise_of_forall_mem_list fun x hx _ _ hd => absurd hd (by simp [h.updated x hx])
  · exact List.pairwise_of_forall_mem_list fun _ _ y hy _ => h.deleted y hy
  · exact absurd hd (by simp [h.updated x hx])

theorem Parted.filter_updates (h : n.Parted) :
    n.inOrder.filter Notice.isUpdate = n.updated.filter Notice.isPublic := by
  have hup : n.updated.filter Notice.isUpdate = n.updated.filter Notice.isPublic :=
    List.filter_congr fun x hx => by simp [Notice.isPublic, h.updated x hx]
  have hdown : n.deleted.filter Notice.isUpdate = [] :=
    List.filter_eq_nil_iff.2 fun x hx => by simp [h.deleted x hx]
  unfold Notices.inOrder
  rw [List.filter_append, hup, hdown, List.append_nil]

theorem Parted.filter_deletes (h : n.Parted) :
    n.inOrder.filter Notice.isDelete = n.deleted.filter Notice.isPublic := by
  have hup : n.updated.filter Notice.isDelete = [] :=
    List.filter_eq_nil_iff.2 fun x hx => by simp [h.updated x hx]
  have hdown : n.deleted.filter Notice.isDelete = n.deleted.filter Notice.isPublic :=
    List.filter_congr fun x hx => by simp [Notice.isPublic, h.deleted x hx]
  unfold Notices.inOrder
  rw [List.filter_append, hup, hdown, List.nil_append]

end Notices

namespace Cache

variable {α : Type} [Entity α] {c : Cache α} {k : Entity.Key α}

/-- The entities that a cache holds. -/
def held (c : Cache α) : Mirror α := c.entries.map fun _ entry => entry.obj

/-- Every entity of a cache is under its own key. -/
def Keyed (c : Cache α) : Prop := ∀ (k : Entity.Key α) (a : α), c.get? k = some a → Entity.key a = k

/-- The notices of the events of a commit, one event after another. -/
def story : List (SyncEvent α) → Cache α → List (Notice α)
  | [], _ => []
  | e :: es, c => (c.applyPart e).2.inOrder ++ story es (c.applyPart e).1

theorem getElem?_held (c : Cache α) (k : Entity.Key α) : c.held[k]? = c.get? k :=
  Std.ExtTreeMap.getElem?_map

theorem held_store (c : Cache α) (k : Entity.Key α) (rev : Revision) (obj : α) :
    (c.store k rev obj).1.held = c.held.insert k (asStored k obj) := by
  apply Std.ExtTreeMap.ext_getElem?
  intro j
  rw [getElem?_held]
  unfold get?
  by_cases hj : j = k
  · rw [hj, store_entry, Std.ExtTreeMap.getElem?_insert_self]
    rfl
  · rw [store_other _ _ _ hj, getElem?_insert_of_ne _ _ hj, getElem?_held]
    rfl

theorem held_remove (c : Cache α) (k : Entity.Key α) : (c.remove k).1.held = c.held.erase k := by
  apply Std.ExtTreeMap.ext_getElem?
  intro j
  rw [getElem?_held]
  unfold get?
  by_cases hj : j = k
  · rw [hj, remove_entry, Std.ExtTreeMap.getElem?_erase_self]
    rfl
  · rw [remove_other _ hj, getElem?_erase_of_ne _ hj, getElem?_held]
    rfl

variable (α) in
theorem Keyed.empty : (empty α).Keyed := by
  intro k a h
  rw [← getElem?_held] at h
  simp [held, Cache.empty] at h

/-- Nobody is told but watchers. -/
theorem not_public_of_watcher {n : Notice α} (h : n ∈ c.watcherNotices k) :
    n.isUpdate = false ∧ n.isDelete = false := by
  obtain ⟨w, -, rfl⟩ := List.mem_map.1 h
  exact ⟨rfl, rfl⟩

theorem replays_watchers (c : Cache α) (k : Entity.Key α) (m : Mirror α) :
    Notice.Replays (c.watcherNotices k) m m := by
  unfold watcherNotices
  induction c.watchersOf k with
  | nil => rfl
  | cons w ws ih => exact ⟨trivial, ih⟩

/-- What an event does to the entities of a cache, and what it tells: that an entity was stored,
that one was removed, or nothing. -/
inductive Part (c : Cache α) : SyncEvent α → Cache α × Notices α → Prop where
  | stored (obj : α) (rev : Revision) :
    Part c (.update obj rev) (c.store (Entity.key obj) rev obj)
  | removed {k : Entity.Key α} {old : α} (rev : Revision) (h : c.get? k = some old) :
    Part c (.delete k rev) ((c.remove k).1, ⟨[], .deleted old :: c.watcherNotices k⟩)
  | quiet (e : SyncEvent α) : Part c e (c, .none)

theorem part (c : Cache α) (e : SyncEvent α) : c.Part e (c.applyPart e) := by
  cases e with
  | update obj rev => exact .stored obj rev
  | delete k rev =>
    show c.Part (.delete k rev) (c.remove k)
    cases h : c.get? k with
    | none =>
      have hsame : c.remove k = (c, .none) := by unfold remove; rw [h]
      rw [hsame]
      exact .quiet _
    | some old =>
      have htold : c.remove k = ((c.remove k).1, ⟨[], .deleted old :: c.watcherNotices k⟩) := by
        unfold remove; rw [h]
      rw [htold]
      exact .removed rev h
  | _ => exact .quiet _

theorem Part.parted {e : SyncEvent α} {changed : Cache α × Notices α} (h : c.Part e changed) :
    changed.2.Parted := by
  cases h with
  | stored obj rev =>
    exact ⟨List.forall_mem_cons.2 ⟨rfl, fun n hn => (not_public_of_watcher hn).2⟩,
      fun _ h => nomatch h⟩
  | removed rev h =>
    exact ⟨fun _ h => (nomatch h),
      List.forall_mem_cons.2 ⟨rfl, fun n hn => (not_public_of_watcher hn).1⟩⟩
  | quiet => exact ⟨fun _ h => (nomatch h), fun _ h => (nomatch h)⟩

theorem parted (es : List (SyncEvent α)) (c : Cache α) : (applyParts es c).2.Parted := by
  induction es generalizing c with
  | nil => exact ⟨fun _ h => (nomatch h), fun _ h => (nomatch h)⟩
  | cons e es ih => exact (c.part e).parted.append (ih _)

/-- The notices of a commit are those of its events, what was stored before what was removed. -/
theorem notices_sorted (es : List (SyncEvent α)) (c : Cache α) :
    (applyParts es c).2.updated.filter Notice.isPublic = (story es c).filter Notice.isUpdate ∧
      (applyParts es c).2.deleted.filter Notice.isPublic =
        (story es c).filter Notice.isDelete := by
  induction es generalizing c with
  | nil => exact ⟨rfl, rfl⟩
  | cons e es ih =>
    obtain ⟨hup, hdown⟩ := ih (c.applyPart e).1
    rw [story, List.filter_append, List.filter_append, (c.part e).parted.filter_updates,
      (c.part e).parted.filter_deletes, ← hup, ← hdown]
    exact ⟨List.filter_append _ _, List.filter_append _ _⟩

/-- If the story does not tell that anything was stored, nothing was. -/
theorem no_updates {es : List (SyncEvent α)} (h : ∀ n ∈ story es c, n.isUpdate = false) :
    (applyParts es c).2.updated = [] := by
  induction es generalizing c with
  | nil => rfl
  | cons e es ih =>
    rw [story, List.forall_mem_append] at h
    show (c.applyPart e).2.updated ++ (applyParts es (c.applyPart e).1).2.updated = []
    rw [ih h.2, List.append_nil]
    have hpart := c.part e
    generalize c.applyPart e = changed at hpart h
    cases hpart with
    | stored obj rev => cases h.1 _ List.mem_cons_self
    | removed rev hk => rfl
    | quiet => rfl

/-- **The notices of a commit are in the order of its events** exactly if it stores nothing after it
has removed something. -/
theorem notices_inOrder_iff (es : List (SyncEvent α)) (c : Cache α) :
    (applyParts es c).2.inOrder = story es c ↔ (story es c).Pairwise Notice.InOrder := by
  constructor
  · intro h
    rw [← h]
    exact (parted es c).inOrder
  · intro h
    induction es generalizing c with
    | nil => rfl
    | cons e es ih =>
      obtain ⟨-, hlate, hcross⟩ := List.pairwise_append.1 h
      have hrest := ih _ hlate
      have hnone (h : ∀ n ∈ story es (c.applyPart e).1, n.isUpdate = false) :=
        no_updates h
      show ((c.applyPart e).2.updated ++ (applyParts es (c.applyPart e).1).2.updated) ++
        ((c.applyPart e).2.deleted ++ (applyParts es (c.applyPart e).1).2.deleted) =
          (c.applyPart e).2.inOrder ++ story es (c.applyPart e).1
      have hpart := c.part e
      generalize c.applyPart e = changed at hpart hcross hrest hnone ⊢
      unfold Notices.inOrder at hrest ⊢
      rw [← hrest]
      cases hpart with
      | stored obj rev => simp only [Cache.store, List.append_assoc, List.nil_append]
      | quiet => rfl
      | removed rev hk =>
        -- nothing is stored any more
        have hdone := hnone fun n hn => hcross _ List.mem_cons_self n hn rfl
        rw [hdone]
        rfl

/-! ## Replaying a commit -/

section Lawful

variable [LawfulEntity α]

theorem key_asStored (k : Entity.Key α) (obj : α) : Entity.key (asStored k obj) = k := by
  unfold asStored
  rw [Entity.key_clearFields]
  split
  · rename_i h
    exact Std.LawfulEqOrd.eq_of_compare (eq_of_beq h)
  · exact LawfulEntity.key_setKey k obj

theorem Keyed.store (h : c.Keyed) (k : Entity.Key α) (rev : Revision) (obj : α) :
    (c.store k rev obj).1.Keyed := by
  intro j a hj
  unfold get? at hj
  by_cases heq : j = k
  · rw [heq, store_entry] at hj
    obtain rfl := Option.some.inj hj
    rw [heq, key_asStored]
  · rw [store_other _ _ _ heq] at hj
    exact h j a hj

omit [LawfulEntity α] in
theorem Keyed.remove (h : c.Keyed) (k : Entity.Key α) : (c.remove k).1.Keyed := by
  intro j a hj
  unfold get? at hj
  by_cases heq : j = k
  · rw [heq, remove_entry] at hj
    cases hj
  · rw [remove_other _ heq] at hj
    exact h j a hj

theorem Part.keyed {e : SyncEvent α} {changed : Cache α × Notices α} (h : c.Part e changed)
    (hc : c.Keyed) : changed.1.Keyed := by
  cases h with
  | stored obj rev => exact hc.store _ rev obj
  | removed rev h => exact hc.remove _
  | quiet => exact hc

/-- The notices of an event replay to what the cache holds after it. -/
theorem Part.replays {e : SyncEvent α} {changed : Cache α × Notices α} (h : c.Part e changed)
    (hc : c.Keyed) : Notice.Replays changed.2.inOrder c.held changed.1.held := by
  cases h with
  | stored obj rev =>
    have hkey := key_asStored (Entity.key obj) obj
    rw [held_store]
    refine ⟨?_, ?_⟩
    · show c.held[Entity.key (asStored (Entity.key obj) obj)]? = c.get? (Entity.key obj)
      rw [hkey, getElem?_held]
    · show Notice.Replays (c.watcherNotices (Entity.key obj) ++ [])
        (c.held.insert (Entity.key (asStored (Entity.key obj) obj)) _) _
      rw [hkey, List.append_nil]
      exact c.replays_watchers _ _
  | @removed k old rev h =>
    obtain rfl := hc k old h
    rw [held_remove]
    exact ⟨(c.getElem?_held _).trans h, c.replays_watchers _ _⟩
  | quiet => rfl

/-- **The notices of the events of a commit, one event after another, replay to what the cache
holds after it.** -/
theorem replays_story (hc : c.Keyed) (es : List (SyncEvent α)) :
    Notice.Replays (story es c) c.held (applyParts es c).1.held := by
  induction es generalizing c with
  | nil => rfl
  | cons e es ih => exact ((c.part e).replays hc).append (ih ((c.part e).keyed hc))

end Lawful

/-- An event that moves no revision does nothing in a commit. -/
theorem applyParts_of_no_revision {es : List (SyncEvent α)}
    (h : es.filterMap partRevision? = []) (c : Cache α) : applyParts es c = (c, .none) := by
  induction es with
  | nil => rfl
  | cons e es ih =>
    cases e with
    | update obj rev => cases h
    | delete k rev => cases h
    | revisionOnly rev => cases h
    | listStart | listed obj rev | listEnd rev =>
      have hrest := ih h
      show ((applyParts es c).1, Notices.none.append (applyParts es c).2) = _
      rw [hrest]
      rfl

theorem applyCommit_held (es : List (SyncEvent α)) (c : Cache α) :
    (c.applyCommit es).1.held = (applyParts es c).1.held :=
  congrArg (·.map fun _ entry => entry.obj) (applyCommit_entries es c)

/-- A commit tells what its events tell. -/
theorem applyCommit_notices (es : List (SyncEvent α)) (c : Cache α) :
    (c.applyCommit es).2 = (applyParts es c).2 := by
  unfold applyCommit
  cases h : (es.filterMap partRevision?).getLast? with
  | some rev => rfl
  | none =>
    rw [applyParts_of_no_revision (List.getLast?_eq_none_iff.1 h)]

/-- The notices of a commit as they are sent out. -/
def sent (es : List (SyncEvent α)) (c : Cache α) : List (Notice α) :=
  (announce (c.applyCommit es)).map (·.notice)

theorem sent_eq (es : List (SyncEvent α)) (c : Cache α) :
    sent es c = (applyParts es c).2.inOrder := by
  unfold sent announce
  rw [List.map_map, applyCommit_notices]
  exact List.map_id _

variable [LawfulEntity α]

/-- **The notices that a commit sends out replay to what the cache holds** exactly if the commit
stores nothing again that it has removed. -/
theorem replays_sent_iff (hc : c.Keyed) (es : List (SyncEvent α)) :
    Notice.Replays (sent es c) c.held (c.applyCommit es).1.held ↔
      (story es c).Pairwise Notice.Unrevived := by
  have hparted := parted es c
  obtain ⟨hup, hdown⟩ := notices_sorted es c
  rw [sent_eq, applyCommit_held, ← Notice.replays_public,
    ← Notice.replays_sorted_iff (replays_story hc es), ← hup, ← hdown]
  unfold Notices.inOrder
  rw [List.filter_append]

end Cache

/-- **What the notices of a commit tell.** Whatever a cache holds and whatever the events of a
commit are: one event after another, their notices replay to what the cache holds after the commit.
The notices are sent out with what was stored before what was removed. They replay to what the cache
holds, each telling the old value that the observer holds, exactly if the commit stores nothing
again that it has removed; and they come in the order of the events exactly if it stores nothing
after it has removed something. -/
theorem notices_replay_iff {k : Kind} {c : Cache k.Obj} (hc : c.Keyed)
    (es : List (SyncEvent k.Obj)) :
    Notice.Replays (Cache.story es c) c.held (c.applyCommit es).1.held ∧
      (Notice.Replays (Cache.sent es c) c.held (c.applyCommit es).1.held ↔
        (Cache.story es c).Pairwise Notice.Unrevived) ∧
      (Cache.sent es c = Cache.story es c ↔ (Cache.story es c).Pairwise Notice.InOrder) := by
  refine ⟨?_, Cache.replays_sent_iff hc es, ?_⟩
  · rw [Cache.applyCommit_held]
    exact Cache.replays_story hc es
  · rw [Cache.sent_eq]
    exact Cache.notices_inOrder_iff es c

namespace Revival

/-- A flavor of some size. -/
def sized (ram : UInt64) : Kind.flavor.Obj := ⟨[], ⟨"a"⟩, ram, 0, 0⟩

/-- A cache with a flavor. -/
def cache : Cache Kind.flavor.Obj := ((Cache.empty Kind.flavor.Obj).store ⟨"a"⟩ 1 (sized 1)).1

/-- A commit that removes the flavor and stores it again. -/
def events : List (SyncEvent Kind.flavor.Obj) := [.delete ⟨"a"⟩ 2, .update (sized 2) 2]

theorem keyed : cache.Keyed := (Cache.Keyed.empty Kind.flavor.Obj).store _ 1 _

end Revival

/-- A commit that removes a flavor and stores it again. -/
theorem notices_replay_iff_of_a_revival :
    Revival.cache.Keyed ∧
      Notice.Replays (Cache.story Revival.events Revival.cache) Revival.cache.held
        (Revival.cache.applyCommit Revival.events).1.held ∧
      (Notice.Replays (Cache.sent Revival.events Revival.cache) Revival.cache.held
          (Revival.cache.applyCommit Revival.events).1.held ↔
        (Cache.story Revival.events Revival.cache).Pairwise Notice.Unrevived) ∧
      (Cache.sent Revival.events Revival.cache = Cache.story Revival.events Revival.cache ↔
        (Cache.story Revival.events Revival.cache).Pairwise Notice.InOrder) :=
  ⟨Revival.keyed, notices_replay_iff (k := .flavor) Revival.keyed Revival.events⟩

/-- An observer of a commit that removes a flavor and stores it again is told another old value than
it holds. -/
theorem revival_misleads :
    ¬ ∀ (k : Kind) (c : Cache k.Obj) (es : List (SyncEvent k.Obj)), c.Keyed →
      Notice.Replays (Cache.sent es c) c.held (c.applyCommit es).1.held ∧
        Cache.sent es c = Cache.story es c := by
  intro h
  have hfits : Revival.cache.held[(⟨"a"⟩ : FlavorKey)]? = none :=
    (h .flavor Revival.cache Revival.events Revival.keyed).1.1
  have hholds : Revival.cache.get? ⟨"a"⟩ = some (Revival.sized 1) := rfl
  rw [Cache.getElem?_held, hholds] at hfits
  cases hfits

end Inventory
