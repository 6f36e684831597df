import Inventory.Proofs.Notices
import Mathlib.Data.List.Perm.Basic

/-!
# A commit and its events one by one

A receiver may apply the events of a commit one after another, each with a move of the revision and
with notices of its own. A cache applies them together: it moves its revision once, and sends out
what was stored before what was removed.

* `Cache.apply_eq_part`: an event does what it does in a commit, and then moves the revision.
* `Cache.applyEach_advance`: **a cache that is at the revision already is taken through a commit of
  that revision, event by event, as if the revision moved once.**
* `Cache.story_perm`: the notices of a commit are those of its events, in another order.
* `applyEach_agrees_with_commit`: **both ways come to the same cache and send out the same
  notices.**
-/

namespace Inventory

namespace Notices

variable {α : Type} [Entity α]

/-- The notices of two changes that are complete together are those of the one and the other. -/
theorem inOrder_append (m n : Notices α) :
    (m.append n).inOrder.Perm (m.inOrder ++ n.inOrder) := by
  unfold append inOrder
  have hswap : (n.updated ++ m.deleted ++ n.deleted).Perm
      (m.deleted ++ n.updated ++ n.deleted) := List.perm_append_comm.append_right _
  simpa only [List.append_assoc] using hswap.append_left m.updated

end Notices

namespace Cache

variable {α : Type} [Entity α] {rev : Revision}

theorem advance_advance (c : Cache α) (rev : Revision) :
    (c.advance rev).advance rev = c.advance rev := by
  unfold advance
  rw [max_assoc, max_self]

/-- An event with a revision does what it does in a commit, and then moves the revision. -/
theorem apply_eq_part {e : SyncEvent α} (h : partRevision? e = some rev) (c : Cache α) :
    c.apply e = ((c.applyPart e).1.advance rev, (c.applyPart e).2) := by
  cases e with
  | update obj rev' | delete k rev' | revisionOnly rev' =>
    obtain rfl := Option.some.inj h
    rfl
  | listStart | listed obj rev' | listEnd rev' => cases h

/-- What an event does in a commit does not depend on the revision of the cache. -/
theorem applyPart_advance (e : SyncEvent α) (c : Cache α) :
    (c.advance rev).applyPart e = ((c.applyPart e).1.advance rev, (c.applyPart e).2) := by
  cases e with
  | delete k rev' =>
    show (c.advance rev).remove k = ((c.remove k).1.advance rev, (c.remove k).2)
    have hsame : (c.advance rev).get? k = c.get? k := rfl
    unfold remove
    rw [hsame]
    cases c.get? k <;> rfl
  | _ => rfl

/-- **Events of one revision, applied one after another** to a cache that is at this revision
already, do what they do in a commit. -/
theorem applyEach_advance {es : List (SyncEvent α)} (h : ∀ e ∈ es, partRevision? e = some rev)
    (c : Cache α) :
    applyEach es (c.advance rev) = ((applyParts es c).1.advance rev, story es c) := by
  induction es generalizing c with
  | nil => rfl
  | cons e es ih =>
    rw [List.forall_mem_cons] at h
    -- the revision is reached already, so the event does not move it
    have hstep : (c.advance rev).apply e = ((c.applyPart e).1.advance rev, (c.applyPart e).2) := by
      rw [apply_eq_part h.1, applyPart_advance, advance_advance]
    have hrest := ih h.2 (c.applyPart e).1
    unfold applyEach
    rw [hstep]
    simp only [hrest]
    rfl

/-- The first event brings the cache to the revision. -/
theorem applyEach_eq {es : List (SyncEvent α)} (h : ∀ e ∈ es, partRevision? e = some rev)
    (hne : es ≠ []) (c : Cache α) :
    applyEach es c = ((applyParts es c).1.advance rev, story es c) := by
  cases es with
  | nil => exact absurd rfl hne
  | cons e es =>
    rw [List.forall_mem_cons] at h
    -- from here on the cache is at the revision
    have hrest := applyEach_advance h.2 (c.applyPart e).1
    unfold applyEach
    rw [apply_eq_part h.1]
    simp only [hrest]
    rfl

/-- **The notices of a commit are those of its events**, in another order. -/
theorem story_perm (es : List (SyncEvent α)) (c : Cache α) :
    (story es c).Perm (applyParts es c).2.inOrder := by
  induction es generalizing c with
  | nil => rfl
  | cons e es ih =>
    have hlate := (ih (c.applyPart e).1).append_left (c.applyPart e).2.inOrder
    exact hlate.trans (Notices.inOrder_append _ _).symm

end Cache

/-- **Applying a commit as a whole agrees with applying its events one by one.** Whatever a cache
holds, whoever watches it and whatever list it is receiving: events that are no list and all have
one revision take it to the same state both ways, also if they come to a key more than once, remove
what is not there or store an entity that says what a request wanted to change. They send out the
same notices, each as often, with the same old and new values. -/
theorem applyEach_agrees_with_commit (kind : Kind) (c : Cache kind.Obj) (rev : Revision)
    (es : List (SyncEvent kind.Obj)) (hes : ∀ e ∈ es, Cache.partRevision? e = some rev) :
    (Cache.applyEach es c).1 = (c.applyCommit es).1 ∧
      (Cache.applyEach es c).2.Perm (c.applyCommit es).2.inOrder := by
  by_cases hne : es = []
  · subst hne
    exact ⟨rfl, .refl _⟩
  · rw [Cache.applyEach_eq hes hne, Cache.applyCommit_of_revision hes hne,
      Cache.applyCommit_notices]
    exact ⟨rfl, Cache.story_perm es c⟩

namespace Refit

/-- A flavor of some size, and what a request wanted to change. -/
def sized (fields : List String) (name : String) (ram : UInt64) : Kind.flavor.Obj :=
  ⟨fields, ⟨name⟩, ram, 0, 0⟩

/-- A cache with a flavor that somebody watches. -/
def cache : Cache Kind.flavor.Obj :=
  ((((Cache.empty Kind.flavor.Obj).watch ⟨"a"⟩ "w").2).store ⟨"a"⟩ 1 (sized [] "a" 1)).1

/-- A commit that removes the flavor and one that is not there, and stores the first one again,
twice. -/
def events : List (SyncEvent Kind.flavor.Obj) :=
  [.delete ⟨"a"⟩ 7, .delete ⟨"b"⟩ 7, .update (sized ["3"] "a" 2) 7, .update (sized [] "a" 3) 7,
    .revisionOnly 7]

theorem revision_events : ∀ e ∈ events, Cache.partRevision? e = some 7 := by
  intro e he
  simp only [events, List.mem_cons, List.not_mem_nil, or_false] at he
  rcases he with rfl | rfl | rfl | rfl | rfl <;> rfl

end Refit

/-- A flavor is removed and stored twice; what is sent out first depends on the way. -/
theorem applyEach_agrees_with_commit_of_a_refit :
    (∀ e ∈ Refit.events, Cache.partRevision? e = some 7) ∧
      (Cache.applyEach Refit.events Refit.cache).1 =
        (Refit.cache.applyCommit Refit.events).1 ∧
      (Cache.applyEach Refit.events Refit.cache).2.Perm
        (Refit.cache.applyCommit Refit.events).2.inOrder ∧
      (Cache.applyEach Refit.events Refit.cache).2.map Notice.isDelete =
        [true, false, false, false, false, false] ∧
      (Refit.cache.applyCommit Refit.events).2.inOrder.map Notice.isDelete =
        [false, false, false, false, true, false] := by
  obtain ⟨hcache, hnotices⟩ :=
    applyEach_agrees_with_commit .flavor Refit.cache 7 Refit.events Refit.revision_events
  exact ⟨Refit.revision_events, hcache, hnotices, rfl, rfl⟩

end Inventory
