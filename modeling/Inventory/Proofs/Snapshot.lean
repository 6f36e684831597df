import Inventory.Proofs.Watch

/-!
# What a snapshot protects

A conditional commit with a snapshot is to find the keys that it writes blindly as they were then.
All that it can ask is the revision that wrote a key last, and an absent key has none.

* `writeAll_changed`, `writeAll_unchanged`: what is under a key tells whether a commit has changed
  it, unless the key is absent.
* `modRevision_le_iff`: so a key has no revision beyond an earlier one if it was not changed since,
  **or was deleted last**.
* `blind_writes_checked`: **a commit with a snapshot finds every change since then but the
  deletes**: it succeeds over a key that was deleted, or deleted and created and deleted again.
-/

namespace Inventory

namespace Contents

variable {m : Contents} {rev : Revision} {ws : List Write} {k : String}

/-- A key that a commit has changed is gone or has the revision of the commit. -/
theorem writeAll_changed (h : ∃ e ∈ (writeAll rev ws m).2, e.key = k) :
    (writeAll rev ws m).1[k]? = none ∨
      ∃ stored, (writeAll rev ws m).1[k]? = some stored ∧ stored.modRevision = rev := by
  induction ws generalizing m with
  | nil => obtain ⟨e, he, -⟩ := h; cases he
  | cons w ws ih =>
    obtain ⟨e, he, hk⟩ := h
    rw [writeAll_cons] at he ⊢
    rcases List.mem_append.1 he with he | he
    · -- the first write has changed it, and the later ones change it again or leave it
      obtain ⟨hw, -⟩ := event_of_write (Option.mem_toList.1 he)
      rcases getElem?_writeAll_cases rev ws (m.write rev w).1 k with h | h
      · rw [h, getElem?_write, if_pos (hk.symm.trans hw)]
        cases w with
        | put key value => exact .inr ⟨_, rfl, Stored.rewritten_modRevision _ _ _⟩
        | delete key => exact .inl rfl
      · exact h
    · exact ih ⟨e, he, hk⟩

/-- A key that a commit has not changed is as it was. -/
theorem writeAll_unchanged (h : ∀ e ∈ (writeAll rev ws m).2, e.key ≠ k) :
    (writeAll rev ws m).1[k]? = m[k]? := by
  induction ws generalizing m with
  | nil => rfl
  | cons w ws ih =>
    rw [writeAll_cons] at h ⊢
    rw [ih fun e he => h e (List.mem_append_right _ he)]
    cases he : (m.write rev w).2 with
    | none => rw [write_eq_of_no_event he]
    | some e =>
      have hne := h e (List.mem_append_left _ (Option.mem_toList.2 he))
      rw [(event_of_write he).1] at hne
      rw [getElem?_write, if_neg hne.symm]

end Contents

namespace Op

variable {s : Store} {k : String}

/-- Operations change a key. -/
def Changes (ops : List Op) (s : Store) (key : String) : Prop :=
  ∃ events ∈ log ops s, ∃ e ∈ events, e.key = key

/-- A key that operations have changed is gone or has a revision beyond all that there were. -/
theorem Changes.found {ops : List Op} (h : Changes ops s k) :
    (runAll ops s).contents[k]? = none ∨
      ∃ stored, (runAll ops s).contents[k]? = some stored ∧ s.revision < stored.modRevision := by
  induction ops generalizing s with
  | nil => obtain ⟨_, hev, -⟩ := h; cases hev
  | cons op ops ih =>
    obtain ⟨events, hev, e, he, hk⟩ := h
    rw [runAll_cons]
    rcases List.mem_cons.1 hev with rfl | hev
    · -- the rest of the operations change it again or leave it
      have hfirst := Contents.writeAll_changed ⟨e, he, hk⟩
      rw [← run_contents] at hfirst
      rcases (Store.later_runAll ops (op.run s).2).keys k with h | h | ⟨stored, h, hr⟩
      · rw [h]
        refine hfirst.imp_right fun ⟨stored, hs, hr⟩ => ⟨stored, hs, ?_⟩
        rw [hr]; exact Nat.lt_succ_self _
      · exact .inl h
      · exact .inr ⟨stored, h, Nat.lt_of_le_of_lt (Store.later_run op s).revision_le hr⟩
    · refine (ih ⟨events, hev, e, he, hk⟩).imp_right fun ⟨stored, hs, hr⟩ => ⟨stored, hs, ?_⟩
      exact Nat.lt_of_le_of_lt (Store.later_run op s).revision_le hr

/-- A key that operations have not changed is as it was. -/
theorem unchanged {ops : List Op} (h : ¬ Changes ops s k) :
    (runAll ops s).contents[k]? = s.contents[k]? := by
  induction ops generalizing s with
  | nil => rfl
  | cons op ops ih =>
    rw [runAll_cons, ih fun ⟨events, hev, hc⟩ => h ⟨events, List.mem_cons_of_mem _ hev, hc⟩,
      run_contents]
    exact Contents.writeAll_unchanged fun e he hk => h ⟨_, List.mem_cons_self, e, he, hk⟩

/-- Operations on a store change a key by a commit of a revision beyond `rev`. -/
def ChangesAfter (rev : Revision) (ops : List Op) (s : Store) (key : String) : Prop :=
  ∃ events ∈ log ops s, ∃ e ∈ events, e.key = key ∧ rev < e.revision

/-- What has changed after a revision was changed by the operations that came after it. -/
theorem changesAfter_iff (early late : List Op) (s : Store) (key : String) :
    ChangesAfter (runAll early s).revision (early ++ late) s key ↔
      Changes late (runAll early s) key := by
  unfold ChangesAfter Changes
  rw [log_append]
  constructor
  · rintro ⟨events, hev, e, he, hk, hr⟩
    rcases List.mem_append.1 hev with hev | hev
    · exact absurd hr (Nat.not_lt.2 (log_revision_le early s events hev e he))
    · exact ⟨events, hev, e, he, hk⟩
  · rintro ⟨events, hev, e, he, hk⟩
    exact ⟨events, List.mem_append_right _ hev, e, he, hk,
      (log_revision late _).1 events hev e he⟩

end Op

/-! ## The condition on blind writes -/

/-- **A key has no revision beyond an earlier one if it has not changed since, or is absent.** -/
theorem Op.modRevision_le_iff {s : Store} (hs : s.Stamped) (late : List Op) (key : String) :
    (runAll late s).contents.modRevision key ≤ s.revision ↔
      (Changes late s key → (runAll late s).contents[key]? = none) := by
  constructor
  · intro hle hc
    rcases hc.found with h | ⟨stored, h, hr⟩
    · exact h
    · rw [Contents.modRevision_of_some h] at hle
      exact absurd hr (Nat.not_lt.2 hle)
  · intro h
    by_cases hc : Changes late s key
    · rw [Contents.modRevision_of_none (h hc)]
      exact Nat.zero_le _
    · have hsame : (runAll late s).contents.modRevision key = s.contents.modRevision key := by
        unfold Contents.modRevision
        rw [unchanged hc]
      rw [hsame]
      exact hs.modRevision_le key

/-- **A commit with a snapshot finds every change since then but the deletes.** After any history,
with the revision of any moment of it as the snapshot, a commit succeeds exactly if the store is
open and there is nothing to write, or every key read is at the revision observed and every key
written blindly that was changed since the snapshot is absent. -/
theorem blind_writes_checked (early late : List Op) (reads : List (String × Revision))
    (writes : List Write) :
    (∃ rev, ((Op.runAll (early ++ late) .empty).commitTxn
        ⟨reads, some (Op.runAll early .empty).revision, writes⟩).1 = .ok rev) ↔
      (Op.runAll (early ++ late) .empty).closed = false ∧
        (writes = [] ∨
          (∀ r ∈ reads, (Op.runAll (early ++ late) .empty).contents.modRevision r.1 = r.2) ∧
          ∀ w ∈ writes, (∀ r ∈ reads, r.1 ≠ w.key) →
            Op.ChangesAfter (Op.runAll early .empty).revision (early ++ late) .empty w.key →
            (Op.runAll (early ++ late) .empty).contents[w.key]? = none) := by
  have hstamped : (Op.runAll early .empty).Stamped := Store.Stamped.empty.runAll early
  rw [Store.commitTxn_ok_iff, Store.obstacle?_eq_none_iff]
  refine and_congr_right fun _ => or_congr_right (and_congr_right fun _ => ?_)
  simp only [Option.some.injEq, forall_eq']
  refine forall₂_congr fun w _ => imp_congr_right fun _ => ?_
  rw [Op.changesAfter_iff, Op.runAll_append]
  exact Op.modRevision_le_iff hstamped late w.key

/-- A key that was deleted after the snapshot can be written blindly. -/
theorem delete_overlooked :
    ¬ ∀ (early late : List Op) (reads : List (String × Revision)) (writes : List Write)
        (rev : Revision),
      ((Op.runAll (early ++ late) .empty).commitTxn
          ⟨reads, some (Op.runAll early .empty).revision, writes⟩).1 = .ok rev →
        ∀ w ∈ writes, (∀ r ∈ reads, r.1 ≠ w.key) →
          ¬ Op.ChangesAfter (Op.runAll early .empty).revision (early ++ late) .empty w.key := by
  intro h
  refine h [.put "k" [1]] [.delete "k"] [] [.put "k" [2]] 3 (by decide +kernel) (.put "k" [2])
    List.mem_cons_self (fun _ hr => nomatch hr) ?_
  exact ⟨[⟨"k", .delete, 2, false⟩], by decide +kernel, _, List.mem_cons_self, rfl,
    by decide +kernel⟩

end Inventory
