import Inventory.Proofs.Contents
import Inventory.Store.Op

/-!
# Histories

Whatever an operation does to the keys of a store, it does by committing writes. `Op.writes` are
the writes that an operation commits, `Op.events` what they change; both are empty where the
operation is refused or only reads.

* `run_contents`, `run_revision`: an operation does its writes, under the next revision, and takes
  the revision only if something changed.
* `Later`: what can be said of a store that comes from another one by operations. A key that
  changed is gone or has a revision beyond all that there were (`later_runAll`), so **a key that
  has the same revision as before has not changed** (`Later.unchanged`).
-/

namespace Inventory

/-! ## What an operation commits -/

namespace Op

/-- The writes that an operation asks for. -/
def asks : Op → List Write
  | create key value | update key value _ | put key value => [.put key value]
  | delete key => [.delete key]
  | txn request => request.writes
  | get _ | list _ | revision | size | close | watch _ _ | poll _ | unwatch _ => []

/-- The keys that an operation asks to write. -/
def targets (op : Op) : List String := op.asks.map Write.key

/-- The writes that an operation commits. -/
def writes (op : Op) (s : Store) : List Write :=
  if s.closed then []
  else
    match op with
    | create key value => if s.contents.contains key then [] else [.put key value]
    | update key value expected =>
      match s.contents[key]? with
      | none => []
      | some stored =>
        if !expected.isZero && stored.modRevision != expected then [] else [.put key value]
    | put key value => [.put key value]
    | delete key => if s.contents.contains key then [.delete key] else []
    | txn request => if (Store.obstacle? s.contents request).isSome then [] else request.writes
    | get _ | list _ | revision | size | close | watch _ _ | poll _ | unwatch _ => []

/-- The changes that an operation makes. -/
def events (op : Op) (s : Store) : List WatchEvent :=
  (s.contents.writeAll s.revision.next (op.writes s)).2

/-- The subscriber that an operation is about. -/
def subscriber? : Op → Option Subscriber
  | watch who _ | poll who | unwatch who => some who
  | get _ | create _ _ | update _ _ _ | put _ _ | delete _ | list _ | revision | size | close
  | txn _ => none

end Op

namespace Store

variable {s : Store} {ws : List Write}

/-- A commit does its writes under the next revision, takes the revision if something changed, and
tells the subscriptions. -/
theorem commit_eq (s : Store) (ws : List Write) :
    s.commit ws =
      (if (s.contents.writeAll s.revision.next ws).2 = [] then s.revision else s.revision.next,
        { s with
          contents := (s.contents.writeAll s.revision.next ws).1
          revision :=
            if (s.contents.writeAll s.revision.next ws).2 = [] then s.revision
            else s.revision.next
          subscriptions := s.subscriptions.filterMap
            (Subscription.publish (s.contents.writeAll s.revision.next ws).2) }) := by
  unfold commit
  by_cases h : (s.contents.writeAll s.revision.next ws).2 = []
  · -- nothing changed, so there is nothing to tell
    have hpub : Subscription.publish [] = some := by
      funext sub; unfold Subscription.publish; simp
    simp only [h, List.isEmpty_nil, if_true, Contents.writeAll_eq_of_no_events h, hpub,
      List.filterMap_some]
  · have hne : (s.contents.writeAll s.revision.next ws).2.isEmpty = false := by
      rw [List.isEmpty_eq_false_iff]; exact h
    simp only [hne, Bool.false_eq_true, if_false, if_neg h]

/-- A commit that changes nothing leaves the store as it is. -/
theorem commit_of_no_events (h : (s.contents.writeAll s.revision.next ws).2 = []) :
    s.commit ws = (s.revision, s) := by
  simp only [commit, h, List.isEmpty_nil, if_true]

theorem commit_nil (s : Store) : s.commit [] = (s.revision, s) := rfl

theorem ifOpen_of_open {β : Type} {action : KvResult β × Store} (h : s.closed = false) :
    s.ifOpen action = action := by
  unfold ifOpen; rw [h]; rfl

theorem ifOpen_of_closed {β : Type} {action : KvResult β × Store} (h : s.closed = true) :
    s.ifOpen action = (.error (.unavailable "store is closed"), s) := by
  unfold ifOpen; rw [if_pos h]

/-- Nothing stands in the way of a conditional commit if every key read is at the revision
observed and no key written blindly has a revision beyond the snapshot. -/
theorem obstacle?_eq_none_iff {m : Contents} {txn : TxnRequest} :
    obstacle? m txn = none ↔
      (∀ r ∈ txn.reads, m.modRevision r.1 = r.2) ∧
      ∀ snapshot, txn.snapshot = some snapshot → ∀ w ∈ txn.writes,
        (∀ r ∈ txn.reads, r.1 ≠ w.key) → m.modRevision w.key ≤ snapshot := by
  have hreads : movedRead? m txn.reads = none ↔ ∀ r ∈ txn.reads, m.modRevision r.1 = r.2 := by
    simp [movedRead?]
  have hwrites (snapshot : Revision) : movedWrite? m txn snapshot = none ↔
      ∀ w ∈ txn.writes, (∀ r ∈ txn.reads, r.1 ≠ w.key) → m.modRevision w.key ≤ snapshot := by
    simp [movedWrite?]
  unfold obstacle?
  cases hr : movedRead? m txn.reads with
  | some e =>
    refine ⟨fun h => (nomatch h), fun h => ?_⟩
    rw [hreads.2 h.1] at hr
    cases hr
  | none =>
    rw [← hreads, hr]
    cases txn.snapshot with
    | none => exact ⟨fun _ => ⟨rfl, fun _ h => (nomatch h)⟩, fun _ => rfl⟩
    | some snapshot =>
      refine (hwrites snapshot).trans ⟨fun h => ⟨rfl, fun _ hs => ?_⟩, fun h => h.2 _ rfl⟩
      obtain rfl := Option.some.inj hs
      exact h

/-- **When a conditional commit succeeds**: the store is open, and there is nothing to write or
nothing stands in the way. -/
theorem commitTxn_ok_iff (s : Store) (txn : TxnRequest) :
    (∃ rev, (s.commitTxn txn).1 = .ok rev) ↔
      s.closed = false ∧ (txn.writes = [] ∨ obstacle? s.contents txn = none) := by
  unfold commitTxn
  cases hs : s.closed with
  | true =>
    rw [ifOpen_of_closed hs]
    exact ⟨fun ⟨_, h⟩ => (nomatch h), fun h => (nomatch h.1)⟩
  | false =>
    rw [ifOpen_of_open hs]
    by_cases hw : txn.writes = []
    · rw [if_pos (List.isEmpty_iff.2 hw)]
      exact ⟨fun _ => ⟨rfl, .inl hw⟩, fun _ => ⟨_, rfl⟩⟩
    · rw [if_neg fun h => hw (List.isEmpty_iff.1 h)]
      cases obstacle? s.contents txn with
      | some e => exact ⟨fun ⟨_, h⟩ => (nomatch h), fun h => h.2.elim (absurd · hw) (nomatch ·)⟩
      | none => exact ⟨fun _ => ⟨rfl, .inr rfl⟩, fun _ => ⟨_, rfl⟩⟩

end Store

namespace Op

variable {op : Op} {s : Store}

/-- An operation that is neither about a subscriber nor the closing of the store commits its
writes, and that is all that it does to the store. -/
theorem run_eq_commit (h : op.subscriber? = none) (hc : op ≠ .close) (s : Store) :
    (op.run s).2 = (s.commit (op.writes s)).2 := by
  cases hs : s.closed with
  | true =>
    -- a closed store refuses everything
    have hw : op.writes s = [] := by unfold writes; rw [if_pos hs]
    rw [hw]
    cases op <;> first
      | cases h; done
      | exact absurd rfl hc
      | rfl
      | simp only [run, answer, Store.get, Store.create, Store.update, Store.put, Store.delete,
          Store.list, Store.currentRevision, Store.commitTxn, Store.ifOpen_of_closed hs]; rfl
  | false =>
    unfold writes
    rw [if_neg (by rw [hs]; exact Bool.false_ne_true)]
    cases op with
    | create key value =>
      simp only [run, answer, Store.create, Store.ifOpen_of_open hs]
      split <;> rfl
    | update key value expected =>
      simp only [run, answer, Store.update, Store.ifOpen_of_open hs]
      cases s.contents[key]? with
      | none => rfl
      | some stored => simp only; split <;> rfl
    | delete key =>
      simp only [run, answer, Store.delete, Store.ifOpen_of_open hs]
      split <;> rfl
    | txn request =>
      simp only [run, answer, Store.commitTxn, Store.ifOpen_of_open hs]
      split
      · rename_i hw
        rw [List.isEmpty_iff] at hw
        rw [hw]; split <;> rfl
      · cases Store.obstacle? s.contents request <;> rfl
    | put key value => simp only [run, answer, Store.put, Store.ifOpen_of_open hs]; rfl
    | get key => simp only [run, answer, Store.get, Store.ifOpen_of_open hs]; rfl
    | list scope => simp only [run, answer, Store.list, Store.ifOpen_of_open hs]; rfl
    | revision => simp only [run, answer, Store.currentRevision, Store.ifOpen_of_open hs]; rfl
    | size => rfl
    | close => exact absurd rfl hc
    | watch who scope => cases h
    | poll who => cases h
    | unwatch who => cases h

/-- An operation about a subscriber, or the closing of the store, leaves the keys alone. -/
theorem run_keeps_keys (h : op.subscriber? ≠ none ∨ op = .close) (s : Store) :
    op.writes s = [] ∧ (op.run s).2.contents = s.contents ∧
      (op.run s).2.revision = s.revision := by
  have hw : op.writes s = [] := by
    unfold writes
    rcases h with h | rfl
    · cases op <;> first | exact absurd rfl h | (split <;> rfl)
    · split <;> rfl
  refine ⟨hw, ?_⟩
  rcases h with h | rfl
  · cases op with
    | watch who scope =>
      simp only [run, answer, Store.watch]
      unfold Store.ifOpen
      split <;> exact ⟨rfl, rfl⟩
    | poll who => exact ⟨rfl, rfl⟩
    | unwatch who => exact ⟨rfl, rfl⟩
    | _ => exact absurd rfl h
  · exact ⟨rfl, rfl⟩

/-- **An operation does its writes**, under the next revision. -/
theorem run_contents (op : Op) (s : Store) :
    (op.run s).2.contents = (s.contents.writeAll s.revision.next (op.writes s)).1 := by
  by_cases h : op.subscriber? ≠ none ∨ op = .close
  · obtain ⟨hw, hc, -⟩ := run_keeps_keys h s
    rw [hw, hc, Contents.writeAll_nil]
  · rw [not_or, not_not] at h
    rw [run_eq_commit h.1 h.2, Store.commit_eq]

/-- **An operation takes the next revision if it changes something**, and none otherwise. -/
theorem run_revision (op : Op) (s : Store) :
    (op.run s).2.revision = if op.events s = [] then s.revision else s.revision.next := by
  by_cases h : op.subscriber? ≠ none ∨ op = .close
  · obtain ⟨hw, -, hr⟩ := run_keeps_keys h s
    unfold events
    rw [hw, hr, Contents.writeAll_nil, if_pos rfl]
  · rw [not_or, not_not] at h
    rw [run_eq_commit h.1 h.2, Store.commit_eq]
    rfl

/-- What an operation commits it asks for. -/
theorem asks_of_writes {w : Write} (h : w ∈ op.writes s) : w ∈ op.asks := by
  unfold writes at h
  split at h
  · cases h
  cases op with
  | create key value =>
    simp only at h
    split at h
    · cases h
    · exact h
  | update key value expected =>
    simp only at h
    split at h
    · cases h
    · split at h
      · cases h
      · exact h
  | put key value => exact h
  | delete key =>
    simp only at h
    split at h
    · exact h
    · cases h
  | txn request =>
    simp only at h
    split at h
    · cases h
    · exact h
  | _ => cases h

theorem target_of_writes {w : Write} (h : w ∈ op.writes s) : w.key ∈ op.targets :=
  List.mem_map_of_mem (asks_of_writes h)

/-- An operation leaves a key alone that it does not ask to write. -/
theorem run_getElem?_of_not_target {k : String} (h : k ∉ op.targets) :
    (op.run s).2.contents[k]? = s.contents[k]? := by
  rw [run_contents, Contents.getElem?_writeAll_of_ne]
  rintro w hw rfl
  exact h (target_of_writes hw)

/-- Only closing closes a store. -/
theorem run_closed (h : op ≠ .close) (s : Store) : (op.run s).2.closed = s.closed := by
  cases hsub : op.subscriber? with
  | none => rw [run_eq_commit hsub h, Store.commit_eq]
  | some who =>
    cases op with
    | watch who scope =>
      simp only [run, answer, Store.watch]
      unfold Store.ifOpen
      split <;> rfl
    | poll who => rfl
    | unwatch who => rfl
    | _ => cases hsub

theorem run_closed_of_closed (h : s.closed = true) : (op.run s).2.closed = true := by
  by_cases hc : op = .close
  · rw [hc]; rfl
  · rw [run_closed hc]; exact h

end Op

/-- Stores that differ at most in their subscriptions. -/
structure Store.SameKeys (s s' : Store) : Prop where
  contents : s.contents = s'.contents
  revision : s.revision = s'.revision
  closed : s.closed = s'.closed

theorem Store.SameKeys.trans {s s' s'' : Store} (h : s.SameKeys s') (h' : s'.SameKeys s'') :
    s.SameKeys s'' :=
  ⟨h.contents.trans h'.contents, h.revision.trans h'.revision, h.closed.trans h'.closed⟩

namespace Op

variable {op : Op} {s s' : Store}

/-- What an operation writes does not depend on the subscriptions. -/
theorem writes_congr (op : Op) (h : s.SameKeys s') : op.writes s = op.writes s' := by
  unfold writes
  rw [h.contents, h.closed]

theorem events_congr (op : Op) (h : s.SameKeys s') : op.events s = op.events s' := by
  unfold events
  rw [op.writes_congr h, h.contents, h.revision]

theorem run_sameKeys (op : Op) (h : s.SameKeys s') : (op.run s).2.SameKeys (op.run s').2 where
  contents := by rw [run_contents, run_contents, op.writes_congr h, h.contents, h.revision]
  revision := by rw [run_revision, run_revision, op.events_congr h, h.revision]
  closed := by
    by_cases hc : op = .close
    · rw [hc]; rfl
    · rw [run_closed hc, run_closed hc]; exact h.closed

/-- Subscribing changes no keys. -/
theorem sameKeys_watch (s : Store) (who : Subscriber) (scope : String) :
    (s.watch who scope).2.SameKeys s := by
  have hkeys := @run_keeps_keys (.watch who scope) (.inl (Option.some_ne_none who)) s
  have hne : Op.watch who scope ≠ .close := fun h => nomatch h
  exact ⟨hkeys.2.1, hkeys.2.2, run_closed hne s⟩

@[simp] theorem runAll_cons (op : Op) (ops : List Op) (s : Store) :
    runAll (op :: ops) s = runAll ops (op.run s).2 := rfl

theorem runAll_sameKeys (ops : List Op) (h : s.SameKeys s') :
    (runAll ops s).SameKeys (runAll ops s') := by
  induction ops generalizing s s' with
  | nil => exact h
  | cons op ops ih => exact ih (op.run_sameKeys h)

theorem runAll_append (early late : List Op) (s : Store) :
    runAll (early ++ late) s = runAll late (runAll early s) :=
  List.foldl_append

theorem runAll_closed {ops : List Op} (h : ∀ op ∈ ops, op ≠ .close) (s : Store) :
    (runAll ops s).closed = s.closed := by
  induction ops generalizing s with
  | nil => rfl
  | cons op ops ih =>
    rw [runAll_cons, ih fun o ho => h o (List.mem_cons_of_mem _ ho),
      run_closed (h op List.mem_cons_self)]

end Op

/-! ## Stores that operations lead to -/

namespace Store

variable {s s' s'' : Store} {k : String}

/-- Operations on an empty store lead here. -/
def Reachable (s : Store) : Prop := ∃ ops, s = Op.runAll ops .empty

/-- Every key has the revision of a commit that has taken place. -/
def Stamped (s : Store) : Prop :=
  ∀ (k : String) (stored : Stored), s.contents[k]? = some stored →
    0 < stored.modRevision ∧ stored.modRevision ≤ s.revision

theorem Stamped.empty : Store.empty.Stamped := by
  intro k stored h
  have h : (∅ : Contents)[k]? = some stored := h
  rw [Std.ExtTreeMap.getElem?_empty] at h
  cases h

/-- A key's revision is not beyond the last commit. -/
theorem Stamped.modRevision_le (h : s.Stamped) (k : String) :
    s.contents.modRevision k ≤ s.revision := by
  cases hk : s.contents[k]? with
  | none => rw [Contents.modRevision_of_none hk]; exact Nat.zero_le _
  | some stored => rw [Contents.modRevision_of_some hk]; exact (h k stored hk).2

/-- A key has revision zero only if it is absent. -/
theorem Stamped.absent (h : s.Stamped) (hk : s.contents.modRevision k = 0) :
    s.contents[k]? = none := by
  cases hc : s.contents[k]? with
  | none => rfl
  | some stored =>
    rw [Contents.modRevision_of_some hc] at hk
    exact absurd hk (Nat.ne_of_gt (h k stored hc).1)

/-- What is left of a store after operations: revisions go up, a closed store stays closed, and a
key that has changed is gone or has a revision beyond all that there were. -/
structure Later (s s' : Store) : Prop where
  revision_le : s.revision ≤ s'.revision
  closed : s.closed = true → s'.closed = true
  same : s'.revision = s.revision → s'.contents = s.contents
  keys : ∀ k : String, s'.contents[k]? = s.contents[k]? ∨ s'.contents[k]? = none ∨
    ∃ stored : Stored, s'.contents[k]? = some stored ∧ s.revision < stored.modRevision

theorem Later.refl (s : Store) : s.Later s :=
  ⟨Nat.le_refl _, id, fun _ => rfl, fun _ => .inl rfl⟩

theorem Later.trans (h : s.Later s') (h' : s'.Later s'') : s.Later s'' where
  revision_le := Nat.le_trans h.revision_le h'.revision_le
  closed hc := h'.closed (h.closed hc)
  same hr := by
    have hmid : s'.revision = s.revision :=
      Nat.le_antisymm (hr ▸ h'.revision_le) h.revision_le
    rw [h'.same (hr.trans hmid.symm), h.same hmid]
  keys k := by
    -- what happened last decides
    rcases h'.keys k with hk | hk | ⟨stored, hk, hr⟩
    · rw [hk]; exact h.keys k
    · exact .inr (.inl hk)
    · exact .inr (.inr ⟨stored, hk, Nat.lt_of_le_of_lt h.revision_le hr⟩)

theorem later_run (op : Op) (s : Store) : s.Later (op.run s).2 where
  revision_le := by
    rw [Op.run_revision]
    split
    · exact Nat.le_refl _
    · exact Nat.le_succ _
  closed := Op.run_closed_of_closed
  same hr := by
    rw [Op.run_revision] at hr
    split at hr
    · rename_i he
      rw [Op.run_contents, Contents.writeAll_eq_of_no_events he]
    · exact absurd hr (Nat.succ_ne_self _)
  keys k := by
    rw [Op.run_contents]
    rcases Contents.getElem?_writeAll_cases s.revision.next (op.writes s) s.contents k with
      h | h | ⟨stored, h, hr⟩
    · exact .inl h
    · exact .inr (.inl h)
    · exact .inr (.inr ⟨stored, h, by rw [hr]; exact Nat.lt_succ_self _⟩)

/-- **Operations lead to a later store.** -/
theorem later_runAll (ops : List Op) (s : Store) : s.Later (Op.runAll ops s) := by
  induction ops generalizing s with
  | nil => exact .refl s
  | cons op ops ih => exact (later_run op s).trans (ih _)

theorem Stamped.run (h : s.Stamped) (op : Op) : (op.run s).2.Stamped := by
  intro k stored hk
  rw [Op.run_contents] at hk
  have hle := (later_run op s).revision_le
  rcases Contents.getElem?_writeAll_cases s.revision.next (op.writes s) s.contents k with
    hc | hc | ⟨stored', hc, hr⟩
  · rw [hc] at hk
    exact ⟨(h k stored hk).1, Nat.le_trans (h k stored hk).2 hle⟩
  · rw [hc] at hk; cases hk
  · rw [hc] at hk
    obtain rfl : stored' = stored := by injection hk
    rw [hr]
    refine ⟨Nat.succ_pos _, ?_⟩
    rw [Op.run_revision]
    split
    · -- without a change no key could have the new revision
      rename_i he
      rw [Contents.writeAll_eq_of_no_events he] at hc
      have := (h k _ hc).2
      rw [hr] at this
      exact absurd this (Nat.not_succ_le_self _)
    · exact Nat.le_refl _

theorem Stamped.runAll (h : s.Stamped) (ops : List Op) : (Op.runAll ops s).Stamped := by
  induction ops generalizing s with
  | nil => exact h
  | cons op ops ih => exact ih (h.run op)

theorem Reachable.stamped (h : s.Reachable) : s.Stamped := by
  obtain ⟨ops, rfl⟩ := h
  exact Stamped.empty.runAll ops

/-- **A key that has the same revision as before has not changed.** It may have been deleted and
created meanwhile only if it was absent before and is absent again. -/
theorem Later.unchanged (h : s.Later s') (hs : s.Stamped)
    (hk : s'.contents.modRevision k = s.contents.modRevision k) :
    s'.contents[k]? = s.contents[k]? := by
  rcases h.keys k with h | h | ⟨stored, h, hr⟩
  · exact h
  · -- only an absent key has revision zero
    rw [Contents.modRevision_of_none h] at hk
    rw [h, hs.absent hk.symm]
  · -- a new revision is beyond the old one
    rw [Contents.modRevision_of_some h] at hk
    have hle := hs.modRevision_le k
    rw [← hk] at hle
    exact absurd hr (Nat.not_lt.2 hle)

end Store

end Inventory
