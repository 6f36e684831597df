import Inventory.Store.Basic
import Mathlib.Tactic.Common

/-!
# Lookups and scans

What is found under a key after a write, and what a scan finds.

* `getElem?_write`: a write changes what is found under its own key and nothing else.
* `getElem?_writeAll_cases`: after a commit a key holds what it held, nothing, or a value with the
  revision of the commit.
* `scan_eq_filter`: **a scan finds every key that starts with the prefix**, although it begins at
  the prefix and ends at the first key that does not start with it.
-/

namespace Inventory

/-! ## Prefixes and the order of texts -/

namespace Text

theorem hasPrefix_iff {p s : String} : hasPrefix p s = true ↔ p.toList <+: s.toList :=
  List.isPrefixOf_iff_prefix

/-- Texts with a prefix are not below it. -/
theorem not_lt_of_prefix {p s : List Char} (h : p <+: s) : ¬ s < p := by
  induction p generalizing s with
  | nil => exact List.not_lt_nil _
  | cons c p ih =>
    obtain ⟨rest, rfl⟩ := h
    intro hlt
    rw [List.cons_append, List.cons_lt_cons_iff] at hlt
    -- the first characters are alike, so the rest decides
    rcases hlt with hlt | ⟨-, hlt⟩
    · exact Char.lt_irrefl c hlt
    · exact ih ⟨rest, rfl⟩ hlt

/-- What lies between a prefix and a text that starts with it starts with it too. -/
theorem prefix_of_between {p s t : List Char} (hs : ¬ s < p) (hst : s < t) (ht : p <+: t) :
    p <+: s := by
  induction p generalizing s t with
  | nil => exact List.nil_prefix
  | cons c p ih =>
    obtain ⟨rest, rfl⟩ := ht
    cases s with
    | nil => exact absurd (List.nil_lt_cons _ _) hs
    | cons d s =>
      -- a text between the two begins with their first character
      rw [List.cons_append, List.cons_lt_cons_iff] at hst
      rw [List.cons_lt_cons_iff, not_or] at hs
      rcases hst with hlt | ⟨rfl, hlt⟩
      · exact absurd hlt hs.1
      · have hle : ¬ s < p := fun h => hs.2 ⟨rfl, h⟩
        exact List.prefix_cons_inj d |>.2 (ih hle hlt ⟨rest, rfl⟩)

end Text

theorem compare_eq_lt {s t : String} : compare s t = .lt ↔ s.toList < t.toList := by
  show compareOfLessAndEq s t = .lt ↔ _
  rw [compareOfLessAndEq_eq_lt, String.lt_iff]

/-- In a list where whatever passes `keep` is not `below`, and what follows something that is
neither does not pass `keep` either, the run that passes `keep` behind what is `below` is all that
passes it. -/
theorem takeWhile_dropWhile_eq_filter {β : Type} {below keep : β → Bool} {l : List β}
    (hbelow : ∀ x ∈ l, keep x = true → below x = false)
    (hnext : l.Pairwise fun x y => below x = false → keep y = true → keep x = true)
    (hup : l.Pairwise fun x y => below x = false → below y = false) :
    (l.dropWhile below).takeWhile keep = l.filter keep := by
  induction l with
  | nil => rfl
  | cons x l ih =>
    rw [List.pairwise_cons] at hnext hup
    have ih := ih (fun y hy => hbelow y (List.mem_cons_of_mem _ hy)) hnext.2 hup.2
    cases hb : below x with
    | true =>
      -- `x` is dropped, and the filter drops it as well
      have hk : keep x = false := by
        cases hk : keep x with
        | false => rfl
        | true => rw [hbelow x List.mem_cons_self hk] at hb; cases hb
      rw [List.dropWhile_cons_of_pos hb, ih, List.filter_cons_of_neg (by simp [hk])]
    | false =>
      -- nothing behind `x` is below, so nothing more is dropped
      have hdrop : l.dropWhile below = l := by
        cases l with
        | nil => rfl
        | cons y l => exact List.dropWhile_cons_of_neg (by simp [hup.1 y List.mem_cons_self hb])
      rw [hdrop] at ih
      rw [List.dropWhile_cons_of_neg (by simp [hb])]
      cases hk : keep x with
      | true => rw [List.takeWhile_cons_of_pos hk, List.filter_cons_of_pos hk, ih]
      | false =>
        -- the run ends here, and nothing behind `x` is kept either
        rw [List.takeWhile_cons_of_neg (by simp [hk]), List.filter_cons_of_neg (by simp [hk])]
        refine (List.filter_eq_nil_iff.2 fun y hy hky => ?_).symm
        rw [hnext.1 y hy hb hky] at hk
        cases hk

/-! ## Lookups -/

/-- What is stored under a key once a value is put there. -/
def Stored.rewritten (old : Option Stored) (value : Bytes) (rev : Revision) : Stored :=
  match old with
  | some stored => { stored with value := value, modRevision := rev, version := stored.version + 1 }
  | none => ⟨value, rev, rev, 1⟩

@[simp] theorem Stored.rewritten_value (old : Option Stored) (value : Bytes) (rev : Revision) :
    (rewritten old value rev).value = value := by
  cases old <;> rfl

@[simp] theorem Stored.rewritten_modRevision (old : Option Stored) (value : Bytes)
    (rev : Revision) : (rewritten old value rev).modRevision = rev := by
  cases old <;> rfl

/-- What a write leaves under its key. -/
def Write.leaves (w : Write) (old : Option Stored) (rev : Revision) : Option Stored :=
  match w with
  | .put _ value => some (.rewritten old value rev)
  | .delete _ => none

namespace Contents

variable {m : Contents} {key k : String} {value : Bytes} {rev : Revision} {w : Write}
  {ws : List Write}

theorem getElem?_insert {β : Type} (m : Std.ExtTreeMap String β) (key k : String) (b : β) :
    (m.insert key b)[k]? = if k = key then some b else m[k]? := by
  rw [Std.ExtTreeMap.getElem?_insert]
  simp only [Std.compare_eq_iff_eq, eq_comm (a := k)]

theorem getElem?_put (m : Contents) (key k : String) (value : Bytes) (rev : Revision) :
    (m.put key value rev)[k]? =
      if k = key then some (.rewritten m[key]? value rev) else m[k]? := by
  have h : m.put key value rev = m.insert key (.rewritten m[key]? value rev) := by
    unfold put Stored.rewritten; cases m[key]? <;> rfl
  rw [h, getElem?_insert]

theorem getElem?_erase (m : Contents) (key k : String) :
    (m.erase key)[k]? = if k = key then none else m[k]? := by
  rw [Std.ExtTreeMap.getElem?_erase]
  simp only [Std.compare_eq_iff_eq, eq_comm (a := k)]

theorem getElem?_of_not_contains (h : ¬ m.contains key = true) : m[key]? = none := by
  rw [Std.ExtTreeMap.contains_eq_isSome_getElem?] at h
  exact Option.not_isSome_iff_eq_none.1 h

theorem modRevision_of_some {stored : Stored} (h : m[k]? = some stored) :
    m.modRevision k = stored.modRevision := by
  unfold modRevision; rw [h]

theorem modRevision_of_none (h : m[k]? = none) : m.modRevision k = 0 := by
  unfold modRevision; rw [h]

/-- **A write changes what is under its own key**, and nothing else. -/
theorem getElem?_write (m : Contents) (rev : Revision) (w : Write) (k : String) :
    (m.write rev w).1[k]? = if k = w.key then w.leaves m[w.key]? rev else m[k]? := by
  cases w with
  | put key value => exact getElem?_put m key k value rev
  | delete key =>
    show (m.write rev (.delete key)).1[k]? = if k = key then none else m[k]?
    simp only [write]
    by_cases hc : m.contains key = true
    · rw [if_pos hc]; exact getElem?_erase m key k
    · -- an absent key stays absent
      rw [if_neg hc]
      by_cases hk : k = key
      · rw [if_pos hk, hk]; exact getElem?_of_not_contains hc
      · rw [if_neg hk]

@[simp] theorem writeAll_nil (rev : Revision) (m : Contents) : writeAll rev [] m = (m, []) := rfl

theorem writeAll_cons (rev : Revision) (w : Write) (ws : List Write) (m : Contents) :
    writeAll rev (w :: ws) m =
      ((writeAll rev ws (m.write rev w).1).1,
        (m.write rev w).2.toList ++ (writeAll rev ws (m.write rev w).1).2) := rfl

theorem getElem?_writeAll_of_ne (h : ∀ w ∈ ws, w.key ≠ k) :
    (writeAll rev ws m).1[k]? = m[k]? := by
  induction ws generalizing m with
  | nil => rfl
  | cons w ws ih =>
    rw [writeAll_cons, ih fun v hv => h v (List.mem_cons_of_mem _ hv), getElem?_write,
      if_neg (h w List.mem_cons_self).symm]

/-- After a commit a key holds what it held, nothing, or a value with the revision of the
commit. -/
theorem getElem?_writeAll_cases (rev : Revision) (ws : List Write) (m : Contents) (k : String) :
    (writeAll rev ws m).1[k]? = m[k]? ∨ (writeAll rev ws m).1[k]? = none ∨
      ∃ stored, (writeAll rev ws m).1[k]? = some stored ∧ stored.modRevision = rev := by
  induction ws generalizing m with
  | nil => exact .inl rfl
  | cons w ws ih =>
    rw [writeAll_cons]
    -- either a later write changed the key, or what the first one left is there
    rcases ih (m.write rev w).1 with h | h
    · rw [h, getElem?_write]
      split
      · cases w with
        | put key value => exact .inr (.inr ⟨_, rfl, Stored.rewritten_modRevision _ _ _⟩)
        | delete key => exact .inr (.inl rfl)
      · exact .inl rfl
    · exact .inr h

/-! ## Events of a commit -/

/-- A write without an event changes nothing. -/
theorem write_eq_of_no_event (h : (m.write rev w).2 = none) : (m.write rev w).1 = m := by
  cases w with
  | put key value => cases h
  | delete key =>
    simp only [write] at h ⊢
    split at h
    · cases h
    · rename_i hc; rw [if_neg hc]

/-- A commit without events changes nothing. -/
theorem writeAll_eq_of_no_events (h : (writeAll rev ws m).2 = []) : (writeAll rev ws m).1 = m := by
  induction ws generalizing m with
  | nil => rfl
  | cons w ws ih =>
    rw [writeAll_cons] at h ⊢
    obtain ⟨hw, hws⟩ := List.append_eq_nil_iff.1 h
    have hw := write_eq_of_no_event (Option.toList_eq_nil_iff.1 hw)
    rw [hw] at hws ⊢
    exact ih hws

/-- The event of a write is about its key and has the revision of the commit. -/
theorem event_of_write {e : WatchEvent} (h : (m.write rev w).2 = some e) :
    e.key = w.key ∧ e.revision = rev := by
  cases w with
  | put key value => cases h; exact ⟨rfl, rfl⟩
  | delete key =>
    simp only [write] at h
    split at h
    · cases h; exact ⟨rfl, rfl⟩
    · cases h

/-- The events of a commit are about the keys it writes and have its revision. -/
theorem event_of_writeAll {e : WatchEvent} (h : e ∈ (writeAll rev ws m).2) :
    (∃ w ∈ ws, e.key = w.key) ∧ e.revision = rev := by
  induction ws generalizing m with
  | nil => cases h
  | cons w ws ih =>
    rw [writeAll_cons] at h
    rcases List.mem_append.1 h with h | h
    · obtain ⟨hk, hr⟩ := event_of_write (Option.mem_toList.1 h)
      exact ⟨⟨w, List.mem_cons_self, hk⟩, hr⟩
    · obtain ⟨⟨v, hv, hk⟩, hr⟩ := ih h
      exact ⟨⟨v, List.mem_cons_of_mem _ hv, hk⟩, hr⟩

/-! ## Scans -/

/-- The keys of a store come in ascending order. -/
theorem toList_ordered (m : Contents) :
    m.toList.Pairwise fun a b => a.1.toList < b.1.toList :=
  Std.ExtTreeMap.ordered_keys_toList.imp compare_eq_lt.1

/-- **A scan finds every key that starts with the prefix**, in the order of the keys. -/
theorem scan_eq_filter (m : Contents) (scope : String) :
    m.scan scope = (m.toList.filter fun p => Text.hasPrefix scope p.1).map
      fun p => ⟨p.1, p.2.value, p.2.modRevision⟩ := by
  have hbelow (k : String) : (compare k scope == .lt) = false ↔ ¬ k.toList < scope.toList := by
    rw [beq_eq_false_iff_ne, Ne, compare_eq_lt]
  unfold scan
  rw [takeWhile_dropWhile_eq_filter]
  · -- the scan does not begin too late
    intro p _ hp
    exact (hbelow p.1).2 (Text.not_lt_of_prefix (Text.hasPrefix_iff.1 hp))
  · -- it does not end too early
    refine m.toList_ordered.imp fun {p q} hpq hp hq => ?_
    exact Text.hasPrefix_iff.2
      (Text.prefix_of_between ((hbelow p.1).1 hp) hpq (Text.hasPrefix_iff.1 hq))
  · refine m.toList_ordered.imp fun {p q} hpq hp => (hbelow q.1).2 fun hq => ?_
    exact (hbelow p.1).1 hp (List.lt_trans hpq hq)

theorem mem_scan {m : Contents} {scope : String} {r : KvRecord} :
    r ∈ m.scan scope ↔ Text.hasPrefix scope r.key = true ∧ ∃ stored, m[r.key]? = some stored ∧
      r = ⟨r.key, stored.value, stored.modRevision⟩ := by
  rw [scan_eq_filter]
  constructor
  · intro hr
    obtain ⟨⟨key, stored⟩, hp, rfl⟩ := List.mem_map.1 hr
    obtain ⟨hmem, hkey⟩ := List.mem_filter.1 hp
    exact ⟨hkey, stored, Std.ExtTreeMap.mem_toList_iff_getElem?_eq_some.1 hmem, rfl⟩
  · rintro ⟨hkey, stored, hfound, hr⟩
    rw [hr]
    exact List.mem_map.2 ⟨(r.key, stored), List.mem_filter.2
      ⟨Std.ExtTreeMap.mem_toList_iff_getElem?_eq_some.2 hfound, hkey⟩, rfl⟩

end Contents

end Inventory
