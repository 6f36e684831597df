import Mathlib.Data.List.Nodup
import Mathlib.Data.List.Perm.Basic
import Inventory.Proofs.CacheChanges

/-!
# Watchers

Who watches which key is written down in a ledger, from what was asked of a cache and without
looking at it: watchers are entered when they are registered and crossed out when they are
cancelled. The cache itself keeps a list of watchers for each key, in an order that depends on who
was cancelled.

* `Cache.withoutWatcher_perm`: the watcher of a number is taken out, and the others stay.
* `Cache.Attended.run`: **the watchers of a key are those that stand in the ledger**, whatever was
  asked of a cache.
* `watchers_told_while_registered`: **each change of a key is told once to each watcher of the key
  that was registered and not cancelled**, and watchers are told of nothing else.
-/

namespace Inventory

/-! ## The ledger -/

/-- A watcher that was registered for a key, and whether it was cancelled since. -/
structure Registration (α : Type) [Entity α] where
  key : Entity.Key α
  watcher : Watcher
  cancelled : Bool

/-- All watchers that were ever registered, oldest first. -/
abbrev Ledger (α : Type) [Entity α] := List (Registration α)

namespace Registration

variable {α : Type} [Entity α] {r : Registration α} {k k' : Entity.Key α}

/-- The watcher was registered for a key. -/
def isFor (r : Registration α) (k : Entity.Key α) : Bool := compare r.key k == .eq

/-- The watcher was registered for a key and not cancelled. -/
def stands (r : Registration α) (k : Entity.Key α) : Bool := r.isFor k && !r.cancelled

/-- Crosses out the watcher that a key and a number stand for. -/
def cancel (k : Entity.Key α) (id : Nat) (r : Registration α) : Registration α :=
  { r with cancelled := r.cancelled || r.isFor k && r.watcher.id == id }

theorem isFor_iff : r.isFor k = true ↔ r.key = k := by
  unfold isFor
  rw [beq_iff_eq, Std.LawfulEqCmp.compare_eq_iff_eq]

theorem stands_cancel (id : Nat) :
    (r.cancel k id).stands k = (r.watcher.id != id && r.stands k) := by
  show (r.isFor k && !(r.cancelled || r.isFor k && r.watcher.id == id)) =
    (!(r.watcher.id == id) && (r.isFor k && !r.cancelled))
  cases r.isFor k <;> cases r.cancelled <;> simp

/-- Nothing is crossed out that was registered for another key. -/
theorem stands_cancel_of_ne (h : k' ≠ k) (id : Nat) :
    (r.cancel k id).stands k' = r.stands k' := by
  show (r.isFor k' && !(r.cancelled || r.isFor k && r.watcher.id == id)) =
    (r.isFor k' && !r.cancelled)
  cases hfor : r.isFor k' with
  | false => rfl
  | true =>
    have hother : r.isFor k = false := by
      rw [← Bool.not_eq_true, isFor_iff, isFor_iff.1 hfor]
      exact h
    rw [hother, Bool.false_and, Bool.or_false]

end Registration

namespace Ledger

variable {α : Type} [Entity α] {k k' : Entity.Key α}

/-- How many watchers were registered for a key. -/
def registered (ledger : Ledger α) (k : Entity.Key α) : Nat := ledger.countP (·.isFor k)

/-- How many of the watchers of a key were cancelled. -/
def cancelled (ledger : Ledger α) (k : Entity.Key α) : Nat :=
  ledger.countP fun r => r.isFor k && r.cancelled

/-- The watchers of a key that were not cancelled. -/
def standing (ledger : Ledger α) (k : Entity.Key α) : List Watcher :=
  (ledger.filter (·.stands k)).map (·.watcher)

/-- Enters what is asked of a cache. Watchers are numbered in the order in which they come. -/
def note (ledger : Ledger α) : CacheAct α → Ledger α
  | .watch k name => ledger ++ [⟨k, ⟨ledger.length, name⟩, false⟩]
  | .unwatch k id => ledger.map (.cancel k id)
  | .apply _ | .commit _ | .modify _ _ _ | .retain _ | .markStopped => ledger

/-- The ledger of a cache of which some things were asked, one after another. -/
def ofActs (acts : List (CacheAct α)) : Ledger α := acts.foldl note []

theorem note_of_entities (ledger : Ledger α) {act : CacheAct α} (h : act.isOfWatchers = false) :
    ledger.note act = ledger := by
  cases act with
  | watch | unwatch => cases h
  | _ => rfl

/-- Those who stand and those who were cancelled are those who were registered. -/
theorem standing_add_cancelled (ledger : Ledger α) (k : Entity.Key α) :
    (ledger.standing k).length + ledger.cancelled k = ledger.registered k := by
  unfold standing cancelled registered
  rw [List.length_map, ← List.countP_eq_length_filter]
  induction ledger with
  | nil => rfl
  | cons r ledger ih =>
    simp only [List.countP_cons, Registration.stands]
    cases r.isFor k <;> cases r.cancelled <;> simp [Registration.stands] at ih ⊢ <;> omega

theorem standing_watch_self (ledger : Ledger α) (k : Entity.Key α) (w : Watcher) :
    standing (ledger ++ [⟨k, w, false⟩]) k = ledger.standing k ++ [w] := by
  have hstands : (⟨k, w, false⟩ : Registration α).stands k = true := by
    unfold Registration.stands
    rw [Registration.isFor_iff.2 rfl]
    rfl
  unfold standing
  rw [List.filter_append, List.map_append, List.filter_singleton, hstands]
  rfl

theorem standing_watch_of_ne (ledger : Ledger α) (h : k' ≠ k) (w : Watcher) :
    standing (ledger ++ [⟨k, w, false⟩]) k' = ledger.standing k' := by
  have hother : (⟨k, w, false⟩ : Registration α).isFor k' = false := by
    rw [← Bool.not_eq_true, Registration.isFor_iff]
    exact h.symm
  have hstands : (⟨k, w, false⟩ : Registration α).stands k' = false := by
    unfold Registration.stands
    rw [hother]
    rfl
  unfold standing
  rw [List.filter_append, List.map_append, List.filter_singleton, hstands]
  exact List.append_nil _

theorem standing_map_cancel (ledger : Ledger α) (k k' : Entity.Key α) (id : Nat) :
    standing (ledger.map (.cancel k id)) k' =
      (ledger.filter fun r => (r.cancel k id).stands k').map (·.watcher) := by
  unfold standing
  rw [List.filter_map, List.map_map]
  rfl

theorem standing_unwatch_self (ledger : Ledger α) (k : Entity.Key α) (id : Nat) :
    standing (ledger.map (.cancel k id)) k = (ledger.standing k).filter (·.id != id) := by
  rw [standing_map_cancel, List.filter_congr fun r _ => r.stands_cancel id]
  unfold standing
  rw [List.filter_map, List.filter_filter]
  rfl

theorem standing_unwatch_of_ne (ledger : Ledger α) (h : k' ≠ k) (id : Nat) :
    standing (ledger.map (.cancel k id)) k' = ledger.standing k' := by
  rw [standing_map_cancel, List.filter_congr fun r _ => r.stands_cancel_of_ne h id]
  rfl

end Ledger

/-! ## The watchers of a cache -/

namespace Cache

variable {α : Type} [Entity α] {c c' : Cache α} {k k' : Entity.Key α} {ledger : Ledger α}
  {ws : List Watcher}

/-- **The watcher of a number is taken out**, and the others stay. -/
theorem withoutWatcher_perm (id : Nat) (ws : List Watcher) :
    (withoutWatcher id ws).Perm (ws.eraseP (·.id == id)) := by
  rw [List.eraseP_eq_eraseIdx]
  unfold withoutWatcher
  cases hfound : ws.findIdx? (·.id == id) with
  | none => exact .refl ws
  | some i =>
    have hi : i < ws.length := (List.findIdx?_eq_some_iff_findIdx_eq.1 hfound).1
    cases hlast : ws.getLast? with
    | none =>
      rw [List.getLast?_eq_none_iff.1 hlast] at hi
      cases hi
    | some w =>
      obtain ⟨front, rfl⟩ := List.getLast?_eq_some_iff.1 hlast
      rw [List.length_append, List.length_singleton] at hi
      show (((front ++ [w]).set i w).dropLast).Perm ((front ++ [w]).eraseIdx i)
      rcases Nat.lt_succ_iff_lt_or_eq.1 hi with hlt | rfl
      · -- the last one takes the place of another
        rw [List.set_append_left _ _ hlt, List.dropLast_concat,
          List.eraseIdx_append_of_lt_length hlt]
        exact (List.set_perm_cons_eraseIdx hlt w).trans (List.perm_append_singleton w _).symm
      · rw [List.set_append_right _ _ (Nat.le_refl _), Nat.sub_self, List.set_cons_zero,
          List.dropLast_concat, List.eraseIdx_append_of_length_le (Nat.le_refl _), Nat.sub_self,
          List.eraseIdx_zero, List.tail_cons, List.append_nil]

/-- Watchers that have different numbers. -/
def Numbered (ws : List Watcher) : Prop := (ws.map (·.id)).Nodup

theorem Numbered.eraseP_eq_filter (h : Numbered ws) (id : Nat) :
    ws.eraseP (·.id == id) = ws.filter (·.id != id) := by
  induction ws with
  | nil => rfl
  | cons w ws ih =>
    obtain ⟨hw, hws⟩ := List.nodup_cons.1 h
    by_cases hid : w.id = id
    · rw [List.eraseP_cons_of_pos (by simpa using hid),
        List.filter_cons_of_neg (by simpa using hid)]
      refine (List.filter_eq_self.2 fun v hv => ?_).symm
      have hne : v.id ≠ id := fun heq => hw (List.mem_map.2 ⟨v, hv, heq.trans hid.symm⟩)
      simpa using hne
    · rw [List.eraseP_cons_of_neg (by simpa using hid),
        List.filter_cons_of_pos (by simpa using hid), ih hws]

/-- Of watchers with different numbers one is taken out by its number. -/
theorem Numbered.perm_withoutWatcher (h : Numbered ws) {w : Watcher} (hw : w ∈ ws) :
    ws.Perm (w :: withoutWatcher w.id ws) := by
  obtain ⟨v, front, back, -, hid, hsplit, herased⟩ :=
    List.exists_of_eraseP (p := (·.id == w.id)) hw (beq_self_eq_true w.id)
  have hv : v ∈ ws := hsplit ▸ List.mem_append_right front List.mem_cons_self
  obtain rfl : v = w := List.inj_on_of_nodup_map h hv hw (eq_of_beq hid)
  have herase := (withoutWatcher_perm v.id ws).trans (.of_eq herased)
  calc ws = front ++ v :: back := hsplit
    List.Perm _ (v :: (front ++ back)) := List.perm_middle
    List.Perm _ (v :: withoutWatcher v.id ws) := herase.symm.cons v

/-- A cache has the watchers that stand in a ledger. -/
structure Attended (c : Cache α) (ledger : Ledger α) : Prop where
  numbers : ledger.map (·.watcher.id) = List.range ledger.length
  nextWatcher : c.nextWatcher = ledger.length
  standing : ∀ k, (c.watchersOf k).Perm (ledger.standing k)

theorem watchersOf_insert_self (c : Cache α) (k : Entity.Key α) (ws : List Watcher) (next : Nat) :
    watchersOf { c with watchers := c.watchers.insert k ws, nextWatcher := next } k = ws := by
  unfold watchersOf
  rw [Std.ExtTreeMap.getElem?_insert_self]
  rfl

theorem watchersOf_insert_of_ne (c : Cache α) (h : k' ≠ k) (ws : List Watcher) (next : Nat) :
    watchersOf { c with watchers := c.watchers.insert k ws, nextWatcher := next } k' =
      c.watchersOf k' := by
  unfold watchersOf
  rw [getElem?_insert_of_ne _ _ h]

namespace Attended

theorem numbered (h : c.Attended ledger) (k : Entity.Key α) : Numbered (c.watchersOf k) := by
  have hall : (ledger.map (·.watcher.id)).Nodup := h.numbers ▸ List.nodup_range
  have hstanding : Numbered (ledger.standing k) := by
    unfold Numbered Ledger.standing
    rw [List.map_map]
    exact hall.sublist (List.filter_sublist.map _)
  exact ((h.standing k).map _).nodup_iff.2 hstanding

variable (α) in
theorem empty : (Cache.empty α).Attended [] where
  numbers := rfl
  nextWatcher := rfl
  standing k := by
    unfold watchersOf Cache.empty
    rw [Std.ExtTreeMap.getElem?_empty]
    exact .refl []

theorem congr (h : c.Attended ledger) (hwatchers : c'.watchers = c.watchers)
    (hnext : c'.nextWatcher = c.nextWatcher) : c'.Attended ledger where
  numbers := h.numbers
  nextWatcher := hnext.trans h.nextWatcher
  standing k := by
    unfold watchersOf
    rw [hwatchers]
    exact h.standing k

theorem watch (h : c.Attended ledger) (k : Entity.Key α) (name : String) :
    (c.watch k name).2.Attended (ledger.note (.watch k name)) where
  numbers := by
    unfold Ledger.note
    rw [List.map_append, List.length_append, List.length_singleton, List.range_succ, h.numbers]
    rfl
  nextWatcher := by
    unfold Ledger.note
    rw [List.length_append]
    exact congrArg (· + 1) h.nextWatcher
  standing k' := by
    unfold Cache.watch Ledger.note
    by_cases hk : k' = k
    · subst hk
      rw [watchersOf_insert_self, Ledger.standing_watch_self, h.nextWatcher]
      exact (h.standing k').append_right _
    · rw [watchersOf_insert_of_ne c hk, Ledger.standing_watch_of_ne ledger hk]
      exact h.standing k'

theorem unwatch (h : c.Attended ledger) (k : Entity.Key α) (id : Nat) :
    (c.unwatch k id).Attended (ledger.note (.unwatch k id)) where
  numbers := by
    unfold Ledger.note
    rw [List.map_map, List.length_map]
    exact h.numbers
  nextWatcher := h.nextWatcher.trans (List.length_map ..).symm
  standing k' := by
    unfold Cache.unwatch Ledger.note
    by_cases hk : k' = k
    · subst hk
      rw [watchersOf_insert_self, Ledger.standing_unwatch_self]
      have herased := withoutWatcher_perm id (c.watchersOf k')
      rw [(h.numbered k').eraseP_eq_filter] at herased
      exact herased.trans ((h.standing k').filter _)
    · rw [watchersOf_insert_of_ne c hk, Ledger.standing_unwatch_of_ne ledger hk]
      exact h.standing k'

/-- A watcher that stands in the ledger is taken out alone. -/
theorem cancels (h : c.Attended ledger) {r : Registration α} (hr : r ∈ ledger)
    (hstands : r.cancelled = false) :
    (c.watchersOf r.key).Perm
      (r.watcher :: (c.unwatch r.key r.watcher.id).watchersOf r.key) := by
  have hmem : r.watcher ∈ ledger.standing r.key := by
    refine List.mem_map_of_mem (List.mem_filter.2 ⟨hr, ?_⟩)
    unfold Registration.stands
    rw [Registration.isFor_iff.2 rfl, hstands]
    rfl
  unfold Cache.unwatch
  rw [watchersOf_insert_self]
  exact (h.numbered r.key).perm_withoutWatcher ((h.standing r.key).mem_iff.2 hmem)

variable [LawfulEntity α]

/-- What an act asks for is entered in the ledger. -/
theorem step (h : c.Attended ledger) (hc : c.Keyed) (act : CacheAct α) :
    (act.step c).1.Attended (ledger.note act) := by
  cases hof : act.isOfWatchers with
  | true =>
    cases act with
    | watch k name => exact h.watch k name
    | unwatch k id => exact h.unwatch k id
    | _ => cases hof
  | false =>
    have hreports := CacheAct.reports hc act hof
    rw [Ledger.note_of_entities ledger hof]
    exact h.congr hreports.watchers hreports.nextWatcher

/-- **The watchers of a key are those that stand in the ledger**, whatever was asked of a cache. -/
theorem run (h : c.Attended ledger) (hc : c.Keyed) (acts : List (CacheAct α)) :
    (CacheAct.run acts c).Attended (acts.foldl Ledger.note ledger) := by
  induction acts generalizing c ledger with
  | nil => exact h
  | cons act acts ih => exact ih (h.step hc act) (act.keyed_step hc)

end Attended

end Cache

/-! ## What watchers are told -/

section Told

variable {α : Type} [Entity α]

/-- What an act tells, where those who watch are written down in a ledger. Each change of the act is
told once, and with it each watcher of its key who stands in the ledger. It is told when all changes
of the act are made. -/
structure CacheAct.Heard (c : Cache α) (ledger : Ledger α) (act : CacheAct α) : Prop where
  changes : Notice.Replays (act.changes c) c.held (act.step c).1.held
  isPublic : ∀ n ∈ act.changes c, n.isPublic = true
  told : ((Cache.announce (act.step c)).map (·.notice)).Perm
    ((act.changes c).flatMap fun n => n :: (ledger.standing n.key).map (.watched · n.key))
  visible : ∀ a ∈ Cache.announce (act.step c),
    a.revision = (act.step c).1.revision ∧ a.count = (act.step c).1.count

/-- A cache and the ledger of its watchers. -/
structure Cache.Watched (c : Cache α) (ledger : Ledger α) : Prop where
  standing : ∀ k, (c.watchersOf k).Perm (ledger.standing k) ∧ (c.watchersOf k).Nodup
  count : ∀ k, (c.watchersOf k).length + ledger.cancelled k = ledger.registered k
  registers : ∀ k name,
    ledger.note (.watch k name) = ledger ++ [⟨k, ⟨(c.watch k name).1, name⟩, false⟩]
  cancels : ∀ r ∈ ledger, r.cancelled = false →
    (c.watchersOf r.key).Perm (r.watcher :: (c.unwatch r.key r.watcher.id).watchersOf r.key) ∧
      ∀ k, k ≠ r.key → (c.unwatch r.key r.watcher.id).watchersOf k = c.watchersOf k
  heard : ∀ act : CacheAct α, act.Heard c ledger

variable [LawfulEntity α]

theorem Cache.Attended.heard {c : Cache α} {ledger : Ledger α} (h : c.Attended ledger)
    (hc : c.Keyed) (act : CacheAct α) : act.Heard c ledger where
  changes := act.replays_changes hc
  isPublic := act.changes_public hc
  told := by
    have hsent : (Cache.announce (act.step c)).map (·.notice) = (act.step c).2.inOrder := by
      unfold Cache.announce
      rw [List.map_map]
      exact List.map_id _
    have hstanding (n : Notice α) : (c.withWatchers n).Perm
        (n :: (ledger.standing n.key).map (.watched · n.key)) :=
      ((h.standing n.key).map _).cons n
    rw [hsent, act.notices_eq hc]
    calc List.Perm _ ((act.changes c).flatMap c.withWatchers) :=
          (Notice.perm_parted (act.changes_public hc)).flatMap_right _
      List.Perm _ _ := List.Perm.flatMap_left _ fun n _ => hstanding n
  visible := by
    intro a ha
    obtain ⟨n, -, rfl⟩ := List.mem_map.1 ha
    exact ⟨rfl, rfl⟩

/-- **Watchers are told of each change of their key while they are registered.** Whatever was asked
of a cache, in any order: a key has the watchers that were registered for it and not cancelled, each
once; a watcher that is cancelled is taken out alone; and whatever is asked next, each entity that
is stored and each that is removed is told once to each watcher of its key, when the cache has
changed, and nothing else is told to anybody. -/
theorem watchers_told_while_registered (acts : List (CacheAct α)) :
    (CacheAct.run acts (Cache.empty α)).Watched (.ofActs acts) := by
  have hkeyed : (CacheAct.run acts (Cache.empty α)).Keyed :=
    CacheAct.keyed_run (Cache.Keyed.empty α) acts
  have hattended : (CacheAct.run acts (Cache.empty α)).Attended (.ofActs acts) :=
    (Cache.Attended.empty α).run (Cache.Keyed.empty α) acts
  refine ⟨fun k => ⟨hattended.standing k, ?_⟩, fun k => ?_, fun k name => ?_,
    fun r hr hstands => ?_, hattended.heard hkeyed⟩
  · exact List.Nodup.of_map _ (hattended.numbered k)
  · rw [(hattended.standing k).length_eq]
    exact Ledger.standing_add_cancelled _ k
  · unfold Ledger.note Cache.watch
    rw [hattended.nextWatcher]
  · refine ⟨hattended.cancels hr hstands, fun k hk => ?_⟩
    unfold Cache.unwatch
    exact Cache.watchersOf_insert_of_ne _ hk _ _

end Told

namespace Doorbell

/-- Two watchers come to the flavor's key and one to another key, the first one leaves, and the
flavor is stored. -/
def acts : List (CacheAct Flavor) :=
  [.watch flavor.key "v", .watch flavor.key "w", .watch ⟨"b"⟩ "x", .unwatch flavor.key 0,
    .apply (.update flavor 1)]

end Doorbell

theorem watchers_told_while_registered_at_a_door :
    ((CacheAct.run Doorbell.acts (Cache.empty Flavor)).watchersOf Doorbell.flavor.key).Perm
        [⟨1, "w"⟩] ∧
      ((Cache.announce ((CacheAct.apply (.delete Doorbell.flavor.key 2)).step
          (CacheAct.run Doorbell.acts (Cache.empty Flavor)))).map (·.notice)).Perm
        [.deleted Doorbell.flavor, .watched ⟨1, "w"⟩ Doorbell.flavor.key] ∧
      ((CacheAct.run Doorbell.acts (Cache.empty Flavor)).watchersOf Doorbell.flavor.key).Perm
        (⟨1, "w"⟩ :: ((CacheAct.run Doorbell.acts (Cache.empty Flavor)).unwatch
          Doorbell.flavor.key 1).watchersOf Doorbell.flavor.key) := by
  have hwatched := watchers_told_while_registered Doorbell.acts
  have hsecond : (⟨Doorbell.flavor.key, ⟨1, "w"⟩, false⟩ : Registration Flavor) ∈
      Ledger.ofActs Doorbell.acts := .tail _ (.head _)
  exact ⟨(hwatched.standing Doorbell.flavor.key).1,
    (hwatched.heard (.apply (.delete Doorbell.flavor.key 2))).told,
    (hwatched.cancels _ hsecond rfl).1⟩

end Inventory
