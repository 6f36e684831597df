import Inventory.Proofs.Notices

/-!
# What can become of a cache

A cache is fed with single events and whole commits, modified and pruned key by key, and told that
its sync has stopped; readers come and go. Nothing is asked of the order in which that happens: a
list can end that never started.

* `CacheAct.keyed_run`: **every change keeps entities under their own keys**, also one that makes an
  entity with another key.
* `Cache.mem_objects`, `Cache.Keyed.objects_sorted`: the entities of a cache are listed, in the order
  of their keys, each once.
-/

namespace Inventory

/-- What happens to a cache next. -/
inductive CacheAct (α : Type) [Entity α] where
  | apply (e : SyncEvent α)
  | commit (es : List (SyncEvent α))
  | modify (k : Entity.Key α) (rev : Revision) (f : Option α → Option α)
  | retain (keep : Entity.Key α → Bool)
  | markStopped
  | watch (k : Entity.Key α) (name : String)
  | unwatch (k : Entity.Key α) (id : Nat)

namespace Cache

variable {α : Type} [Entity α] {c c' : Cache α} {k : Entity.Key α}

/-! ## Entities under their own keys -/

/-- Only the entities and their keys count. -/
theorem Keyed.congr (h : c.Keyed) (hentries : c'.entries = c.entries) : c'.Keyed := by
  intro k a ha
  unfold get? at ha
  rw [hentries] at ha
  exact h k a ha

theorem Keyed.removeAll (h : c.Keyed) (ks : List (Entity.Key α)) :
    (Cache.removeAll ks c).1.Keyed := by
  induction ks generalizing c with
  | nil => exact h
  | cons k ks ih => exact ih (h.remove k)

theorem Keyed.retain (h : c.Keyed) (keep : Entity.Key α → Bool) : (c.retain keep).1.Keyed :=
  h.removeAll _

section Lawful

variable [LawfulEntity α]

theorem Keyed.modify (h : c.Keyed) (k : Entity.Key α) (rev : Revision)
    (f : Option α → Option α) : (c.modify k rev f).1.Keyed := by
  unfold Cache.modify
  cases f (c.get? k) with
  | none => exact h
  | some obj => exact (h.store k rev obj).congr rfl

theorem Keyed.applyParts (h : c.Keyed) (es : List (SyncEvent α)) :
    (Cache.applyParts es c).1.Keyed := by
  induction es generalizing c with
  | nil => exact h
  | cons e es ih => exact ih ((c.part e).keyed h)

theorem Keyed.apply (h : c.Keyed) (e : SyncEvent α) : (c.apply e).1.Keyed := by
  cases e with
  | listStart => exact h.congr rfl
  | listed obj rev =>
    have hnoted : (c.noteListed (Entity.key obj)).Keyed := h.congr rfl
    exact hnoted.store (Entity.key obj) rev obj
  | listEnd rev =>
    -- the list is closed before anything is removed
    have hended : ({ c with listed := none } : Cache α).Keyed := h.congr rfl
    exact (hended.retain _).congr rfl
  | update obj rev => exact h.modify (Entity.key obj) rev _
  | delete k rev => exact (h.remove k).congr rfl
  | revisionOnly rev => exact h.congr rfl

end Lawful

/-! ## Listing entities -/

/-- The values of a map, in the order of their keys. -/
theorem values_eq_map {κ β : Type} [Ord κ] [Std.TransOrd κ] (m : Std.ExtTreeMap κ β) :
    m.values = m.toList.map (·.2) := by
  -- the values are collected in a fold, and a fold goes through the list of entries
  have hfold : m.values = m.foldr (fun _ b bs => b :: bs) [] := by
    obtain ⟨inner⟩ := m
    induction inner using Std.ExtDTreeMap.inductionOn with
    | _ tree => rfl
  rw [hfold, Std.ExtTreeMap.foldr_eq_foldr_toList]
  exact List.map_eq_foldr.symm

theorem objects_eq_map (c : Cache α) : c.objects = c.entries.toList.map (·.2.obj) := by
  unfold objects
  rw [values_eq_map, List.map_map]
  rfl

theorem get?_of_mem {entry : CacheEntry α} (h : (k, entry) ∈ c.entries.toList) :
    c.get? k = some entry.obj := by
  unfold get?
  rw [Std.ExtTreeMap.mem_toList_iff_getElem?_eq_some.1 h]
  rfl

/-- What is listed is what is there. -/
theorem mem_objects {a : α} : a ∈ c.objects ↔ ∃ k, c.get? k = some a := by
  rw [objects_eq_map, List.mem_map]
  constructor
  · rintro ⟨⟨k, entry⟩, hmem, rfl⟩
    exact ⟨k, get?_of_mem hmem⟩
  · rintro ⟨k, hget⟩
    obtain ⟨entry, hentry, hobj⟩ := Option.map_eq_some_iff.1 hget
    exact ⟨(k, entry), Std.ExtTreeMap.mem_toList_iff_getElem?_eq_some.2 hentry, hobj⟩

/-- **Entities are listed in the order of their keys**, and no key comes twice. -/
theorem Keyed.objects_sorted (h : c.Keyed) :
    c.objects.Pairwise fun a b => compare (Entity.key a) (Entity.key b) = .lt := by
  rw [objects_eq_map, List.pairwise_map]
  refine Std.ExtTreeMap.ordered_keys_toList.imp_of_mem fun {x y} hx hy hlt => ?_
  have hxKey : Entity.key x.2.obj = x.1 := h x.1 x.2.obj (get?_of_mem hx)
  have hyKey : Entity.key y.2.obj = y.1 := h y.1 y.2.obj (get?_of_mem hy)
  rw [hxKey, hyKey]
  exact hlt

end Cache

/-! ## Acts -/

namespace CacheAct

variable {α : Type} [Entity α]

/-- What a cache becomes, and what it sends out. -/
def step (c : Cache α) : CacheAct α → Cache α × Notices α
  | .apply e => c.apply e
  | .commit es => c.applyCommit es
  | .modify k rev f => c.modify k rev f
  | .retain keep => c.retain keep
  | .markStopped => (c.markStopped, .none)
  | .watch k name => ((c.watch k name).2, .none)
  | .unwatch k id => (c.unwatch k id, .none)

/-- What a cache becomes through one act after another. -/
def run (acts : List (CacheAct α)) (c : Cache α) : Cache α :=
  acts.foldl (fun c act => (act.step c).1) c

variable [LawfulEntity α]

theorem keyed_step {c : Cache α} (h : c.Keyed) (act : CacheAct α) : (act.step c).1.Keyed := by
  cases act with
  | apply e => exact h.apply e
  | commit es =>
    have hparts : (Cache.applyParts es c).1.Keyed := h.applyParts es
    exact hparts.congr (Cache.applyCommit_entries es c)
  | modify k rev f => exact h.modify k rev f
  | retain keep => exact h.retain keep
  | markStopped => exact h.congr rfl
  | watch k name => exact h.congr rfl
  | unwatch k id => exact h.congr rfl

/-- **Whatever happens to a cache, its entities are under their own keys.** -/
theorem keyed_run {c : Cache α} (h : c.Keyed) (acts : List (CacheAct α)) :
    (run acts c).Keyed := by
  induction acts generalizing c with
  | nil => exact h
  | cons act acts ih => exact ih (act.keyed_step h)

end CacheAct

end Inventory
