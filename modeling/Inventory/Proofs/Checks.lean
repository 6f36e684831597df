import Inventory.Entity.Kind
import Inventory.Proofs.Canonical
import Inventory.Proofs.Masks
import Inventory.Proofs.Update

/-!
# Checks of entities

What refuses an entity is its key or one of its leaves, each of which is looked at by itself: a
`Check` looks at one leaf if an address at or above it is selected.

* `Leaf.Steady`: a check does not tell leaves apart that count as equal, nor a leaf from what comes
  back of it.
* `CheckedEntity`: the checks of a type, in the order in which they are made.
* `CheckedEntity.validate_eq_ok_iff`: an entity passes if its key does and all its selected leaves.
* `Check.passes_copyFrom`: a copied leaf passes if it did where it was copied from.
* `Check.passes_merge`: **a leaf that was checked and merged passes**, and the others pass if they
  did before.
-/

namespace Inventory

/-! ## What a check cannot tell apart -/

/-- A check of a leaf that does not tell apart what counts as equal, nor a leaf from what comes back
of it. -/
structure Leaf.Steady (kind : Leaf) (check : kind.Val → StoreResult Unit) : Prop where
  same : ∀ {v w}, kind.same v w = true → (check v).isOk = (check w).isOk
  canonical : ∀ v, (check (kind.canonical v)).isOk = (check v).isOk

/-- A check of other leaves than doubles is steady, since they count as equal only if they are, and
come back as they are. -/
theorem Leaf.Steady.of_exact {kind : Leaf} (hkind : kind ≠ real)
    (check : kind.Val → StoreResult Unit) : kind.Steady check := by
  cases kind with
  | real => exact absurd rfl hkind
  | choice c =>
    refine ⟨fun {v w} h => ?_, fun _ => rfl⟩
    have heq : v = w := by cases c <;> exact of_decide_eq_true h
    rw [heq]
  | text | texts | word32 | word64 | int64 =>
    refine ⟨fun {v w} h => ?_, fun _ => rfl⟩
    have heq : v = w := of_decide_eq_true h
    rw [heq]

/-- A check of doubles is steady if it refuses what is no number and decides by the number. -/
theorem Leaf.Steady.of_number {check : Double → StoreResult Unit} (allowed : Int → Bool)
    (h : ∀ x, (check x).isOk = (!x.isNaN && allowed x.units)) : real.Steady check where
  same {x y} hsame := by
    obtain ⟨hx, hy, hunits⟩ := Double.eqv_iff.1 hsame
    rw [h, h, hx, hy, hunits]
  canonical x := by
    show (check x.canonical).isOk = (check x).isOk
    cases hx : x.isNaN with
    | true => rw [h, h, Double.isNaN_canonical, hx, Bool.not_true, Bool.false_and, Bool.false_and]
    | false => rw [Double.canonical_of_number hx]

/-- Whether a test that refuses with an error passes. -/
theorem isOk_ite {b : Bool} {e : StoreError} :
    (if b then .ok () else .error e : StoreResult Unit).isOk = b := by
  cases b <;> rfl

theorem requirePositive_steady (field : String) : Leaf.real.Steady (requirePositive field) := by
  refine .of_number (fun n => Double.zero.units < n) fun x => ?_
  unfold requirePositive
  rw [isOk_ite]
  rfl

theorem requireNonnegative_steady (field : String) :
    Leaf.real.Steady (requireNonnegative field) := by
  refine .of_number (fun n => Double.zero.units ≤ n) fun x => ?_
  unfold requireNonnegative
  rw [isOk_ite]
  rfl

theorem Loc.checkWithin_steady (what : String) (limit : Nat) :
    Leaf.real.Steady (checkWithin what limit) := by
  refine .of_number (fun n =>
    !(Double.ofInt (-limit)).isNaN && (Double.ofInt (-limit)).units ≤ n &&
      (!(Double.ofNat limit).isNaN && n ≤ (Double.ofNat limit).units)) fun x => ?_
  unfold checkWithin Double.le
  rw [isOk_ite]
  cases x.isNaN with
  | true => simp
  | false => simp

/-! ## Checks -/

/-- A check of one leaf, made if an address at or above the leaf is selected. -/
structure Check (fs : Fields) where
  gate : String
  place : fs.Place
  run : place.kind.Val → StoreResult Unit
  above : FieldPath.isAbove ⟨gate⟩ (place.path .root).text = true
  steady : place.kind.Steady run

namespace Check

variable {fs : Fields}

/-- Whether values pass a check. -/
def passes (c : Check fs) (v : fs.Val) : Bool := (c.run (c.place.leaf v)).isOk

/-- The outcome of a check under a selection. -/
def outcome : Check fs → FieldMap → fs.Val → StoreResult Unit
  | ⟨gate, place, run, _, _⟩, mask, v => mask.check gate (run (place.leaf v))

/-- Values pass a check that is made, and any values one that is not. -/
theorem outcome_eq_ok_iff (c : Check fs) {mask : FieldMap} {v : fs.Val} :
    c.outcome mask v = .ok () ↔ (mask.has c.gate = true → c.passes v = true) := by
  have hok (r : StoreResult Unit) : r.isOk = true ↔ r = .ok () := by
    cases r with
    | error e => exact ⟨fun h => (nomatch h), fun h => (nomatch h)⟩
    | ok u => exact ⟨fun _ => rfl, fun _ => rfl⟩
  have houtcome : c.outcome mask v = mask.check c.gate (c.run (c.place.leaf v)) := rfl
  rw [houtcome, FieldMap.check, passes, hok]
  cases mask.has c.gate with
  | false => exact ⟨fun _ h => (nomatch h), fun _ => rfl⟩
  | true => exact ⟨fun h _ => h, fun h => h rfl⟩

/-- What comes back passes if what was stored does. -/
theorem passes_canonical (c : Check fs) (v : fs.Val) : c.passes (fs.canonical v) = c.passes v := by
  unfold passes
  rw [Fields.Place.leaf_canonical, c.steady.canonical]

end Check

/-- The outcome of tests that are made one after another, up to the first that fails. -/
def inOrder : StoreResult Unit → List (StoreResult Unit) → StoreResult Unit
  | first, [] => first
  | first, next :: rest => first >>= fun _ => inOrder next rest

theorem inOrder_eq_ok_iff {first : StoreResult Unit} {rest : List (StoreResult Unit)} :
    inOrder first rest = .ok () ↔ first = .ok () ∧ ∀ r ∈ rest, r = .ok () := by
  induction rest generalizing first with
  | nil => exact ⟨fun h => ⟨h, fun _ hr => (nomatch hr)⟩, fun h => h.1⟩
  | cons next rest ih =>
    rw [List.forall_mem_cons, ← ih]
    cases first with
    | error e => exact ⟨fun h => (nomatch h), fun h => (nomatch h.1)⟩
    | ok u => exact ⟨fun h => ⟨rfl, h⟩, fun h => h.2⟩

/-- A type of entities with the checks of its leaves. -/
class CheckedEntity (α : Type) [Entity α] where
  /-- The checks of the leaves, in the order in which they are made. -/
  checks : List (Check (Entity.schema α))
  validate_eq : ∀ (mask : FieldMap) (a : α), Entity.validate mask a =
    inOrder (ObjKey.validate (Entity.key a)) (checks.map fun c => c.outcome mask (Entity.body a))
  /-- No key is checked as a leaf. -/
  passes_setKey : ∀ (k : Entity.Key α) (a : α), ∀ c ∈ checks,
    c.passes (Entity.body (Entity.setKey k a)) = c.passes (Entity.body a)

/-! ## The checks of each type -/

/-- The checks of Flavor. -/
def Flavor.checks : List (Check (Entity.schema Flavor)) := [
    { gate := "4"
      place := .later (.later (.first .here))
      run := fun vcpus : UInt64 =>
        if Flavor.maxVcpus < vcpus.toNat then
          .error (.invalid ("vcpus " ++ vcpus.toNat.repr ++ " exceeds limit of 1024"))
        else .ok ()
      above := by decide +kernel
      steady := .of_exact (by decide) _ }]

instance : CheckedEntity Flavor where
  checks := Flavor.checks
  validate_eq _ _ := rfl
  passes_setKey _ _ := List.forall_mem_singleton.2 rfl

/-- A check of several things is one check after another. -/
theorem FieldMap.check_bind (mask : FieldMap) (path : String) (first next : StoreResult Unit) :
    mask.check path (first >>= fun _ => next) =
      (mask.check path first >>= fun _ => mask.check path next) := by
  unfold check
  split <;> rfl

/-- The checks of Cloudlet. -/
def Cloudlet.checks : List (Check (Entity.schema Cloudlet)) := [
    { gate := "5"
      place := .later (.later (.first (.inside (.first .here))))
      run := Loc.checkWithin "latitude" 90
      above := by decide +kernel
      steady := Loc.checkWithin_steady _ _ },
    { gate := "5"
      place := .later (.later (.first (.inside (.later (.first .here)))))
      run := Loc.checkWithin "longitude" 180
      above := by decide +kernel
      steady := Loc.checkWithin_steady _ _ }]

instance : CheckedEntity Cloudlet where
  checks := Cloudlet.checks
  validate_eq mask c :=
    congrArg (c.key.validate >>= fun _ => ·) (FieldMap.check_bind mask "5"
      (Loc.checkWithin "latitude" 90 c.location.latitude)
      (Loc.checkWithin "longitude" 180 c.location.longitude))
  passes_setKey _ _ := List.forall_mem_cons.2 ⟨rfl, List.forall_mem_singleton.2 rfl⟩

/-- The checks of App. -/
def App.checks : List (Check (Entity.schema App)) := [
    { gate := "6"
      place := .later (.later (.later (.first .here)))
      run := AccessPorts.validate
      above := by decide +kernel
      steady := .of_exact (by decide) _ }]

instance : CheckedEntity App where
  checks := App.checks
  validate_eq _ _ := rfl
  passes_setKey _ _ := List.forall_mem_singleton.2 rfl

instance : CheckedEntity Operator where
  checks := []
  validate_eq _ _ := rfl
  passes_setKey _ _ _ h := nomatch h

instance : CheckedEntity Controller where
  checks := []
  validate_eq _ _ := rfl
  passes_setKey _ _ _ h := nomatch h

instance : CheckedEntity AppInst where
  checks := []
  validate_eq _ _ := rfl
  passes_setKey _ _ _ h := nomatch h

/-- The checks of RateLimitSettings. -/
def RateLimitSettings.checks : List (Check (Entity.schema RateLimitSettings)) := [
    { gate := "3.2"
      place := .later (.first (.inside (.later (.first .here))))
      run := requirePositive "reqs_per_second"
      above := by decide +kernel
      steady := requirePositive_steady _ },
    { gate := "3.3"
      place := .later (.first (.inside (.later (.later (.first .here)))))
      run := fun size : Int64 => requirePositive "burst_size" (.ofInt size.toInt)
      above := by decide +kernel
      steady := .of_exact (by decide) _ },
    { gate := "4.1"
      place := .later (.later (.first (.inside (.first .here))))
      run := fun most : Int64 => requirePositive "max_requests" (.ofInt most.toInt)
      above := by decide +kernel
      steady := .of_exact (by decide) _ },
    { gate := "4.2"
      place := .later (.later (.first (.inside (.later (.first .here)))))
      run := fun seconds : UInt64 => requirePositive "interval_sec" (.ofNat seconds.toNat)
      above := by decide +kernel
      steady := .of_exact (by decide) _ }]

instance : CheckedEntity RateLimitSettings where
  checks := RateLimitSettings.checks
  validate_eq _ _ := rfl
  passes_setKey _ _ := List.forall_mem_cons.2 ⟨rfl, List.forall_mem_cons.2 ⟨rfl,
    List.forall_mem_cons.2 ⟨rfl, List.forall_mem_singleton.2 rfl⟩⟩⟩

/-- The checks of Settings. -/
def Settings.checks : List (Check (Entity.schema Settings)) := [
    { gate := "2"
      place := .first .here
      run := fun seconds : UInt64 =>
        requirePositive "shepherd_metrics_collection_interval_sec" (.ofNat seconds.toNat)
      above := by decide +kernel
      steady := .of_exact (by decide) _ },
    { gate := "3"
      place := .later (.first .here)
      run := fun retries : UInt32 =>
        requirePositive "shepherd_health_check_retries" (.ofNat retries.toNat)
      above := by decide +kernel
      steady := .of_exact (by decide) _ },
    { gate := "4"
      place := .later (.later (.first .here))
      run := requirePositive "auto_deploy_interval_sec"
      above := by decide +kernel
      steady := requirePositive_steady _ },
    { gate := "5"
      place := .later (.later (.later (.first .here)))
      run := requireNonnegative "auto_deploy_offset_sec"
      above := by decide +kernel
      steady := requireNonnegative_steady _ },
    { gate := "6"
      place := .later (.later (.later (.later (.first .here))))
      run := fun range : UInt32 => Settings.checkPortRange range.toNat
      above := by decide +kernel
      steady := .of_exact (by decide) _ },
    { gate := "7"
      place := .later (.later (.later (.later (.later (.first .here)))))
      run := fun seconds : UInt64 =>
        requirePositive "create_app_inst_timeout_sec" (.ofNat seconds.toNat)
      above := by decide +kernel
      steady := .of_exact (by decide) _ },
    { gate := "9"
      place := .later (.later (.later (.later (.later (.later (.later (.first .here)))))))
      run := fun clients : UInt32 =>
        requirePositive "max_tracked_dme_clients" (.ofNat clients.toNat)
      above := by decide +kernel
      steady := .of_exact (by decide) _ }]

instance : CheckedEntity Settings where
  checks := Settings.checks
  validate_eq _ _ := rfl
  passes_setKey _ _ _ _ := rfl

instance : (k : Kind) → CheckedEntity k.Obj
  | .app => inferInstanceAs (CheckedEntity App)
  | .appInst => inferInstanceAs (CheckedEntity AppInst)
  | .cloudlet => inferInstanceAs (CheckedEntity Cloudlet)
  | .controller => inferInstanceAs (CheckedEntity Controller)
  | .flavor => inferInstanceAs (CheckedEntity Flavor)
  | .operator => inferInstanceAs (CheckedEntity Operator)
  | .rateLimitSettings => inferInstanceAs (CheckedEntity RateLimitSettings)
  | .settings => inferInstanceAs (CheckedEntity Settings)

/-! ## Entities that pass -/

namespace CheckedEntity

variable {α : Type} [Entity α] [CheckedEntity α] {a b : α} {names : List String}

/-- An entity passes if its key does and all its selected leaves. -/
theorem validate_eq_ok_iff {mask : FieldMap} : Entity.validate mask a = .ok () ↔
    ObjKey.validate (Entity.key a) = .ok () ∧
      ∀ c ∈ checks (α := α), mask.has c.gate = true → c.passes (Entity.body a) = true := by
  rw [validate_eq, inOrder_eq_ok_iff, List.forall_mem_map]
  simp only [Check.outcome_eq_ok_iff]

end CheckedEntity

namespace Check

variable {α : Type} [Entity α] {a b : α} {names : List String}

/-- A check is made if the leaf that it looks at is selected. -/
theorem has_gate (c : Check (Entity.schema α)) (h : (c.place.path .root).isNamed names = true) :
    (FieldMap.ofFields names).has c.gate = true := by
  have hpath : (FieldMap.ofFields names).hasPath ⟨c.gate⟩ = true :=
    FieldMap.hasPath_of_isAbove c.above (c.place.path_text_ne .root) h
  exact hpath

/-- **A copied leaf passes if it did where it was copied from**, and every other one if it did
before. -/
theorem passes_copyFrom (c : Check (Entity.schema α)) (names : List String) (dst src : α) :
    c.passes (Entity.body (Entity.copyFrom (.ofFields names) .root dst src).1) =
      if (c.place.path .root).isNamed names then c.passes (Entity.body src)
      else c.passes (Entity.body dst) := by
  unfold passes
  rw [Entity.leaf_copyFrom]
  cases (c.place.path .root).isNamed names with
  | false => rfl
  | true =>
    rw [if_pos rfl, if_pos rfl, ← Leaf.eq_replaced]
    -- a leaf that stays counts as equal to the one it stays for
    split
    · rename_i hsame
      exact c.steady.same hsame
    · rfl

/-- **A leaf that was checked and merged passes**, and every other one passes if it did before. -/
theorem passes_merge (c : Check (Entity.schema α))
    (h : (FieldMap.ofFields names).has c.gate = true → c.passes (Entity.body a) = true) :
    c.passes (Entity.body (Entity.merge (.ofFields names) b a)) =
      ((c.place.path .root).isNamed names || c.passes (Entity.body b)) := by
  have hbody : Entity.body (Entity.merge (.ofFields names) b a) =
      Entity.body (Entity.copyFrom (.ofFields names) .root b a).1 := Entity.body_make _ _
  rw [hbody, passes_copyFrom]
  cases hnamed : (c.place.path .root).isNamed names with
  | false => rfl
  | true => rw [if_pos rfl, Bool.true_or, h (c.has_gate hnamed)]

end Check

end Inventory
