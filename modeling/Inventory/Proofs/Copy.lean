import Inventory.Entity.Operations
import Inventory.Proofs.Cbor.Record

/-!
# Copying selected fields

* `Shape.copyFrom_self`: copying a value onto itself leaves it, also where it is no number and so
  differs from itself.
* `Entity.body_copyFrom`: a copy of an entity is a copy of its values.
* `Shape.Fits.copyFrom`: **every leaf of a copy is a leaf of one of the two values**, so it fits if
  these do.
-/

namespace Inventory

variable {mask : FieldMap}

mutual

theorem Shape.copyFrom_self : (s : Shape) → (path : FieldPath) → (v : s.Val) →
    (s.copyFrom mask path v v).1 = v
  | .leaf kind, path, v => by
    unfold Shape.copyFrom
    split <;> rfl
  | .record fields, path, v => by
    unfold Shape.copyFrom
    split
    · exact fields.copyFrom_self path v
    · rfl

theorem Fields.copyFrom_self : (fs : Fields) → (path : FieldPath) → (v : fs.Val) →
    (fs.copyFrom mask path v v).1 = v
  | .nil, _, _ => rfl
  | .cons tag _ shape rest, path, (v, vs) =>
    Prod.ext (shape.copyFrom_self (path.child tag) v) (rest.copyFrom_self path vs)

end

/-- A record that is copied onto an equal one comes out the same. -/
theorem Record.ofVal_copyFrom {κ : Type} [Record κ] {k k' : κ} (h : k = k') (path : FieldPath) :
    ofVal ((shape κ).copyFrom mask path (toVal k) (toVal k')).1 = k := by
  have hsame : ((shape κ).copyFrom mask path (toVal k) (toVal k)).1 = toVal k :=
    (shape κ).copyFrom_self path (toVal k)
  rw [← h, hsame, ofVal_toVal]

/-! ## Copies of entities -/

namespace Entity

variable {α : Type} [Entity α]

/-- An entity is its values and the addresses it carries. -/
theorem eq_of_body {a b : α} (hfields : fields a = fields b) (hbody : body a = body b) : a = b := by
  rw [← make_fields_body a, ← make_fields_body b, hfields, hbody]

theorem fields_copyFrom (mask : FieldMap) (path : FieldPath) (dst src : α) :
    fields (copyFrom mask path dst src).1 = fields dst :=
  fields_make _ _

theorem body_copyFrom (mask : FieldMap) (path : FieldPath) (dst src : α) :
    body (copyFrom mask path dst src).1 =
      ((schema α).copyFrom mask path (body dst) (body src)).1 :=
  body_make _ _

end Entity

/-! ## What fits -/

mutual

/-- **Every leaf of a copy is a leaf of one of the two values.** -/
theorem Shape.Fits.copyFrom : {s : Shape} → {v w : s.Val} → s.Fits v → s.Fits w →
    (path : FieldPath) → s.Fits (s.copyFrom mask path v w).1
  | .leaf kind, v, w, hv, hw, path => by
    unfold Shape.copyFrom
    split
    · exact hw
    · exact hv
  | .record fields, v, w, hv, hw, path => by
    unfold Shape.copyFrom
    split
    · exact Fields.Fits.copyFrom hv hw path
    · exact hv

theorem Fields.Fits.copyFrom : {fs : Fields} → {v w : fs.Val} → fs.Fits v → fs.Fits w →
    (path : FieldPath) → fs.Fits (fs.copyFrom mask path v w).1
  | .nil, _, _, _, _, _ => trivial
  | .cons tag _ _ _, _, _, hv, hw, path =>
    ⟨Shape.Fits.copyFrom hv.1 hw.1 (path.child tag), Fields.Fits.copyFrom hv.2 hw.2 path⟩

end

theorem Leaf.fits_zero (kind : Leaf) : kind.Fits kind.zero := by
  cases kind with
  | text => exact Nat.two_pow_pos 64
  | texts => exact ⟨Nat.two_pow_pos 64, fun s hs => nomatch hs⟩
  | word32 => trivial
  | word64 => trivial
  | int64 => trivial
  | real => trivial
  | choice c => trivial

mutual

theorem Shape.fits_zero : (s : Shape) → s.Fits s.zero
  | .leaf kind => kind.fits_zero
  | .record fields => fields.fits_zero

theorem Fields.fits_zero : (fs : Fields) → fs.Fits fs.zero
  | .nil => trivial
  | .cons _ _ shape rest => ⟨shape.fits_zero, rest.fits_zero⟩

end

theorem Leaf.Fits.canonical {kind : Leaf} {v : kind.Val} (h : kind.Fits v) :
    kind.Fits (kind.canonical v) := by
  cases kind with
  | text => exact h
  | texts => exact h
  | word32 => trivial
  | word64 => trivial
  | int64 => trivial
  | real => trivial
  | choice c => trivial

mutual

/-- What fits still fits when it comes back. -/
theorem Shape.Fits.canonical : {s : Shape} → {v : s.Val} → s.Fits v → s.Fits (s.canonical v)
  | .leaf _, _, h => Leaf.Fits.canonical h
  | .record _, _, h => Fields.Fits.canonical h

theorem Fields.Fits.canonical : {fs : Fields} → {v : fs.Val} → fs.Fits v → fs.Fits (fs.canonical v)
  | .nil, _, _ => trivial
  | .cons _ _ _ _, _, h => ⟨Shape.Fits.canonical h.1, Fields.Fits.canonical h.2⟩

end

end Inventory
