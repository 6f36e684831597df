import Inventory.Proofs.Addresses
import Inventory.Proofs.Copy
import Inventory.Proofs.Double
import Mathlib.Data.List.Nodup

/-!
# The leaves of a copy

A `Place` points at one leaf of a schema. Two values are equal if they agree at every place, so
that what a copy does is said by what it leaves at each place.

* `Fields.Place.selected`: **a copy that walks from the top reaches every leaf that is selected**,
  since what a leaf is in is above it.
* `Fields.leaf_copyFrom`: a selected leaf becomes that of the other value, all others stay.
* `Leaf.eq_replaced`: a leaf that counts as equal to the new one stays, and **it is equal to it,
  unless both are zeros of the doubles**, which differ in their sign.
* `Fields.count_copyFrom`: a copy counts the selected leaves that differ.
-/

namespace Inventory

/-! ## Places -/

mutual

/-- A leaf of a shape. -/
inductive Shape.Place : Shape → Type where
  | here {kind : Leaf} : Shape.Place (.leaf kind)
  | inside {fields : Fields} (p : Fields.Place fields) : Shape.Place (.record fields)

/-- A leaf of a sequence of fields. -/
inductive Fields.Place : Fields → Type where
  | first {tag : Nat} {name : String} {shape : Shape} {rest : Fields} (p : Shape.Place shape) :
    Fields.Place (.cons tag name shape rest)
  | later {tag : Nat} {name : String} {shape : Shape} {rest : Fields} (p : Fields.Place rest) :
    Fields.Place (.cons tag name shape rest)

end

mutual

/-- The kind of a leaf. -/
def Shape.Place.kind : {s : Shape} → s.Place → Leaf
  | .leaf kind, .here => kind
  | .record _, .inside p => p.kind

/-- The kind of a leaf of some fields. -/
def Fields.Place.kind : {fs : Fields} → fs.Place → Leaf
  | .cons _ _ _ _, .first p => p.kind
  | .cons _ _ _ _, .later p => p.kind

end

mutual

/-- The address of a leaf, from the address of its shape. -/
def Shape.Place.path : {s : Shape} → s.Place → FieldPath → FieldPath
  | .leaf _, .here, path => path
  | .record _, .inside p, path => p.path path

/-- The address of a leaf of some fields, from the address of their record. -/
def Fields.Place.path : {fs : Fields} → fs.Place → FieldPath → FieldPath
  | .cons tag _ _ _, .first p, path => p.path (path.child tag)
  | .cons _ _ _ _, .later p, path => p.path path

end

mutual

/-- The leaf of a value. -/
def Shape.Place.leaf : {s : Shape} → (p : s.Place) → s.Val → p.kind.Val
  | .leaf _, .here, v => v
  | .record _, .inside p, v => p.leaf v

/-- The leaf of the values of some fields. -/
def Fields.Place.leaf : {fs : Fields} → (p : fs.Place) → fs.Val → p.kind.Val
  | .cons _ _ _ _, .first p, v => p.leaf v.1
  | .cons _ _ _ _, .later p, v => p.leaf v.2

end

mutual

/-- A value is its leaves. -/
theorem Shape.ext_leaves : {s : Shape} → {v w : s.Val} →
    (∀ p : s.Place, p.leaf v = p.leaf w) → v = w
  | .leaf _, _, _, h => h .here
  | .record fields, v, w, h => fields.ext_leaves (v := v) (w := w) fun p => h (.inside p)

/-- The values of some fields are their leaves. -/
theorem Fields.ext_leaves : (fs : Fields) → {v w : fs.Val} →
    (∀ p : fs.Place, p.leaf v = p.leaf w) → v = w
  | .nil, _, _, _ => rfl
  | .cons _ _ shape rest, (v, vs), (w, ws), h =>
    Prod.ext (Shape.ext_leaves (s := shape) (v := v) (w := w) fun p => h (.first p))
      (rest.ext_leaves (v := vs) (w := ws) fun p => h (.later p))

end

mutual

/-- The leaves of a shape, one after another. -/
def Shape.places : (s : Shape) → List s.Place
  | .leaf _ => [.here]
  | .record fields => fields.places.map .inside

/-- The leaves of some fields, one after another. -/
def Fields.places : (fs : Fields) → List fs.Place
  | .nil => []
  | .cons _ _ shape rest => shape.places.map .first ++ rest.places.map .later

end

mutual

theorem Shape.mem_places : {s : Shape} → (p : s.Place) → p ∈ s.places
  | .leaf _, .here => List.mem_singleton.2 rfl
  | .record _, .inside p => List.mem_map_of_mem (Fields.mem_places p)

theorem Fields.mem_places : {fs : Fields} → (p : fs.Place) → p ∈ fs.places
  | .cons _ _ _ _, .first p => List.mem_append_left _ (List.mem_map_of_mem (Shape.mem_places p))
  | .cons _ _ _ _, .later p => List.mem_append_right _ (List.mem_map_of_mem (Fields.mem_places p))

end

mutual

/-- No leaf of a shape is listed twice. -/
theorem Shape.nodup_places : (s : Shape) → s.places.Nodup
  | .leaf _ => List.nodup_singleton _
  | .record fields => fields.nodup_places.map fun _ _ h => Shape.Place.inside.inj h

/-- No leaf of some fields is listed twice. -/
theorem Fields.nodup_places : (fs : Fields) → fs.places.Nodup
  | .nil => List.nodup_nil
  | .cons _ _ shape rest => by
    refine List.Nodup.append (shape.nodup_places.map fun _ _ h => Fields.Place.first.inj h)
      (rest.nodup_places.map fun _ _ h => Fields.Place.later.inj h) ?_
    intro p hfirst hlater
    obtain ⟨_, -, rfl⟩ := List.mem_map.1 hfirst
    obtain ⟨_, -, h⟩ := List.mem_map.1 hlater
    cases h

end

mutual

/-- The addresses of the leaves are those of the places. -/
theorem Shape.map_path_places : (s : Shape) → (path : FieldPath) →
    s.places.map (·.path path) = s.leafPaths path
  | .leaf _, _ => rfl
  | .record fields, path => by
    show (fields.places.map Shape.Place.inside).map _ = fields.leafPaths path
    rw [List.map_map, ← fields.map_path_places path]
    rfl

/-- The addresses of the leaves of some fields are those of their places. -/
theorem Fields.map_path_places : (fs : Fields) → (path : FieldPath) →
    fs.places.map (·.path path) = fs.leafPaths path
  | .nil, _ => rfl
  | .cons tag _ shape rest, path => by
    show (shape.places.map Fields.Place.first ++ rest.places.map Fields.Place.later).map _ =
      shape.leafPaths (path.child tag) ++ rest.leafPaths path
    rw [List.map_append, List.map_map, List.map_map, ← shape.map_path_places,
      ← rest.map_path_places path]
    rfl

end

/-! ## What a copy leaves at a place -/

namespace Leaf

/-- Whether a leaf is one of the two zeros of the doubles, which count as equal. -/
def isRealZero : (kind : Leaf) → kind.Val → Bool
  | real, x => x.magnitude == 0
  | text, _ | texts, _ | word32, _ | word64, _ | int64, _ | choice _, _ => false

/-- What becomes of a leaf that another one replaces: of two zeros the old one stays. -/
def replaced (kind : Leaf) (old new : kind.Val) : kind.Val :=
  if kind.isRealZero old && kind.isRealZero new then old else new

/-- **A leaf that is left because it counts as equal is equal**, or it is a zero. -/
theorem eq_replaced : (kind : Leaf) → (old new : kind.Val) →
    (if kind.same old new then old else new) = kind.replaced old new
  | text, _, _ | texts, _, _ | word32, _, _ | word64, _, _ | int64, _, _
  | choice .imageType, _, _ | choice .liveness, _, _ | choice .flowAlgorithm, _, _ => by
    simp only [replaced, isRealZero, same, Choice.same, Bool.and_self, Bool.false_eq_true,
      if_false, decide_eq_true_eq]
    exact ite_eq_right_iff.2 id
  | real, old, new => by
    show (if old.eqv new = true then old else new) =
      if (old.magnitude == 0 && new.magnitude == 0) = true then old else new
    by_cases hzero : (old.magnitude == 0 && new.magnitude == 0) = true
    · rw [if_pos hzero]
      rw [Bool.and_eq_true, beq_iff_eq, beq_iff_eq] at hzero
      rw [if_pos (Double.eqv_of_zero hzero.1 hzero.2)]
    · rw [if_neg hzero]
      refine ite_eq_right_iff.2 fun heqv => ?_
      rw [Bool.and_eq_true, beq_iff_eq, beq_iff_eq] at hzero
      exact (Double.eq_of_eqv heqv).resolve_right hzero

/-- What a copy makes of a leaf. -/
theorem copied_eq_replaced (kind : Leaf) (selected : Bool) (old new : kind.Val) :
    (if selected && !kind.same old new then (new, 1) else (old, 0) : kind.Val × Nat).1 =
      if selected then kind.replaced old new else old := by
  rw [← kind.eq_replaced]
  cases selected <;> cases kind.same old new <;> rfl

end Leaf

variable {fields : List String}

mutual

/-- What a leaf is in is above it. -/
theorem Shape.Place.isAbove_path : {s : Shape} → (p : s.Place) → {path : FieldPath} →
    path.text ≠ "" → path.isAbove (p.path path).text = true
  | .leaf _, .here, path, _ => path.isAbove_self
  | .record _, .inside p, _, hroot => p.isAbove_path hroot

/-- The record that a leaf is in is above it. -/
theorem Fields.Place.isAbove_path : {fs : Fields} → (p : fs.Place) → {path : FieldPath} →
    path.text ≠ "" → path.isAbove (p.path path).text = true
  | .cons tag _ _ _, .first p, path, hroot =>
    FieldPath.isAbove_trans (FieldPath.isAbove_child hroot tag)
      (p.isAbove_path (path.child_text_ne tag))
  | .cons _ _ _ _, .later p, _, hroot => p.isAbove_path hroot

end

/-- The numbers of some fields. -/
def Fields.tags : Fields → List Nat
  | .nil => []
  | .cons tag _ _ rest => tag :: rest.tags

/-- One of the fields of a record is above a leaf of it. -/
theorem Fields.Place.isAbove_leaf : {fs : Fields} → (p : fs.Place) → (path : FieldPath) →
    ∃ tag ∈ fs.tags, (path.child tag).isAbove (p.path path).text = true
  | .cons tag _ _ _, .first p, path =>
    ⟨tag, List.mem_cons_self, p.isAbove_path (path.child_text_ne tag)⟩
  | .cons _ _ _ _, .later p, path => by
    obtain ⟨tag, hmem, habove⟩ := p.isAbove_leaf path
    exact ⟨tag, List.mem_cons_of_mem _ hmem, habove⟩

mutual

theorem Shape.Place.path_text_ne : {s : Shape} → (p : s.Place) → {path : FieldPath} →
    path.text ≠ "" → (p.path path).text ≠ ""
  | .leaf _, .here, _, hroot => hroot
  | .record _, .inside p, path, _ => p.path_text_ne path

/-- A leaf of some fields is not the record that addresses start from. -/
theorem Fields.Place.path_text_ne : {fs : Fields} → (p : fs.Place) → (path : FieldPath) →
    (p.path path).text ≠ ""
  | .cons tag _ _ _, .first p, path => p.path_text_ne (path.child_text_ne tag)
  | .cons _ _ _ _, .later p, path => p.path_text_ne path

end

/-- **A record that a selected leaf is in is selected**, so a copy gets to the leaf. -/
theorem Fields.Place.selected {fs : Fields} (p : fs.Place) {path : FieldPath}
    (hroot : path.text ≠ "") (h : (FieldMap.ofFields fields).hasPath (p.path path) = true) :
    (FieldMap.ofFields fields).hasPath path = true := by
  rw [FieldMap.hasPath_ofFields (p.path_text_ne path)] at h
  exact FieldMap.hasPath_of_isAbove (p.isAbove_path hroot) (p.path_text_ne path) h

mutual

/-- **A copy replaces the selected leaves of a value** and leaves the others. -/
theorem Shape.leaf_copyFrom : {s : Shape} → (p : s.Place) → (path : FieldPath) →
    path.text ≠ "" → (dst src : s.Val) →
    p.leaf (s.copyFrom (.ofFields fields) path dst src).1 =
      if (FieldMap.ofFields fields).hasPath (p.path path) then
        p.kind.replaced (p.leaf dst) (p.leaf src)
      else p.leaf dst
  | .leaf kind, .here, path, _, dst, src => by
    unfold Shape.copyFrom
    exact kind.copied_eq_replaced _ dst src
  | .record fs, .inside p, path, hroot, dst, src => by
    unfold Shape.copyFrom
    cases hpath : (FieldMap.ofFields fields).hasPath path with
    | true => exact Fields.leaf_copyFrom p path dst src
    | false =>
      -- nothing in here is selected
      have hleaf : (FieldMap.ofFields fields).hasPath (p.path path) ≠ true := by
        intro h
        rw [p.selected hroot h] at hpath
        cases hpath
      exact (if_neg hleaf).symm

/-- **A copy replaces the selected leaves of a record** and leaves the others. -/
theorem Fields.leaf_copyFrom : {fs : Fields} → (p : fs.Place) → (path : FieldPath) →
    (dst src : fs.Val) →
    p.leaf (fs.copyFrom (.ofFields fields) path dst src).1 =
      if (FieldMap.ofFields fields).hasPath (p.path path) then
        p.kind.replaced (p.leaf dst) (p.leaf src)
      else p.leaf dst
  | .cons tag _ _ _, .first p, path, dst, src =>
    Shape.leaf_copyFrom p (path.child tag) (path.child_text_ne tag) dst.1 src.1
  | .cons _ _ _ _, .later p, path, dst, src => Fields.leaf_copyFrom p path dst.2 src.2

end

/-- Whether a leaf of a copy is selected and differs from that of the other value. -/
def Fields.Place.changes {fs : Fields} (mask : FieldMap) (path : FieldPath) (dst src : fs.Val)
    (p : fs.Place) : Bool :=
  mask.hasPath (p.path path) && !p.kind.same (p.leaf dst) (p.leaf src)

/-- Whether a leaf of a copied value is selected and differs from that of the other value. -/
def Shape.Place.changes {s : Shape} (mask : FieldMap) (path : FieldPath) (dst src : s.Val)
    (p : s.Place) : Bool :=
  mask.hasPath (p.path path) && !p.kind.same (p.leaf dst) (p.leaf src)

mutual

/-- **A copy counts the selected leaves of a value that differ.** -/
theorem Shape.count_copyFrom : (s : Shape) → (path : FieldPath) → path.text ≠ "" →
    (dst src : s.Val) → (s.copyFrom (.ofFields fields) path dst src).2 =
      s.places.countP (Shape.Place.changes (.ofFields fields) path dst src)
  | .leaf kind, path, _, dst, src => by
    unfold Shape.copyFrom Shape.places
    rw [List.countP_singleton]
    exact (apply_ite Prod.snd _ _ _)
  | .record fs, path, hroot, dst, src => by
    unfold Shape.copyFrom Shape.places
    rw [List.countP_map]
    cases hpath : (FieldMap.ofFields fields).hasPath path with
    | true => exact fs.count_copyFrom path dst src
    | false =>
      -- nothing in here is selected
      refine (List.countP_eq_zero.2 fun p _ hchanges => ?_).symm
      have hleaf := (Bool.and_eq_true_iff.1 hchanges).1
      rw [p.selected hroot hleaf] at hpath
      cases hpath

/-- **A copy counts the selected leaves of a record that differ.** -/
theorem Fields.count_copyFrom : (fs : Fields) → (path : FieldPath) → (dst src : fs.Val) →
    (fs.copyFrom (.ofFields fields) path dst src).2 =
      fs.places.countP (Fields.Place.changes (.ofFields fields) path dst src)
  | .nil, _, _, _ => rfl
  | .cons tag _ shape rest, path, dst, src => by
    unfold Fields.places
    rw [List.countP_append, List.countP_map, List.countP_map]
    exact congrArg₂ (· + ·)
      (shape.count_copyFrom (path.child tag) (path.child_text_ne tag) dst.1 src.1)
      (rest.count_copyFrom path dst.2 src.2)

end

end Inventory
