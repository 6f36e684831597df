import Inventory.Proofs.Leaves
import Inventory.Proofs.StoreKey

/-!
# What comes back from the store

A stored value has one form for all doubles that stand for no number; every other leaf is written
bit for bit. So what comes back is the entity itself, with the doubles that stand for no number
replaced by one of them, and it is written as the entity was.

* `Fields.Place.leaf_canonical`: what comes back is said leaf by leaf.
* `Fields.write_canonical`: **what comes back is written as what was stored.**
* `Entity.decoding_undoes_encoding`: the two for whole entities.
-/

namespace Inventory

/-! ## One form for what stands for no number -/

namespace Double

theorem isNaN_nan : nan.isNaN = true := by decide +kernel

theorem canonical_of_number {x : Double} (h : x.isNaN = false) : x.canonical = x := by
  unfold canonical
  rw [h]
  rfl

theorem canonical_of_isNaN {x : Double} (h : x.isNaN = true) : x.canonical = nan := by
  unfold canonical
  rw [h]
  rfl

/-- What comes back stands for a number exactly if what was stored does. -/
@[simp] theorem isNaN_canonical (x : Double) : x.canonical.isNaN = x.isNaN := by
  cases h : x.isNaN with
  | true => rw [canonical_of_isNaN h, isNaN_nan]
  | false => rw [canonical_of_number h, h]

end Double

/-- All doubles that stand for no number are written alike. -/
theorem Cbor.writeDouble_canonical (x : Double) : writeDouble x.canonical = writeDouble x := by
  cases h : x.isNaN with
  | true =>
    unfold writeDouble
    rw [if_pos h, if_pos (by rw [Double.isNaN_canonical, h])]
  | false => rw [Double.canonical_of_number h]

theorem Leaf.write_canonical (kind : Leaf) (v : kind.Val) :
    kind.write (kind.canonical v) = kind.write v := by
  cases kind with
  | real => exact Cbor.writeDouble_canonical v
  | text => rfl
  | texts => rfl
  | word32 => rfl
  | word64 => rfl
  | int64 => rfl
  | choice c => rfl

/-! ## Records -/

mutual

/-- What comes back is written as what was stored. -/
theorem Shape.write_canonical : (s : Shape) → (v : s.Val) → s.write (s.canonical v) = s.write v
  | .leaf kind, v => kind.write_canonical v
  | .record fields, v => congrArg (Cbor.writeHead 5 fields.count ++ ·) (fields.write_canonical v)

/-- Fields that come back are written as those that were stored. -/
theorem Fields.write_canonical : (fs : Fields) → (v : fs.Val) →
    fs.write (fs.canonical v) = fs.write v
  | .nil, _ => rfl
  | .cons _ name shape rest, v => by
    show Cbor.writeText name ++ shape.write (shape.canonical v.1) ++
      rest.write (rest.canonical v.2) = Cbor.writeText name ++ shape.write v.1 ++ rest.write v.2
    rw [shape.write_canonical v.1, rest.write_canonical v.2]

end

mutual

/-- A leaf of what comes back. -/
theorem Shape.Place.leaf_canonical : {s : Shape} → (p : s.Place) → (v : s.Val) →
    p.leaf (s.canonical v) = p.kind.canonical (p.leaf v)
  | .leaf _, .here, _ => rfl
  | .record _, .inside p, v => p.leaf_canonical v

/-- A leaf of the fields that come back. -/
theorem Fields.Place.leaf_canonical : {fs : Fields} → (p : fs.Place) → (v : fs.Val) →
    p.leaf (fs.canonical v) = p.kind.canonical (p.leaf v)
  | .cons _ _ _ _, .first p, v => p.leaf_canonical v.1
  | .cons _ _ _ _, .later p, v => p.leaf_canonical v.2

end

namespace Entity

variable {α : Type} [Entity α]

theorem body_restored (a : α) : body (restored a) = (schema α).canonical (body a) :=
  body_make _ _

/-- What comes back is written as what was stored. -/
theorem encode_restored (a : α) : encode (restored a) = encode a := by
  unfold encode
  rw [body_restored]
  exact (Shape.record (schema α)).write_canonical (body a)

/-- **Decoding undoes encoding.** An entity whose texts and lists are no longer than a head can
tell, as all that fit into memory are, comes back without the addresses of what a request wants to
change. Each leaf is the one that was stored, bit for bit, but for doubles that stand for no number,
which all come back as one. What comes back has the same stored form. -/
theorem decoding_undoes_encoding (kind : Kind) (a : kind.Obj) (h : Fits a) (key : String) :
    ∃ b : kind.Obj, decode key (encode a) = .ok b ∧ fields b = [] ∧
      (∀ p : (schema kind.Obj).Place, p.leaf (body b) = p.kind.canonical (p.leaf (body a))) ∧
      encode b = encode a := by
  refine ⟨restored a, decode_encode h key, fields_make _ _, fun p => ?_, encode_restored a⟩
  rw [body_restored, Fields.Place.leaf_canonical]

namespace Drifting

/-- A cloudlet at a latitude that is no number and has a payload, a longitude of zero with a sign
and an altitude of the smallest double, in a request for a new latitude. -/
def cloudlet : Cloudlet :=
  ⟨["5.1"], ⟨⟨"o"⟩, "c"⟩, "", ⟨⟨0xfff0000000000001⟩, ⟨0x8000000000000000⟩, ⟨1⟩⟩, "é"⟩

/-- The cloudlet that comes back. -/
def back : Cloudlet :=
  ⟨[], ⟨⟨"o"⟩, "c"⟩, "", ⟨⟨0x7ff8000000000000⟩, ⟨0x8000000000000000⟩, ⟨1⟩⟩, "é"⟩

end Drifting

/-- Only the payload is lost. -/
theorem decoding_undoes_encoding_of_a_payload :
    Fits Drifting.cloudlet ∧ decode "Cloudlet/c" (encode Drifting.cloudlet) = .ok Drifting.back ∧
      encode Drifting.back = encode Drifting.cloudlet := by
  have hfits : Fits Drifting.cloudlet := by decide +kernel
  obtain ⟨b, hdecode, hfields, hleaf, hencode⟩ :=
    decoding_undoes_encoding .cloudlet Drifting.cloudlet hfits "Cloudlet/c"
  have hback : b = Drifting.back := by
    have hrestored : restored Drifting.cloudlet = Drifting.back := by decide +kernel
    have hbody : body b = body Drifting.back := by
      refine (schema Cloudlet).ext_leaves fun p => ?_
      rw [hleaf p, ← hrestored, body_restored, Fields.Place.leaf_canonical]
    exact eq_of_body hfields hbody
  rw [hback] at hdecode hencode
  exact ⟨hfits, hdecode, hencode⟩

end Entity

end Inventory
