import Inventory.Proofs.Canonical
import Inventory.Proofs.Cbor.Extent

/-!
# Stored values that were cut

A stored value tells by itself where it ends. What follows it is not looked at, and a value that was
cut anywhere is not read at all: as missing fields would get their zero values, a reader that took
what is left of a record would lose the rest without a word.

* `Shape.decode_cut`: what is left of a written value is not read.
* `Entity.encodings_are_self_delimiting`: the two for whole entities.
-/

namespace Inventory

/-- **What is left of a written value is not read.** If it were, the reader would leave over what
was cut off, and it leaves over nothing of the whole. -/
theorem Shape.decode_cut (s : Shape) (v : s.Val) (hread : s.readable Cbor.maxNesting = true)
    (hfits : s.Fits v) {cut : Bytes} (hcut : cut <+: s.write v) (hne : cut ≠ s.write v) :
    s.decode cut = none := by
  obtain ⟨off, hoff⟩ := hcut
  unfold Shape.decode
  cases h : s.read Cbor.maxNesting cut with
  | none => rfl
  | some r =>
    obtain ⟨w, left⟩ := r
    have hwhole := s.read_write v hread hfits []
    rw [List.append_nil, ← hoff, (s.read_local Cbor.maxNesting).append h off] at hwhole
    have hnil : left ++ off = [] := (Prod.mk.inj (Option.some.inj hwhole)).2
    rw [(List.append_eq_nil_iff.1 hnil).2, List.append_nil] at hoff
    exact absurd hoff hne

namespace Entity

/-- **Stored values end by themselves.** The stored value of an entity is decoded to the same
entity, whatever bytes follow it. Of a stored value that was cut, wherever that is, nothing is
decoded: the record is corrupt. -/
theorem encodings_are_self_delimiting (kind : Kind) (a : kind.Obj) (h : Fits a) (key : String) :
    ∃ b : kind.Obj, decode key (encode a) = .ok b ∧
      (∀ more, decode key (encode a ++ more) = .ok b) ∧
      ∀ cut, cut <+: encode a → cut ≠ encode a → (decode key cut : StoreResult kind.Obj) =
        .error (.corrupt key (CodecError.decodingFailed CodecError.noDetail).message) := by
  refine ⟨restored a, decode_encode h key, fun more => ?_, fun cut hcut hne => ?_⟩
  · have hread :=
      (Shape.record (schema kind.Obj)).decode_write (body a) LawfulEntity.readable h more
    unfold decode encode
    rw [hread]
    rfl
  · unfold decode
    rw [(Shape.record (schema kind.Obj)).decode_cut (body a) LawfulEntity.readable h hcut hne]

namespace Wreck

/-- A flavor with a disk. -/
def flavor : Flavor := ⟨[], ⟨"small"⟩, 1024, 2, 40⟩

end Wreck

/-- Two bytes more make no difference. Without its last byte the value is not read, not even as a
flavor without a disk. -/
theorem encodings_are_self_delimiting_for_a_flavor :
    Fits Wreck.flavor ∧
      decode "Flavor/small" (encode Wreck.flavor ++ [0x64, 0x69]) = .ok Wreck.flavor ∧
      (decode "Flavor/small" (encode Wreck.flavor).dropLast : StoreResult Flavor) =
        .error (.corrupt "Flavor/small" "decoding failed: *") := by
  have hfits : Fits Wreck.flavor := by decide +kernel
  obtain ⟨b, hown, hmore, hcut⟩ :=
    encodings_are_self_delimiting .flavor Wreck.flavor hfits "Flavor/small"
  have hback : b = Wreck.flavor := by
    have hown' := hown.symm.trans (decode_encode hfits "Flavor/small")
    exact (Except.ok.inj hown').trans (by decide +kernel)
  have hmessage : (CodecError.decodingFailed CodecError.noDetail).message =
      "decoding failed: *" := by decide
  have hshort := hcut (encode Wreck.flavor).dropLast (List.dropLast_prefix _) (by decide +kernel)
  rw [hback] at hmore
  rw [hmessage] at hshort
  exact ⟨hfits, hmore _, hshort⟩

end Entity

end Inventory
