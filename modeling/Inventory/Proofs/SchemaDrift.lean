import Inventory.Proofs.Canonical
import Inventory.Proofs.Cbor.Form
import Inventory.Proofs.Label

/-!
# Records of another schema

A store outlives the programs that write to it. One program may not know a field yet that another
writes, and may miss one that another left out.

* `Shape.Form.decode_write`: what is decoded from a form.
* `Entity.records_survive_drift`: **from a map with some of the fields of an entity and whatever
  else, in any order, an entity with these fields is decoded**, and nothing from a map with a field
  that comes twice.
* `Entity.drift_can_be_refused`: not all that is well formed can be passed over.
-/

namespace Inventory

open Cbor

/-- What is decoded from a form are the leaves that it stores. -/
theorem Shape.Form.decode_write {s : Shape} (form : s.Form) (v : s.Val)
    (hread : s.readable maxNesting = true) (hfits : s.Fits v) :
    s.decode (form.write v) =
      if form.Reads maxNesting then some (s.restrict form.holds v) else none := by
  have h := form.read_write v hread hfits []
  rw [List.append_nil] at h
  unfold Shape.decode
  rw [h]
  split <;> rfl

namespace Entity

/-- What cannot be read is corrupt. -/
theorem decode_of_not_reads {α : Type} [Entity α] [LawfulEntity α] {a : α} (h : Fits a)
    {form : (Shape.record (schema α)).Form} (hform : ¬ form.Reads maxNesting) (key : String) :
    (decode key (form.write (body a)) : StoreResult α) =
      .error (.corrupt key (CodecError.decodingFailed CodecError.noDetail).message) := by
  unfold decode
  rw [form.decode_write (body a) LawfulEntity.readable h, if_neg hform]

/-- **Records survive a drift of the schema.** Take a map with entries for some of the fields of an
entity, in any order, each in any such form if it holds fields itself, and with any well-formed
entries under other names between them. If no map has two entries for one field, what is under other
names is familiar and nothing nests too deep, an entity is decoded that has each leaf that the map
holds, as it comes back, and zero values for the others. Otherwise the record is corrupt. -/
theorem records_survive_drift (kind : Kind) (a : kind.Obj) (h : Fits a)
    (form : (Shape.record (schema kind.Obj)).Form) (key : String) :
    (form.once = true → form.familiar = true → form.nesting ≤ maxNesting →
      ∃ b : kind.Obj, decode key (form.write (body a)) = .ok b ∧ fields b = [] ∧
        ∀ p : (schema kind.Obj).Place, p.leaf (body b) =
          if form.holds (.inside p) = true then p.kind.canonical (p.leaf (body a))
          else p.leaf (body (zero kind.Obj))) ∧
    (¬ (form.once = true ∧ form.familiar = true ∧ form.nesting ≤ maxNesting) →
      (decode key (form.write (body a)) : StoreResult kind.Obj) =
        .error (.corrupt key (CodecError.decodingFailed CodecError.noDetail).message)) := by
  refine ⟨fun honce hfamiliar hnesting => ?_, fun hform => decode_of_not_reads h hform key⟩
  have hdecode := form.decode_write (body a) LawfulEntity.readable h
  rw [if_pos ⟨honce, hfamiliar, hnesting⟩] at hdecode
  refine ⟨make [] ((Shape.record (schema kind.Obj)).restrict form.holds (body a)), ?_,
    fields_make _ _, fun p => ?_⟩
  · unfold decode
    rw [hdecode]
  · unfold zero
    rw [body_make, body_make]
    exact p.leaf_restrict (fun p => form.holds (.inside p)) (body a)

namespace Atoll

/-- A cloudlet at an altitude that is no number and has a payload. -/
def cloudlet : Cloudlet :=
  ⟨["5"], ⟨⟨"o"⟩, "c"⟩, "u", ⟨⟨0x4046800000000000⟩, ⟨0⟩, ⟨0xfff0000000000001⟩⟩, "c-o"⟩

/-- An array with a stop: a number in more bytes than it takes, and a map from a tagged text to a
float. -/
def item : Item :=
  .collection .array (.stopped 2) (.cons (.cons (.unsigned (.long 3 1)) .nil) (.cons (.cons
    (.collection .map (.counted (.short 1)) (.cons (.cons
      (.tag (.short 0) (.text (.pieces [⟨.short 1, [0x2d], rfl⟩])))
      (.cons (.half 0x3c00) .nil)) .nil)) .nil) .nil))

/-- The location before the key, each with some of its fields, and the item twice under one name. -/
def form : (Shape.record (schema Cloudlet)).Form :=
  .record (.stopped 4) <|
    .extra (by decide : "zone" ∉ (schema Cloudlet).names) (.brief (by decide)) item <|
    .known (.later (.later .first)) (.brief (by decide))
      (.record (.counted (.short 2)) (.known (.later (.later .first)) (.brief (by decide)) .leaf
        (.extra (by decide : "unit" ∉ (Record.schema Loc).names) (.brief (by decide)) item .nil))) <|
    .extra (by decide : "zone" ∉ (schema Cloudlet).names) (.brief (by decide)) item <|
    .known .first (.brief (by decide))
      (.record (.stopped 1) (.known (.later .first) (.brief (by decide)) .leaf .nil)) .nil

/-- The cloudlet with these fields. -/
def remains : Cloudlet := ⟨[], ⟨⟨""⟩, "c"⟩, "", ⟨.zero, .zero, .nan⟩, ""⟩

end Atoll

/-- A cloudlet is left with a name and an altitude. -/
theorem records_survive_drift_of_a_cloudlet :
    Fits Atoll.cloudlet ∧ Atoll.form.once = true ∧ Atoll.form.familiar = true ∧
      Atoll.form.nesting ≤ maxNesting ∧
      decode "Cloudlet/c" (Atoll.form.write (body Atoll.cloudlet)) = .ok Atoll.remains := by
  have hfits : Fits Atoll.cloudlet := by decide +kernel
  have honce : Atoll.form.once = true := by decide +kernel
  have hfamiliar : Atoll.form.familiar = true := by decide +kernel
  have hnesting : Atoll.form.nesting ≤ maxNesting := by decide +kernel
  obtain ⟨b, hdecode, hfields, hleaf⟩ :=
    (records_survive_drift .cloudlet Atoll.cloudlet hfits Atoll.form "Cloudlet/c").1 honce hfamiliar
      hnesting
  have hremains : b = Atoll.remains := by
    have hkept : make [] ((schema Cloudlet).restrict (fun p => Atoll.form.holds (.inside p))
        (body Atoll.cloudlet)) = Atoll.remains := by decide +kernel
    have hbody : body b = body Atoll.remains := by
      refine (schema Cloudlet).ext_leaves fun p => ?_
      rw [hleaf p, ← hkept, body_make, p.leaf_restrict, zero, body_make]
    exact eq_of_body hfields hbody
  rw [hremains] at hdecode
  exact ⟨hfits, honce, hfamiliar, hnesting, hdecode⟩

namespace Shoal

/-- A flavor. -/
def flavor : Flavor := ⟨[], ⟨"k"⟩, 5, 0, 0⟩

/-- Its memory behind an entry under another name. -/
def form {name : String} (foreign : name ∉ (schema Flavor).names) (spelling : Spelling name)
    (item : Item) : (Shape.record (schema Flavor)).Form :=
  .record (.counted (.short 2)) <| .extra foreign spelling item <|
    .known (.later .first) (.brief (by decide)) .leaf .nil

/-- A name of more bytes than a reader takes. -/
def long : String := String.ofList (List.replicate 4097 'x')

theorem long_length : (Text.utf8 long).length = 4097 := by
  unfold long
  rw [Text.length_utf8_ofList]
  decide +kernel

/-- A name of the schema is shorter. -/
theorem long_foreign : long ∉ (schema Flavor).names := by
  intro h
  have hshort : ∀ name ∈ (schema Flavor).names, (Text.utf8 name).length < 4097 := by decide +kernel
  have hlong := hshort long h
  rw [long_length] at hlong
  exact Nat.lt_irrefl _ hlong

/-- A form that has no field twice and nests no deeper than allowed, but from which no flavor is
decoded. -/
def Refused (form : (Shape.record (schema Flavor)).Form) : Prop :=
  form.once = true ∧ form.nesting ≤ maxNesting ∧
    (decode "Flavor/k" (form.write (body flavor)) : StoreResult Flavor) =
      .error (.corrupt "Flavor/k" (CodecError.decodingFailed CodecError.noDetail).message)

theorem refused {form : (Shape.record (schema Flavor)).Form} (honce : form.once = true)
    (hnesting : form.nesting ≤ maxNesting) (hstrange : form.familiar = false) : Refused form := by
  have hfits : Fits flavor := by decide +kernel
  refine ⟨honce, hnesting, decode_of_not_reads hfits (fun hreads => ?_) "Flavor/k"⟩
  rw [hreads.2.1] at hstrange
  cases hstrange

theorem foreign : "x" ∉ (schema Flavor).names := by decide

/-- A simple value without a meaning. -/
def unassigned : (Shape.record (schema Flavor)).Form :=
  form foreign (.brief (by decide)) (.simple 16)

/-- A text that is not made of characters. -/
def garbled : (Shape.record (schema Flavor)).Form :=
  form foreign (.brief (by decide)) (.text (.whole ⟨.short 1, [0xff], rfl⟩))

/-- A negative number too low for sixteen bytes with a sign. -/
def low : (Shape.record (schema Flavor)).Form :=
  form foreign (.brief (by decide)) (.tag (.short 3) (.bytes (.whole
    ⟨.short 16, 0x80 :: List.replicate 15 0, rfl⟩)))

/-- A name in pieces. -/
def pieced : (Shape.record (schema Flavor)).Form :=
  form foreign ⟨.pieces [⟨.short 1, [0x78], rfl⟩], by decide⟩ (.unsigned (.short 1))

/-- A long name. -/
def lengthy : (Shape.record (schema Flavor)).Form :=
  form long_foreign (.onePiece (.long 1 ⟨4097, by decide⟩) long_length) (.unsigned (.short 1))

/-- Each of these is refused, for a simple value, a text, a number or a name. -/
theorem forms_refused :
    Refused unassigned ∧ Refused garbled ∧ Refused low ∧ Refused pieced ∧ Refused lengthy :=
  ⟨refused (by decide +kernel) (by decide +kernel) (by decide +kernel),
    refused (by decide +kernel) (by decide +kernel) (by decide +kernel),
    refused (by decide +kernel) (by decide +kernel) (by decide +kernel),
    refused (by decide +kernel) (by decide +kernel) (by decide +kernel),
    refused (by decide +kernel) (by decide +kernel) (by decide +kernel)⟩

end Shoal

/-- **Not all that is well formed can be passed over**, although no field comes twice and nothing
nests too deep. -/
theorem drift_can_be_refused :
    ¬ ∀ (kind : Kind) (a : kind.Obj) (form : (Shape.record (schema kind.Obj)).Form) (key : String),
      Fits a → form.once = true → form.nesting ≤ maxNesting →
        ∃ b : kind.Obj, decode key (form.write (body a)) = .ok b ∧ fields b = [] ∧
          ∀ p : (schema kind.Obj).Place, p.leaf (body b) =
            if form.holds (.inside p) = true then p.kind.canonical (p.leaf (body a))
            else p.leaf (body (zero kind.Obj)) := by
  intro h
  obtain ⟨⟨honce, hnesting, hrefused⟩, -⟩ := Shoal.forms_refused
  have hfits : Fits Shoal.flavor := by decide +kernel
  obtain ⟨b, hdecode, -⟩ := h .flavor Shoal.flavor Shoal.unassigned "Flavor/k" hfits honce hnesting
  have hcorrupt := hrefused.symm.trans hdecode
  cases hcorrupt

end Entity

end Inventory
