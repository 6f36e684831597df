import Inventory.Proofs.Cbor.Item
import Inventory.Proofs.Cbor.Record
import Inventory.Proofs.Leaves

/-!
# Records in other forms

A writer with another schema leaves some fields out, puts those that are left in another order and
has entries of its own between them. `Shape.Form` is the type of all the maps that come about so,
with a count or with a stop, and down to the records inside records.

* `Shape.Form.write`: the bytes of a value in a form.
* `Shape.Form.holds`: the leaves that a form stores.
* `Shape.Form.Reads`: no field comes twice, and nothing but what can be passed over comes under
  other names.
* `Fields.Entries.complete_fill`: what is read are the leaves that are stored.
* `Shape.Form.read_write`: **a record is read from any form that can be read, with the leaves that
  the form stores, and from no other**.
-/

namespace Inventory

/-! ## Fields -/

/-- One of some fields. -/
inductive Fields.Field : Fields → Type where
  | first {tag : Nat} {name : String} {shape : Shape} {rest : Fields} :
    Fields.Field (.cons tag name shape rest)
  | later {tag : Nat} {name : String} {shape : Shape} {rest : Fields} (f : Fields.Field rest) :
    Fields.Field (.cons tag name shape rest)
  deriving DecidableEq

namespace Fields.Field

/-- The name of a field. -/
def name : {fs : Fields} → fs.Field → String
  | .cons _ name _ _, .first => name
  | .cons _ _ _ _, .later f => f.name

/-- What a field holds. -/
@[reducible] def shape : {fs : Fields} → fs.Field → Shape
  | .cons _ _ shape _, .first => shape
  | .cons _ _ _ _, .later f => f.shape

/-- The value of a field. -/
def of : {fs : Fields} → (f : fs.Field) → fs.Val → f.shape.Val
  | .cons _ _ _ _, .first, v => v.1
  | .cons _ _ _ _, .later f, v => f.of v.2

/-- The value of a field, if it has been read. -/
def read? : {fs : Fields} → (f : fs.Field) → fs.Partial → Option f.shape.Val
  | .cons _ _ _ _, .first, p => p.1
  | .cons _ _ _ _, .later f, p => f.read? p.2

/-- The values read so far with one more. -/
def put : {fs : Fields} → (f : fs.Field) → f.shape.Val → fs.Partial → fs.Partial
  | .cons _ _ _ _, .first, v, p => (some v, p.2)
  | .cons _ _ _ _, .later f, v, p => (p.1, f.put v p.2)

/-- A leaf of a field. -/
def place : {fs : Fields} → (f : fs.Field) → f.shape.Place → fs.Place
  | .cons _ _ _ _, .first, p => .first p
  | .cons _ _ _ _, .later f, p => .later (f.place p)

/-- The leaf as one of a field, if it is. -/
def inside? : {fs : Fields} → (f : fs.Field) → fs.Place → Option f.shape.Place
  | .cons _ _ _ _, .first, .first p => some p
  | .cons _ _ _ _, .first, .later _ => none
  | .cons _ _ _ _, .later _, .first _ => none
  | .cons _ _ _ _, .later f, .later p => f.inside? p

theorem read?_put_self : {fs : Fields} → (f : fs.Field) → (v : f.shape.Val) → (p : fs.Partial) →
    f.read? (f.put v p) = some v
  | .cons _ _ _ _, .first, _, _ => rfl
  | .cons _ _ _ _, .later f, v, p => f.read?_put_self v p.2

theorem read?_put_of_ne : {fs : Fields} → (f g : fs.Field) → f ≠ g → (v : g.shape.Val) →
    (p : fs.Partial) → f.read? (g.put v p) = f.read? p
  | .cons _ _ _ _, .first, .first, h, _, _ => absurd rfl h
  | .cons _ _ _ _, .first, .later _, _, _, _ => rfl
  | .cons _ _ _ _, .later _, .first, _, _, _ => rfl
  | .cons _ _ _ _, .later f, .later g, h, v, p =>
    f.read?_put_of_ne g (fun heq => h (congrArg _ heq)) v p.2

theorem read?_blank : {fs : Fields} → (f : fs.Field) → f.read? fs.blank = none
  | .cons _ _ _ _, .first => rfl
  | .cons _ _ _ _, .later f => f.read?_blank

/-- A field that was not read gets its zero value. -/
theorem of_complete : {fs : Fields} → (f : fs.Field) → (p : fs.Partial) →
    f.of (fs.complete p) = (f.read? p).getD f.shape.zero
  | .cons _ _ _ _, .first, _ => rfl
  | .cons _ _ _ _, .later f, p => f.of_complete p.2

theorem inside?_place_self : {fs : Fields} → (f : fs.Field) → (p : f.shape.Place) →
    f.inside? (f.place p) = some p
  | .cons _ _ _ _, .first, _ => rfl
  | .cons _ _ _ _, .later f, p => f.inside?_place_self p

theorem inside?_place_of_ne : {fs : Fields} → (f g : fs.Field) → f ≠ g → (p : g.shape.Place) →
    f.inside? (g.place p) = none
  | .cons _ _ _ _, .first, .first, h, _ => absurd rfl h
  | .cons _ _ _ _, .first, .later _, _, _ => rfl
  | .cons _ _ _ _, .later _, .first, _, _ => rfl
  | .cons _ _ _ _, .later f, .later g, h, p =>
    f.inside?_place_of_ne g (fun heq => h (congrArg _ heq)) p

theorem name_mem : {fs : Fields} → (f : fs.Field) → f.name ∈ fs.names
  | .cons _ _ _ _, .first => List.mem_cons_self
  | .cons _ _ _ _, .later f => List.mem_cons_of_mem _ f.name_mem

theorem fits_of : {fs : Fields} → (f : fs.Field) → {v : fs.Val} → fs.Fits v → f.shape.Fits (f.of v)
  | .cons _ _ _ _, .first, _, h => h.1
  | .cons _ _ _ _, .later f, _, h => f.fits_of h.2

end Fields.Field

/-- The values of some fields are those of each field. -/
theorem Fields.ext_of : (fs : Fields) → {v w : fs.Val} → (∀ f : fs.Field, f.of v = f.of w) → v = w
  | .nil, _, _, _ => rfl
  | .cons _ _ _ rest, _, _, h =>
    Prod.ext (h .first) (rest.ext_of fun f => h (.later f))

namespace Fields.Field

open Cbor

/-- A field is read no deeper than its record. -/
theorem readable_of : {fs : Fields} → (f : fs.Field) → {budget : Nat} → fs.readable budget = true →
    f.shape.readable budget = true
  | .cons _ _ _ _, .first, _, h => by
    simp only [Fields.readable, Bool.and_eq_true] at h
    exact h.1.2
  | .cons _ _ _ _, .later f, _, h => by
    simp only [Fields.readable, Bool.and_eq_true] at h
    exact f.readable_of h.2

/-- The value of an entry under the name of a field is read into the field, unless the field has
been read. -/
theorem readField_name : {fs : Fields} → (f : fs.Field) → {budget : Nat} →
    fs.readable budget = true → (p : fs.Partial) → (bs : Bytes) →
    fs.readField budget (Text.utf8 f.name) p bs =
      if f.read? p = none then (f.shape.read budget bs).map fun (v, bs) => (f.put v p, bs) else none
  | .cons _ known shape rest, .first, budget, _, p, bs => by
    obtain ⟨first, later⟩ := p
    show (Fields.cons _ known shape rest).readField budget (Text.utf8 known) (first, later) bs = _
    rw [Fields.readField, if_pos rfl]
    cases first with
    | some v => rfl
    | none => rfl
  | .cons tag known shape rest, .later f, budget, h, p, bs => by
    simp only [Fields.readable, Bool.and_eq_true, Bool.not_eq_true', List.contains_eq_mem,
      decide_eq_false_iff_not] at h
    have hne : Text.utf8 f.name ≠ Text.utf8 known := by
      intro heq
      exact h.1.1.2 (Text.utf8_injective heq ▸ f.name_mem)
    show (Fields.cons tag known shape rest).readField budget (Text.utf8 f.name) p bs =
      if f.read? p.2 = none then
        (f.shape.read budget bs).map fun (v, bs) => ((p.1, f.put v p.2), bs)
      else none
    rw [Fields.readField, if_neg hne, f.readField_name h.2 p.2 bs]
    split
    · exact Option.map_map _ _ _
    · rfl

end Fields.Field

/-- The value of an entry under another name is passed over. -/
theorem Fields.readField_of_foreign : (fs : Fields) → (budget : Nat) → {name : String} →
    name ∉ fs.names → (p : fs.Partial) → (bs : Bytes) →
    fs.readField budget (Text.utf8 name) p bs = (Cbor.skip budget bs).map fun rest => (p, rest)
  | .nil, _, _, _, _, _ => rfl
  | .cons _ known _ rest, budget, name, h, p, bs => by
    rw [Fields.names, List.mem_cons, not_or] at h
    have hne : Text.utf8 name ≠ Text.utf8 known := fun heq => h.1 (Text.utf8_injective heq)
    refine (if_neg hne).trans ?_
    rw [rest.readField_of_foreign budget h.2 p.2 bs, Option.map_map]
    rfl

/-! ## Names -/

/-- A text as it spells a name. -/
structure Cbor.Spelling (name : String) where
  text : Cbor.Str
  content_eq : text.contents.flatten = Text.utf8 name

namespace Cbor.Spelling

variable {name : String}

/-- A name in one piece. -/
def onePiece (size : Numeral) (h : (Text.utf8 name).length = size.value) : Spelling name :=
  ⟨.whole ⟨size, Text.utf8 name, h⟩, List.append_nil _⟩

/-- A name of few bytes in one piece. -/
def brief (h : (Text.utf8 name).length < 24) : Spelling name := onePiece (.short ⟨_, h⟩) rfl

/-- The bytes of a name. -/
def write (s : Spelling name) : Bytes := s.text.write 3

/-- Whether a name stands in one piece that is not too long. -/
def plain (s : Spelling name) : Bool :=
  match s.text with
  | .whole p => decide (p.size.value ≤ maxName)
  | .pieces _ => false

theorem untagged_write (s : Spelling name) (rest : Bytes) :
    untagged (s.write ++ rest) = some (.text s.text.length, s.text.tail 3 ++ rest) :=
  untagged_of_read ((Item.text s.text).read_head rest) fun _ h => nomatch h

/-- **A name is read if it is plain.** -/
theorem readName_write (s : Spelling name) (rest : Bytes) :
    readName (s.write ++ rest) =
      if s.plain = true then some (Text.utf8 name, rest) else none := by
  unfold readName
  rw [s.untagged_write]
  obtain ⟨text, hcontent⟩ := s
  cases text with
  | pieces ps => rfl
  | whole p =>
    have hcontent : p.content = Text.utf8 name := by simpa [Str.contents] using hcontent
    simp only [Str.length, Str.length?, Str.tail, Option.map_some, takeName,
      takeExact_append p.length_eq, plain, decide_eq_true_eq]
    by_cases hsize : p.size.value ≤ maxName
    · rw [if_pos hsize, if_pos hsize]
      simp only [hcontent, Text.ofUtf8?_utf8, Option.map_some]
    · rw [if_neg hsize, if_neg hsize]

theorem write_length_pos (s : Spelling name) : 0 < s.write.length :=
  (Item.text s.text).write_length_pos

end Cbor.Spelling

/-! ## Forms -/

open Cbor

mutual

/-- A form that the values of a shape can be stored in. Some leaves are stored as they are written,
the others are not stored. -/
inductive Shape.Form : Shape → Type where
  | leaf {kind : Leaf} : Shape.Form (.leaf kind)
  | record {fields : Fields} {count : Nat} (extent : Extent count)
      (entries : Fields.Entries fields count) : Shape.Form (.record fields)

/-- The entries of a map: fields in a form for what they hold, and items under names of no field. -/
inductive Fields.Entries : Fields → Nat → Type where
  | nil {fields : Fields} : Fields.Entries fields 0
  | known {fields : Fields} {count : Nat} (f : fields.Field) (name : Spelling f.name)
      (value : Shape.Form f.shape) (rest : Fields.Entries fields count) :
      Fields.Entries fields (count + 1)
  | extra {fields : Fields} {count : Nat} {name : String} (foreign : name ∉ fields.names)
      (spelling : Spelling name) (value : Item) (rest : Fields.Entries fields count) :
      Fields.Entries fields (count + 1)

end

mutual

/-- The bytes of a value in a form. -/
def Shape.Form.write : {s : Shape} → s.Form → s.Val → Bytes
  | .leaf kind, .leaf, v => kind.write v
  | .record _, .record extent entries, v =>
    writeLength 5 extent.length? ++ (entries.write v ++ extent.close)

/-- The bytes of the entries. -/
def Fields.Entries.write : {fs : Fields} → {count : Nat} → fs.Entries count → fs.Val → Bytes
  | _, _, .nil, _ => []
  | _, _, .known f name value rest, v => name.write ++ (value.write (f.of v) ++ rest.write v)
  | _, _, .extra _ spelling value rest, v => spelling.write ++ (value.write ++ rest.write v)

end

/-- How many levels the values of a leaf nest. -/
def Leaf.nesting : Leaf → Nat
  | texts => 1
  | text | word32 | word64 | int64 | real | choice _ => 0

mutual

/-- How many levels a form nests. -/
def Shape.Form.nesting : {s : Shape} → s.Form → Nat
  | .leaf kind, .leaf => kind.nesting
  | .record _, .record _ entries => entries.nesting + 1

/-- How many levels the values of entries nest. -/
def Fields.Entries.nesting : {fs : Fields} → {count : Nat} → fs.Entries count → Nat
  | _, _, .nil => 0
  | _, _, .known _ _ value rest => max value.nesting rest.nesting
  | _, _, .extra _ _ value rest => max value.nesting rest.nesting

end

mutual

/-- Whether all names are plain and all items familiar. -/
def Shape.Form.familiar : {s : Shape} → s.Form → Bool
  | .leaf _, .leaf => true
  | .record _, .record _ entries => entries.familiar

/-- Whether all names of entries are plain and all items in them familiar. -/
def Fields.Entries.familiar : {fs : Fields} → {count : Nat} → fs.Entries count → Bool
  | _, _, .nil => true
  | _, _, .known _ name value rest => name.plain && value.familiar && rest.familiar
  | _, _, .extra _ spelling value rest => spelling.plain && value.familiar && rest.familiar

end

/-- The fields that entries are for. -/
def Fields.Entries.fields : {fs : Fields} → {count : Nat} → fs.Entries count → List fs.Field
  | _, _, .nil => []
  | _, _, .known f _ _ rest => f :: rest.fields
  | _, _, .extra _ _ _ rest => rest.fields

mutual

/-- Whether no map has two entries for one field. -/
def Shape.Form.once : {s : Shape} → s.Form → Bool
  | .leaf _, .leaf => true
  | .record _, .record _ entries => decide entries.fields.Nodup && entries.once

/-- Whether no map in entries has two entries for one field. -/
def Fields.Entries.once : {fs : Fields} → {count : Nat} → fs.Entries count → Bool
  | _, _, .nil => true
  | _, _, .known _ _ value rest => value.once && rest.once
  | _, _, .extra _ _ _ rest => rest.once

end

mutual

/-- Whether a form stores a leaf. -/
def Shape.Form.holds : {s : Shape} → s.Form → s.Place → Bool
  | .leaf _, .leaf, _ => true
  | .record _, .record _ entries, .inside p => entries.holds p

/-- Whether entries store a leaf. -/
def Fields.Entries.holds : {fs : Fields} → {count : Nat} → fs.Entries count → fs.Place → Bool
  | _, _, .nil, _ => false
  | _, _, .known f _ value rest, p =>
    (match f.inside? p with
      | some q => value.holds q
      | none => false) || rest.holds p
  | _, _, .extra _ _ _ rest, p => rest.holds p

end

/-! ## What is read -/

mutual

/-- A value as it comes back with some of its leaves, and zero values for the others. -/
def Shape.restrict : (s : Shape) → (keep : s.Place → Bool) → s.Val → s.Val
  | .leaf kind, keep, v => if keep .here then kind.canonical v else kind.zero
  | .record fields, keep, v => fields.restrict (fun p => keep (.inside p)) v

/-- Values as they come back with some of their leaves. -/
def Fields.restrict : (fs : Fields) → (keep : fs.Place → Bool) → fs.Val → fs.Val
  | .nil, _, _ => ()
  | .cons _ _ shape rest, keep, v =>
    (shape.restrict (fun p => keep (.first p)) v.1, rest.restrict (fun p => keep (.later p)) v.2)

end

mutual

theorem Shape.Place.leaf_restrict : {s : Shape} → (p : s.Place) → (keep : s.Place → Bool) →
    (v : s.Val) → p.leaf (s.restrict keep v) =
      if keep p = true then p.kind.canonical (p.leaf v) else p.leaf s.zero
  | .leaf _, .here, _, _ => rfl
  | .record _, .inside p, keep, v => p.leaf_restrict (fun p => keep (.inside p)) v

theorem Fields.Place.leaf_restrict : {fs : Fields} → (p : fs.Place) → (keep : fs.Place → Bool) →
    (v : fs.Val) → p.leaf (fs.restrict keep v) =
      if keep p = true then p.kind.canonical (p.leaf v) else p.leaf fs.zero
  | .cons _ _ _ _, .first p, keep, v => p.leaf_restrict (fun p => keep (.first p)) v.1
  | .cons _ _ _ _, .later p, keep, v => p.leaf_restrict (fun p => keep (.later p)) v.2

end

mutual

/-- Where nothing is kept, zero values are left. -/
theorem Shape.restrict_nothing : (s : Shape) → (v : s.Val) → s.restrict (fun _ => false) v = s.zero
  | .leaf _, _ => rfl
  | .record fields, v => fields.restrict_nothing v

theorem Fields.restrict_nothing : (fs : Fields) → (v : fs.Val) →
    fs.restrict (fun _ => false) v = fs.zero
  | .nil, _ => rfl
  | .cons _ _ shape rest, v =>
    Prod.ext (shape.restrict_nothing v.1) (rest.restrict_nothing v.2)

end

namespace Fields.Field

theorem of_restrict : {fs : Fields} → (f : fs.Field) → (keep : fs.Place → Bool) → (v : fs.Val) →
    f.of (fs.restrict keep v) = f.shape.restrict (fun p => keep (f.place p)) (f.of v)
  | .cons _ _ _ _, .first, _, _ => rfl
  | .cons _ _ _ _, .later f, keep, v => f.of_restrict (fun p => keep (.later p)) v.2

end Fields.Field

namespace Fields.Entries

/-- What has been read behind the entries. -/
def fill : {fs : Fields} → {count : Nat} → fs.Entries count → fs.Val → fs.Partial → fs.Partial
  | _, _, .nil, _, p => p
  | _, _, .known f _ value rest, v, p =>
    rest.fill v (f.put (f.shape.restrict value.holds (f.of v)) p)
  | _, _, .extra _ _ _ rest, v, p => rest.fill v p

/-- A field without an entry stays as it is. -/
theorem read?_fill_of_notMem : {fs : Fields} → {count : Nat} → (entries : fs.Entries count) →
    {f : fs.Field} → f ∉ entries.fields → (v : fs.Val) → (p : fs.Partial) →
    f.read? (entries.fill v p) = f.read? p
  | _, _, .nil, _, _, _, _ => rfl
  | _, _, .known g _ value rest, f, h, v, p => by
    rw [fields, List.mem_cons, not_or] at h
    exact (rest.read?_fill_of_notMem h.2 v _).trans (f.read?_put_of_ne g h.1 _ p)
  | _, _, .extra _ _ _ rest, _, h, v, p => rest.read?_fill_of_notMem h v p

/-- Of a field without an entry no leaf is stored. -/
theorem holds_of_notMem : {fs : Fields} → {count : Nat} → (entries : fs.Entries count) →
    {f : fs.Field} → f ∉ entries.fields → (p : f.shape.Place) → entries.holds (f.place p) = false
  | _, _, .nil, _, _, _ => rfl
  | _, _, .known g _ value rest, f, h, p => by
    rw [fields, List.mem_cons, not_or] at h
    rw [holds, g.inside?_place_of_ne f (Ne.symm h.1), rest.holds_of_notMem h.2 p]
    rfl
  | _, _, .extra _ _ _ rest, _, h, p => rest.holds_of_notMem h p

/-- A field with one entry gets the leaves that are stored. -/
theorem read?_fill_of_mem : {fs : Fields} → {count : Nat} → (entries : fs.Entries count) →
    entries.fields.Nodup → {f : fs.Field} → f ∈ entries.fields → (v : fs.Val) → (p : fs.Partial) →
    f.read? (entries.fill v p) =
      some (f.shape.restrict (fun q => entries.holds (f.place q)) (f.of v))
  | _, _, .nil, _, _, h, _, _ => nomatch h
  | _, _, .known g name value rest, hnodup, f, h, v, p => by
    obtain ⟨hother, hnodup⟩ := List.nodup_cons.1 hnodup
    rcases List.mem_cons.1 h with rfl | h
    · -- no later entry is for this field, so that what this one stores stays
      have hholds : (fun q => (known f name value rest).holds (f.place q)) = value.holds := by
        funext q
        rw [holds, f.inside?_place_self, rest.holds_of_notMem hother q, Bool.or_false]
      rw [hholds]
      exact (rest.read?_fill_of_notMem hother v _).trans (f.read?_put_self _ p)
    · have hne : g ≠ f := fun heq => hother (heq ▸ h)
      have hholds : (fun q => (known g name value rest).holds (f.place q)) =
          fun q => rest.holds (f.place q) := by
        funext q
        rw [holds, g.inside?_place_of_ne f hne, Bool.false_or]
      rw [hholds]
      exact rest.read?_fill_of_mem hnodup h v _
  | _, _, .extra _ _ _ rest, hnodup, _, h, v, p => rest.read?_fill_of_mem hnodup h v p

/-- **What is read are the leaves that are stored**, with zero values for the others. -/
theorem complete_fill {fs : Fields} {count : Nat} (entries : fs.Entries count)
    (hnodup : entries.fields.Nodup) (v : fs.Val) :
    fs.complete (entries.fill v fs.blank) = fs.restrict entries.holds v := by
  refine fs.ext_of fun f => ?_
  rw [f.of_complete, f.of_restrict]
  by_cases h : f ∈ entries.fields
  · rw [entries.read?_fill_of_mem hnodup h]
    rfl
  · have hholds : (fun q => entries.holds (f.place q)) = fun _ => false :=
      funext (entries.holds_of_notMem h)
    rw [entries.read?_fill_of_notMem h, f.read?_blank, hholds, f.shape.restrict_nothing]
    rfl

end Fields.Entries

/-! ## Reading -/

/-- What can be read within a budget of levels: no field comes twice in a map, all names are plain,
all items familiar, and the form nests no deeper. -/
def Shape.Form.Reads {s : Shape} (form : s.Form) (budget : Nat) : Prop :=
  form.once = true ∧ form.familiar = true ∧ form.nesting ≤ budget

instance {s : Shape} (form : s.Form) (budget : Nat) : Decidable (form.Reads budget) :=
  inferInstanceAs (Decidable (form.once = true ∧ form.familiar = true ∧ form.nesting ≤ budget))

namespace Fields.Entries

variable {fs : Fields} {count : Nat}

/-- Entries that can be read within a budget of levels, but for fields that come twice. -/
def Reads (entries : fs.Entries count) (budget : Nat) : Prop :=
  entries.once = true ∧ entries.familiar = true ∧ entries.nesting ≤ budget

instance (entries : fs.Entries count) (budget : Nat) : Decidable (entries.Reads budget) :=
  inferInstanceAs (Decidable
    (entries.once = true ∧ entries.familiar = true ∧ entries.nesting ≤ budget))

/-- Entries for fields that have not been read, and no two for one. -/
def Fresh (entries : fs.Entries count) (p : fs.Partial) : Prop :=
  entries.fields.Nodup ∧ ∀ f ∈ entries.fields, f.read? p = none

instance (entries : fs.Entries count) (p : fs.Partial) : Decidable (entries.Fresh p) :=
  inferInstanceAs (Decidable (entries.fields.Nodup ∧ ∀ f ∈ entries.fields, f.read? p = none))

theorem fresh_blank (entries : fs.Entries count) :
    entries.Fresh fs.blank ↔ entries.fields.Nodup :=
  ⟨fun h => h.1, fun h => ⟨h, fun f _ => f.read?_blank⟩⟩

/-- Of fresh entries the first is for a field that has not been read, and the others stay fresh when
it has been. -/
theorem fresh_known (f : fs.Field) (name : Cbor.Spelling f.name) (value : f.shape.Form)
    (rest : fs.Entries count) (p : fs.Partial) (v : f.shape.Val) :
    (known f name value rest).Fresh p ↔ f.read? p = none ∧ rest.Fresh (f.put v p) := by
  constructor
  · rintro ⟨hnodup, hnone⟩
    obtain ⟨hother, hnodup⟩ := List.nodup_cons.1 hnodup
    refine ⟨hnone f List.mem_cons_self, hnodup, fun g hg => ?_⟩
    have hne : g ≠ f := fun heq => hother (heq ▸ hg)
    rw [g.read?_put_of_ne f hne]
    exact hnone g (List.mem_cons_of_mem _ hg)
  · rintro ⟨hnone, hnodup, hlater⟩
    have hother : f ∉ rest.fields := by
      intro h
      have hread := hlater f h
      rw [f.read?_put_self] at hread
      cases hread
    refine ⟨List.nodup_cons.2 ⟨hother, hnodup⟩, fun g hg => ?_⟩
    rcases List.mem_cons.1 hg with rfl | hg
    · exact hnone
    · have hne : g ≠ f := fun heq => hother (heq ▸ hg)
      have hread := hlater g hg
      rwa [g.read?_put_of_ne f hne] at hread

/-- An entry under another name is for no field. -/
theorem fresh_extra {name : String} (foreign : name ∉ fs.names) (spelling : Cbor.Spelling name)
    (value : Item) (rest : fs.Entries count) (p : fs.Partial) :
    (extra foreign spelling value rest).Fresh p ↔ rest.Fresh p := Iff.rfl

theorem reads_known {budget : Nat} (f : fs.Field) (name : Cbor.Spelling f.name)
    (value : f.shape.Form) (rest : fs.Entries count) :
    (known f name value rest).Reads budget ↔
      (name.plain = true ∧ value.Reads budget) ∧ rest.Reads budget := by
  simp only [Reads, Shape.Form.Reads, once, familiar, nesting, Bool.and_eq_true, Nat.max_le]
  tauto

theorem reads_extra {budget : Nat} {name : String} (foreign : name ∉ fs.names)
    (spelling : Cbor.Spelling name) (value : Item) (rest : fs.Entries count) :
    (extra foreign spelling value rest).Reads budget ↔
      (spelling.plain = true ∧ value.familiar = true ∧ value.nesting ≤ budget) ∧
        rest.Reads budget := by
  simp only [Reads, once, familiar, nesting, Bool.and_eq_true, Nat.max_le]
  tauto

end Fields.Entries

theorem Shape.Form.reads_record {fields : Fields} {count budget : Nat} (extent : Extent count)
    (entries : fields.Entries count) :
    (Shape.Form.record extent entries).Reads (budget + 1) ↔
      entries.Fresh fields.blank ∧ entries.Reads budget := by
  rw [entries.fresh_blank]
  simp only [Reads, Fields.Entries.Reads, once, familiar, nesting, Bool.and_eq_true,
    decide_eq_true_eq, Nat.add_le_add_iff_right, and_assoc]

/-- An entry is read if its name is plain. -/
theorem Cbor.readEntry_write {σ : Type} {field : Bytes → σ → Bytes → Option (σ × Bytes)}
    {name : String} (s : Spelling name) (st : σ) (rest : Bytes) :
    readEntry field st (s.write ++ rest) =
      if s.plain = true then field (Text.utf8 name) st rest else none := by
  unfold readEntry
  rw [s.readName_write]
  by_cases h : s.plain = true
  · rw [if_pos h, if_pos h]
  · rw [if_neg h, if_neg h]

/-- An entry for a field is read if the field has not been. -/
theorem Fields.Field.readEntry_write {fs : Fields} (f : fs.Field) {budget : Nat}
    (hread : fs.readable budget = true) (name : Spelling f.name) (p : fs.Partial)
    {bs rest : Bytes} {w : f.shape.Val} {c : Prop} [Decidable c]
    (hvalue : f.shape.read budget bs = if c then some (w, rest) else none) :
    readEntry (fs.readField budget) p (name.write ++ bs) =
      if name.plain = true ∧ f.read? p = none ∧ c then some (f.put w p, rest) else none := by
  rw [Cbor.readEntry_write, f.readField_name hread, hvalue, ite_and, ite_and]
  by_cases hc : c
  · rw [if_pos hc, if_pos hc]
    rfl
  · rw [if_neg hc, if_neg hc]
    rfl

/-- An entry under another name leaves the fields as they are. -/
theorem Fields.readEntry_extra {fs : Fields} (budget : Nat) {name : String}
    (foreign : name ∉ fs.names) (spelling : Spelling name) (value : Item) (p : fs.Partial) (rest : Bytes) :
    readEntry (fs.readField budget) p (spelling.write ++ (value.write ++ rest)) =
      if spelling.plain = true ∧ value.familiar = true ∧ value.nesting ≤ budget then some (p, rest)
      else none := by
  rw [Cbor.readEntry_write, fs.readField_of_foreign budget foreign, value.skip_write,
    ite_and (spelling.plain = true)]
  by_cases hc : value.familiar = true ∧ value.nesting ≤ budget
  · rw [if_pos hc, if_pos hc]
    rfl
  · rw [if_neg hc, if_neg hc]
    rfl

/-- Where a name stands, no stop does. -/
theorem Cbor.Spelling.read_ne_stop {name : String} (s : Spelling name) (bs rest : Bytes) :
    Head.read (s.write ++ bs) ≠ some (.stop, rest) := by
  rw [show s.write = (Item.text s.text).write from rfl, Item.read_head]
  exact fun h => nomatch (Prod.mk.inj (Option.some.inj h)).1

mutual

/-- **A record is read from any form that can be read, with the leaves that the form stores**, and
from no other. -/
theorem Shape.Form.read_write : {s : Shape} → (form : s.Form) → (v : s.Val) → {budget : Nat} →
    s.readable budget = true → s.Fits v → (rest : Bytes) →
    s.read budget (form.write v ++ rest) =
      if form.Reads budget then some (s.restrict form.holds v, rest) else none
  | .leaf kind, .leaf, v, budget, hread, hfits, rest => by
    have hbudget : budget ≠ 0 := by simpa [Shape.readable] using hread
    -- a list takes the one level that is left at least
    have hnesting : kind.nesting ≤ budget := by
      cases kind <;> simp only [Leaf.nesting] <;> omega
    rw [if_pos ⟨rfl, rfl, hnesting⟩]
    exact kind.read_write hfits hbudget rest
  | .record _, _, _, 0, hread, _, _ => by simp [Shape.readable] at hread
  | .record fields, .record extent entries, v, budget + 1, hread, hfits, rest => by
    simp only [Shape.readable, Bool.and_eq_true] at hread
    have hhead := untagged_of_read (read_writeLength extent.length? (by omega : 5 < 8)
      (fun _ => rfl) (entries.write v ++ (extent.close ++ rest))) fun _ h => nomatch h
    have hentries := entries.read_write v hread.2 hfits extent _ fields.blank rest (Nat.le_refl _)
    simp only [Shape.Form.write, List.append_assoc, Shape.read, hhead]
    rw [show extent.length?.map Numeral.value = extent.length from rfl, forEntries_eq_follow,
      hentries]
    by_cases h : entries.Fresh fields.blank ∧ entries.Reads budget
    · rw [if_pos h, if_pos ((Shape.Form.reads_record extent entries).2 h)]
      simp only [Option.map_some, entries.complete_fill h.1.1]
      rfl
    · rw [if_neg h, if_neg fun hreads => h ((Shape.Form.reads_record extent entries).1 hreads)]
      rfl

/-- Entries are read one after another, if they are fresh. -/
theorem Fields.Entries.read_write : {fs : Fields} → {left : Nat} → (entries : fs.Entries left) →
    (v : fs.Val) → {budget : Nat} → fs.readable budget = true → fs.Fits v → {count : Nat} →
    (extent : Extent count) → (fuel : Nat) → (p : fs.Partial) → (rest : Bytes) →
    (entries.write v ++ (extent.close ++ rest)).length ≤ fuel →
    follow extent (readEntry (fs.readField budget)) left fuel p
        (entries.write v ++ (extent.close ++ rest)) =
      if entries.Fresh p ∧ entries.Reads budget then some (entries.fill v p, rest) else none
  | _, _, .nil, v, _, _, _, _, extent, fuel, p, rest, hfuel => by
    refine (follow_close extent hfuel).trans (if_pos ⟨⟨List.nodup_nil, ?_⟩, rfl, rfl, ?_⟩).symm
    · exact fun f hf => nomatch hf
    · exact Nat.zero_le _
  | _, _, .known f name value entries, v, budget, hread, hfits, _, extent, fuel, p, rest,
    hfuel => by
    have hpos := name.write_length_pos
    simp only [Fields.Entries.write, List.append_assoc, List.length_append] at hfuel
    obtain ⟨fuel, rfl⟩ : ∃ n, fuel = n + 1 := ⟨fuel - 1, by omega⟩
    let w := f.shape.restrict value.holds (f.of v)
    have hlater := entries.read_write v hread hfits extent fuel (f.put w p) rest
      (by simp only [List.length_append]; omega)
    have hentry := f.readEntry_write hread name p (value.read_write (f.of v) (f.readable_of hread)
      (f.fits_of hfits) (entries.write v ++ (extent.close ++ rest)))
    simp only [Fields.Entries.write, List.append_assoc]
    rw [follow_entry extent (name.read_ne_stop _), hentry]
    -- the entry is read if its field has not been, and then its field counts as read
    refine (ite_bind_ite hlater).trans (if_congr ?_ rfl rfl)
    rw [Fields.Entries.fresh_known f name value entries p w, Fields.Entries.reads_known]
    tauto
  | _, _, .extra foreign spelling value entries, v, budget, hread, hfits, _, extent, fuel, p, rest,
    hfuel => by
    have hpos := spelling.write_length_pos
    simp only [Fields.Entries.write, List.append_assoc, List.length_append] at hfuel
    obtain ⟨fuel, rfl⟩ : ∃ n, fuel = n + 1 := ⟨fuel - 1, by omega⟩
    have hlater := entries.read_write v hread hfits extent fuel p rest
      (by simp only [List.length_append]; omega)
    have hentry := Fields.readEntry_extra budget foreign spelling value p
      (entries.write v ++ (extent.close ++ rest))
    simp only [Fields.Entries.write, List.append_assoc]
    rw [follow_entry extent (spelling.read_ne_stop _), hentry]
    refine (ite_bind_ite hlater).trans (if_congr ?_ rfl rfl)
    rw [Fields.Entries.fresh_extra, Fields.Entries.reads_extra]
    tauto

end

end Inventory
