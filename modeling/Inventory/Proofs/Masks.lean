import Inventory.Entity.Kind
import Inventory.Proofs.Leaves

/-!
# What a mask selects

A list of addresses, whatever they look like, names the leaves whose own address it holds and those
of which it holds something further in.

* `Fields.Place.not_isAbove_record`: where numbers tell fields apart, **no leaf is above a record**,
  so that naming a record names no leaf.
* `Fields.copyFrom_append`: two copies from one record, one after the other, are one copy.
* `Entity.copies_named_leaves`: a copy replaces exactly the leaves that are named, and counts those
  of them that differ.
* `Entity.copy_keeps_a_zero`: it does not replace one zero of the doubles by the other.
-/

namespace Inventory

/-! ## Records in records -/

mutual

/-- The addresses of the records that a shape consists of. -/
def Shape.recordPaths : Shape → FieldPath → List FieldPath
  | .leaf _, _ => []
  | .record fields, path => path :: fields.recordPaths path

/-- The addresses of the records in a record. -/
def Fields.recordPaths : Fields → FieldPath → List FieldPath
  | .nil, _ => []
  | .cons tag _ shape rest, path => shape.recordPaths (path.child tag) ++ rest.recordPaths path

end

mutual

/-- Whether numbers tell the fields of a shape apart. -/
def Shape.numbered : Shape → Bool
  | .leaf _ => true
  | .record fields => fields.numbered

/-- Whether numbers tell some fields apart, and those in them. -/
def Fields.numbered : Fields → Bool
  | .nil => true
  | .cons tag _ shape rest => !rest.tags.contains tag && shape.numbered && rest.numbered

end

/-- The entities of all kinds have numbered fields. -/
theorem Kind.numbered (kind : Kind) : (Entity.schema kind.Obj).numbered = true := by
  cases kind <;> decide +kernel

theorem Fields.numbered_cons {tag : Nat} {name : String} {shape : Shape} {rest : Fields} :
    (Fields.cons tag name shape rest).numbered = true ↔
      tag ∉ rest.tags ∧ shape.numbered = true ∧ rest.numbered = true := by
  rw [numbered, Bool.and_eq_true, Bool.and_eq_true, Bool.not_eq_true', List.contains_eq_mem,
    decide_eq_false_iff_not, and_assoc]

variable {path inner : FieldPath}

/-- What is in a field is in no other field of the record. -/
theorem Fields.not_isAbove_of_new {rest : Fields} {tag : Nat} {s : String}
    (hnew : tag ∉ rest.tags) (hown : (path.child tag).isAbove s = true) :
    ¬ ∃ tag' ∈ rest.tags, (path.child tag').isAbove s = true := by
  rintro ⟨tag', hmem, hother⟩
  rw [FieldPath.tag_of_isAbove hown hother] at hnew
  exact hnew hmem

mutual

/-- A shape is above the records it consists of. -/
theorem Shape.isAbove_record : {s : Shape} → {path : FieldPath} → path.text ≠ "" →
    inner ∈ s.recordPaths path → path.isAbove inner.text = true
  | .leaf _, _, _, h => nomatch h
  | .record fields, path, hroot, h => by
    rcases List.mem_cons.1 h with rfl | h
    · exact inner.isAbove_self
    · obtain ⟨tag, -, habove⟩ := Fields.isAbove_record h
      exact FieldPath.isAbove_trans (FieldPath.isAbove_child hroot tag) habove

/-- One of the fields of a record is above a record in it. -/
theorem Fields.isAbove_record : {fs : Fields} → {path : FieldPath} →
    inner ∈ fs.recordPaths path → ∃ tag ∈ fs.tags, (path.child tag).isAbove inner.text = true
  | .nil, _, h => nomatch h
  | .cons tag _ _ _, path, h => by
    rcases List.mem_append.1 h with h | h
    · exact ⟨tag, List.mem_cons_self, Shape.isAbove_record (path.child_text_ne tag) h⟩
    · obtain ⟨tag', hmem, habove⟩ := Fields.isAbove_record h
      exact ⟨tag', List.mem_cons_of_mem _ hmem, habove⟩

end

mutual

/-- No leaf of a shape is above a record of it. -/
theorem Shape.Place.not_isAbove_record : {s : Shape} → (p : s.Place) → s.numbered = true →
    {path : FieldPath} → inner ∈ s.recordPaths path →
      (p.path path).isAbove inner.text ≠ true
  | .leaf _, .here, _, _, h => nomatch h
  | .record _, .inside p, hs, path, h => by
    rcases List.mem_cons.1 h with rfl | h
    · -- the address of a leaf is longer than that of its record
      intro habove
      obtain ⟨tag, -, hleaf⟩ := p.isAbove_leaf inner
      have hshort := FieldPath.length_le_of_isAbove habove
      have hlong := FieldPath.length_le_of_isAbove hleaf
      have hchild := inner.length_lt_child tag
      simp only [Shape.Place.path] at hshort
      omega
    · exact p.not_isAbove_record hs h

/-- **No leaf of a record is above a record in it.** -/
theorem Fields.Place.not_isAbove_record : {fs : Fields} → (p : fs.Place) → fs.numbered = true →
    {path : FieldPath} → inner ∈ fs.recordPaths path →
      (p.path path).isAbove inner.text ≠ true
  | .cons tag _ _ _, .first p, hfs, path, h => by
    obtain ⟨hnew, hshape, -⟩ := Fields.numbered_cons.1 hfs
    rcases List.mem_append.1 h with h | h
    · exact p.not_isAbove_record hshape h
    · -- a record in another field
      intro habove
      have hown := FieldPath.isAbove_trans (p.isAbove_path (path.child_text_ne tag)) habove
      exact Fields.not_isAbove_of_new hnew hown (Fields.isAbove_record h)
  | .cons tag _ _ _, .later p, hfs, path, h => by
    obtain ⟨hnew, -, hrest⟩ := Fields.numbered_cons.1 hfs
    rcases List.mem_append.1 h with h | h
    · -- a record in the first field
      intro habove
      obtain ⟨tag', hmem, hleaf⟩ := p.isAbove_leaf path
      have hown := Shape.isAbove_record (path.child_text_ne tag) h
      exact Fields.not_isAbove_of_new hnew hown ⟨tag', hmem, FieldPath.isAbove_trans hleaf habove⟩
    · exact p.not_isAbove_record hrest h

end

/-! ## One copy after another -/

theorem Leaf.replaced_replaced (kind : Leaf) (old new : kind.Val) :
    kind.replaced (kind.replaced old new) new = kind.replaced old new := by
  unfold replaced
  by_cases h : (kind.isRealZero old && kind.isRealZero new) = true
  · rw [if_pos h, if_pos h]
  · rw [if_neg h, ite_self]

variable {names more : List String}

/-- **Two copies from one record are one copy** of what either of them names. -/
theorem Fields.copyFrom_append (fs : Fields) (dst src : fs.Val) :
    (fs.copyFrom (.ofFields more) path (fs.copyFrom (.ofFields names) path dst src).1 src).1 =
      (fs.copyFrom (.ofFields (names ++ more)) path dst src).1 := by
  refine fs.ext_leaves fun p => ?_
  have hne := p.path_text_ne path
  rw [leaf_copyFrom, leaf_copyFrom, leaf_copyFrom, FieldMap.hasPath_ofFields hne,
    FieldMap.hasPath_ofFields hne, FieldMap.hasPath_ofFields hne, FieldPath.isNamed_append]
  cases (p.path path).isNamed names with
  | false => rfl
  | true =>
    cases (p.path path).isNamed more with
    | false => rfl
    | true => exact p.kind.replaced_replaced _ _

/-- Copies from one record come to the same in either order. -/
theorem Fields.copyFrom_append_comm (fs : Fields) (dst src : fs.Val) :
    (fs.copyFrom (.ofFields (names ++ more)) path dst src).1 =
      (fs.copyFrom (.ofFields (more ++ names)) path dst src).1 := by
  refine fs.ext_leaves fun p => ?_
  have hne := p.path_text_ne path
  rw [leaf_copyFrom, leaf_copyFrom, FieldMap.hasPath_ofFields hne, FieldMap.hasPath_ofFields hne,
    FieldPath.isNamed_append, FieldPath.isNamed_append, Bool.or_comm]

/-! ## Copies of entities -/

namespace Entity

variable {α : Type} [Entity α]

/-- What a copy of the leaves that some addresses name makes of an entity. -/
structure CopiesNamed (names : List String) (dst src : α) : Prop where
  /-- A leaf that is named becomes that of the other entity, and every other one stays. -/
  leaf : ∀ p : (schema α).Place, p.leaf (body (copyFrom (.ofFields names) .root dst src).1) =
    if (p.path .root).isNamed names then p.kind.replaced (p.leaf (body dst)) (p.leaf (body src))
    else p.leaf (body dst)
  /-- The addresses of what a request wants to change stay. -/
  fields : fields (copyFrom (.ofFields names) .root dst src).1 = fields dst
  /-- The leaves that are named and differ are counted. -/
  count : ∃ changed : List (schema α).Place, changed.Nodup ∧
    (∀ p, p ∈ changed ↔ (p.path .root).isNamed names = true ∧
      p.kind.same (p.leaf (body dst)) (p.leaf (body src)) = false) ∧
    (copyFrom (.ofFields names) .root dst src).2 = changed.length
  /-- The selection of every field selects every leaf. -/
  everything : ∀ p : (schema α).Place, p.leaf (body (copyFrom (fullMask α) .root dst src).1) =
    p.kind.replaced (p.leaf (body dst)) (p.leaf (body src))
  /-- Two copies come to the same in either order, and to one copy of all that is named. -/
  twice : ∀ more : List String,
    (copyFrom (.ofFields more) .root (copyFrom (.ofFields names) .root dst src).1 src).1 =
        (copyFrom (.ofFields (names ++ more)) .root dst src).1 ∧
      (copyFrom (.ofFields names) .root (copyFrom (.ofFields more) .root dst src).1 src).1 =
        (copyFrom (.ofFields (names ++ more)) .root dst src).1
  /-- Where only records are named, nothing is copied. -/
  records : (∀ name ∈ names, ⟨name⟩ ∈ (schema α).recordPaths .root) →
    copyFrom (.ofFields names) .root dst src = (dst, 0)

/-- A leaf of a copy. -/
theorem leaf_copyFrom (names : List String) (dst src : α) (p : (schema α).Place) :
    p.leaf (body (copyFrom (.ofFields names) .root dst src).1) =
      if (p.path .root).isNamed names then p.kind.replaced (p.leaf (body dst)) (p.leaf (body src))
      else p.leaf (body dst) := by
  rw [body_copyFrom, Fields.leaf_copyFrom, FieldMap.hasPath_ofFields (p.path_text_ne .root)]

/-- The selection of every field names every leaf. -/
theorem isNamed_allFields (p : (schema α).Place) :
    (p.path .root).isNamed (allFields α) = true := by
  have hmem : p.path .root ∈ (schema α).leafPaths .root := by
    rw [← Fields.map_path_places]
    exact List.mem_map_of_mem (Fields.mem_places p)
  exact FieldPath.isNamed_iff.2 ⟨_, List.mem_map_of_mem hmem, FieldPath.isAbove_self _⟩

/-- Copies one after another. -/
theorem copyFrom_copyFrom (names more : List String) (dst src : α) :
    (copyFrom (.ofFields more) .root (copyFrom (.ofFields names) .root dst src).1 src).1 =
      (copyFrom (.ofFields (names ++ more)) .root dst src).1 := by
  have hbody : body (copyFrom (.ofFields more) .root (copyFrom (.ofFields names) .root dst src).1
      src).1 = body (copyFrom (.ofFields (names ++ more)) .root dst src).1 := by
    rw [body_copyFrom, body_copyFrom, body_copyFrom, Fields.copyFrom_append]
  exact eq_of_body (by rw [fields_copyFrom, fields_copyFrom, fields_copyFrom]) hbody

theorem copyFrom_comm (names more : List String) (dst src : α) :
    (copyFrom (.ofFields (names ++ more)) .root dst src).1 =
      (copyFrom (.ofFields (more ++ names)) .root dst src).1 :=
  eq_of_body (by rw [fields_copyFrom, fields_copyFrom]) <| by
    rw [body_copyFrom, body_copyFrom, Fields.copyFrom_append_comm]

/-- Which leaves a copy counts. -/
theorem count_copyFrom (names : List String) (dst src : α) :
    ∃ changed : List (schema α).Place, changed.Nodup ∧
      (∀ p, p ∈ changed ↔ (p.path .root).isNamed names = true ∧
        p.kind.same (p.leaf (body dst)) (p.leaf (body src)) = false) ∧
      (copyFrom (.ofFields names) .root dst src).2 = changed.length := by
  refine ⟨(schema α).places.filter (Fields.Place.changes (.ofFields names) .root (body dst)
    (body src)), (schema α).nodup_places.filter _, fun p => ?_, ?_⟩
  · rw [List.mem_filter, and_iff_right (Fields.mem_places p), Fields.Place.changes,
      Bool.and_eq_true, FieldMap.hasPath_ofFields (p.path_text_ne .root), Bool.not_eq_true']
  · rw [← List.countP_eq_length_filter]
    exact (schema α).count_copyFrom .root (body dst) (body src)

/-- Addresses that name no leaf copy nothing. -/
theorem copyFrom_of_unnamed {dst src : α}
    (h : ∀ p : (schema α).Place, (p.path .root).isNamed names ≠ true) :
    copyFrom (.ofFields names) .root dst src = (dst, 0) := by
  have hbody : body (copyFrom (.ofFields names) .root dst src).1 = body dst :=
    (schema α).ext_leaves fun p => by rw [leaf_copyFrom, if_neg (h p)]
  obtain ⟨changed, -, hmem, hcount⟩ := count_copyFrom names dst src
  have hnone : changed = [] := List.eq_nil_iff_forall_not_mem.2 fun p hp => h p ((hmem p).1 hp).1
  refine Prod.ext (eq_of_body (fields_copyFrom _ _ _ _) hbody) ?_
  rw [hcount, hnone]
  rfl

/-- **A copy replaces exactly the leaves that are named**, whatever the addresses look like: those
whose address is one of them or stands before a dot of one of them. It counts those of them that
differ. A double that is zero keeps its sign if it is to become zero. -/
theorem copies_named_leaves (kind : Kind) (dst src : kind.Obj) (names : List String) :
    CopiesNamed names dst src where
  leaf := leaf_copyFrom names dst src
  fields := fields_copyFrom _ _ dst src
  count := count_copyFrom names dst src
  everything p := by
    unfold fullMask
    rw [leaf_copyFrom, if_pos (isNamed_allFields p)]
  twice more :=
    ⟨copyFrom_copyFrom names more dst src,
      (copyFrom_copyFrom more names dst src).trans (copyFrom_comm more names dst src)⟩
  records h := by
    refine copyFrom_of_unnamed fun p hnamed => ?_
    obtain ⟨name, hname, habove⟩ := FieldPath.isNamed_iff.1 hnamed
    exact p.not_isAbove_record kind.numbered (h name hname) habove

namespace Moored

/-- A cloudlet at a place. -/
def cloudlet (uri : String) (location : Loc) : Cloudlet :=
  ⟨[], ⟨⟨"o"⟩, "c"⟩, uri, location, ""⟩

/-- The equator. -/
def equator : Cloudlet := cloudlet "a" ⟨.zero, .zero, .zero⟩

/-- A hill. -/
def hill : Cloudlet := cloudlet "b" ⟨.ofNat 1, .ofNat 2, .ofNat 3⟩

/-- Addresses of which two name a leaf. -/
def addresses : List String := ["", "5.1..x", "5", "5.", ".4", "50.2", "2.1.1.7"]

/-- Zero with a sign. -/
def belowZero : Double := .ofMagnitude true 0

end Moored

/-- A latitude is copied, the name of the operator is the same already, and naming the records
copies nothing. -/
theorem copies_named_leaves_of_a_cloudlet :
    CopiesNamed Moored.addresses Moored.equator Moored.hill ∧
      copyFrom (.ofFields Moored.addresses) .root Moored.equator Moored.hill =
        (Moored.cloudlet "a" ⟨.ofNat 1, .zero, .zero⟩, 1) ∧
      copyFrom (.ofFields ["2", "2.1", "5"]) .root Moored.equator Moored.hill =
        (Moored.equator, 0) := by
  refine ⟨copies_named_leaves .cloudlet _ _ _, by decide +kernel, ?_⟩
  refine (copies_named_leaves .cloudlet Moored.equator Moored.hill ["2", "2.1", "5"]).records ?_
  decide +kernel

/-- **A copy keeps a zero**: literally, a leaf that is named need not become that of the other
entity. -/
theorem copy_keeps_a_zero :
    ¬ ∀ (dst src : Cloudlet) (names : List String) (p : (schema Cloudlet).Place),
      (p.path .root).isNamed names = true →
        p.leaf (body (copyFrom (.ofFields names) .root dst src).1) = p.leaf (body src) := by
  intro h
  have haltitude := h (Moored.cloudlet "" ⟨.zero, .zero, Moored.belowZero⟩)
    (Moored.cloudlet "" ⟨.zero, .zero, .zero⟩) ["5.3"]
    (.later (.later (.first (.inside (.later (.later (.first .here))))))) (by decide +kernel)
  have hkept : (copyFrom (.ofFields ["5.3"]) .root
      (Moored.cloudlet "" ⟨.zero, .zero, Moored.belowZero⟩)
      (Moored.cloudlet "" ⟨.zero, .zero, .zero⟩)).1 =
        Moored.cloudlet "" ⟨.zero, .zero, Moored.belowZero⟩ := by decide +kernel
  rw [hkept] at haltitude
  have hne : Moored.belowZero ≠ Double.zero := by decide +kernel
  exact hne haltitude

end Entity

end Inventory
