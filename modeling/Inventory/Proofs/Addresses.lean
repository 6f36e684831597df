import Inventory.Proofs.Contents
import Inventory.Schema.Mask

/-!
# Addresses of fields

An address names a field if it is the field's own or that of something in it. A selection is made
of addresses and of what stands before each of their dots, and that comes to the same.

* `FieldPath.isAbove_trans`, `FieldPath.isAbove_child`: what a field is in is above it.
* `FieldPath.tag_of_isAbove`: **nothing is in two fields of one record**, as the dots of an address
  keep the numbers apart.
* `FieldMap.hasPath_ofFields`: **a selection made from addresses holds the fields they name**,
  whatever the addresses look like.
-/

namespace Inventory

namespace FieldPath

/-- Whether an address is that of a field or of something in it. -/
def isAbove (path : FieldPath) (address : String) : Bool :=
  address == path.text || Text.hasPrefix (path.text ++ ".") address

/-- Whether one of some addresses is that of a field or of something in it. -/
def isNamed (fields : List String) (path : FieldPath) : Bool := fields.any path.isAbove

variable {path inner : FieldPath} {fields more : List String} {s : String} {tag tag' : Nat}

/-! ## Above and below -/

/-- What stands behind the address of a field in the address of something in it. -/
def IsBelow (back : List Char) : Prop := back = [] ∨ ∃ rest, back = '.' :: rest

theorem isAbove_iff : path.isAbove s = true ↔
    ∃ back, IsBelow back ∧ s.toList = path.text.toList ++ back := by
  unfold isAbove
  rw [Bool.or_eq_true, beq_iff_eq, Text.hasPrefix_iff, String.toList_append]
  constructor
  · rintro (rfl | ⟨rest, hrest⟩)
    · exact ⟨[], .inl rfl, (List.append_nil _).symm⟩
    · refine ⟨'.' :: rest, .inr ⟨rest, rfl⟩, ?_⟩
      rw [← hrest, List.append_assoc]
      rfl
  · rintro ⟨back, rfl | ⟨rest, rfl⟩, hs⟩
    · left
      rw [List.append_nil] at hs
      exact String.toList_inj.1 hs
    · right
      refine ⟨rest, ?_⟩
      rw [hs, List.append_assoc]
      rfl

theorem isAbove_self (path : FieldPath) : path.isAbove path.text = true :=
  isAbove_iff.2 ⟨[], .inl rfl, (List.append_nil _).symm⟩

theorem isAbove_trans (h : path.isAbove inner.text = true) (hs : inner.isAbove s = true) :
    path.isAbove s = true := by
  obtain ⟨back, hback, hinner⟩ := isAbove_iff.1 h
  obtain ⟨more, hmore, hs⟩ := isAbove_iff.1 hs
  refine isAbove_iff.2 ⟨back ++ more, ?_, by rw [hs, hinner, List.append_assoc]⟩
  rcases hback with rfl | ⟨rest, rfl⟩
  · exact hmore
  · exact .inr ⟨rest ++ more, rfl⟩

/-- What is above an address is not longer. -/
theorem length_le_of_isAbove (h : path.isAbove s = true) :
    path.text.toList.length ≤ s.toList.length := by
  obtain ⟨back, -, hs⟩ := isAbove_iff.1 h
  rw [hs, List.length_append]
  omega

theorem isNamed_iff : path.isNamed fields = true ↔ ∃ f ∈ fields, path.isAbove f = true :=
  List.any_eq_true

theorem isNamed_append : path.isNamed (fields ++ more) =
    (path.isNamed fields || path.isNamed more) := List.any_append

/-! ## Fields of a record -/

/-- What the addresses of the fields of a record begin with. -/
def lead (path : FieldPath) : List Char := if path.isRoot then [] else path.text.toList ++ ['.']

theorem toList_child (path : FieldPath) (tag : Nat) :
    (path.child tag).text.toList = path.lead ++ tag.repr.toList := by
  unfold child lead isRoot
  split
  · rfl
  · simp

theorem child_text_ne (path : FieldPath) (tag : Nat) : (path.child tag).text ≠ "" := by
  intro h
  have hlist := congrArg String.toList h
  rw [toList_child] at hlist
  exact Nat.repr_ne_empty (String.toList_eq_nil_iff.1 (List.append_eq_nil_iff.1 hlist).2)

theorem length_lt_child (path : FieldPath) (tag : Nat) :
    path.text.toList.length < (path.child tag).text.toList.length := by
  have hdigits : 0 < tag.repr.toList.length :=
    List.length_pos_iff.2 fun h => Nat.repr_ne_empty (String.toList_eq_nil_iff.1 h)
  rw [toList_child, List.length_append]
  unfold lead isRoot
  split
  · rename_i hroot
    rw [String.isEmpty_iff.1 hroot]
    simpa using hdigits
  · rw [List.length_append]
    omega

theorem isAbove_child (hroot : path.text ≠ "") (tag : Nat) :
    path.isAbove (path.child tag).text = true := by
  refine isAbove_iff.2 ⟨'.' :: tag.repr.toList, .inr ⟨_, rfl⟩, ?_⟩
  rw [toList_child, lead, isRoot, if_neg fun h => hroot (String.isEmpty_iff.1 h), List.append_assoc]
  rfl

/-- The number of a field is read up to the next dot. -/
theorem takeWhile_repr (tag : Nat) {back : List Char} (h : IsBelow back) :
    (tag.repr.toList ++ back).takeWhile Char.isDigit = tag.repr.toList := by
  have hdigits : ∀ c ∈ tag.repr.toList, c.isDigit = true := by
    intro c hc
    rw [Nat.repr_eq_ofList_toDigits, String.toList_ofList] at hc
    exact Nat.isDigit_of_mem_toDigits (by omega) (by omega) hc
  rw [List.takeWhile_append_of_pos hdigits]
  rcases h with rfl | ⟨rest, rfl⟩
  · exact List.append_nil _
  · rw [List.takeWhile_cons_of_neg (by decide), List.append_nil]

theorem repr_injective (h : tag.repr.toList = tag'.repr.toList) : tag = tag' := by
  rw [Nat.repr_eq_ofList_toDigits, Nat.repr_eq_ofList_toDigits, String.toList_ofList,
    String.toList_ofList] at h
  have hvalue := congrArg (Nat.ofDigitChars 10 · 0) h
  simpa only [Nat.ofDigitChars_toDigits (by omega : 1 < 10) (by omega)] using hvalue

/-- **Nothing is in two fields of one record.** -/
theorem tag_of_isAbove (h : (path.child tag).isAbove s = true)
    (h' : (path.child tag').isAbove s = true) : tag = tag' := by
  obtain ⟨back, hback, hs⟩ := isAbove_iff.1 h
  obtain ⟨back', hback', hs'⟩ := isAbove_iff.1 h'
  rw [hs, toList_child, toList_child, List.append_assoc, List.append_assoc] at hs'
  have hdigits := congrArg (List.takeWhile Char.isDigit) (List.append_cancel_left hs')
  rw [takeWhile_repr tag hback, takeWhile_repr tag' hback'] at hdigits
  exact repr_injective hdigits

end FieldPath

/-! ## Selections -/

namespace FieldMap

variable {fields : List String}

/-- What stands before a dot. -/
theorem mem_ancestors {cs front : List Char} :
    front ∈ ancestors cs ↔ ∃ back, cs = front ++ '.' :: back := by
  induction cs generalizing front with
  | nil => simp [ancestors]
  | cons c cs ih =>
    unfold ancestors
    rw [List.mem_append, List.mem_map]
    constructor
    · rintro (h | ⟨rest, hrest, rfl⟩)
      · -- the first character is the dot
        split at h
        · rename_i hc
          obtain rfl := List.mem_singleton.1 h
          exact ⟨cs, by rw [hc, List.nil_append]⟩
        · cases h
      · obtain ⟨back, rfl⟩ := ih.1 hrest
        exact ⟨back, rfl⟩
    · rintro ⟨back, h⟩
      cases front with
      | nil =>
        rw [List.nil_append] at h
        obtain ⟨rfl, rfl⟩ := List.cons.inj h
        exact .inl (by rw [if_pos rfl]; exact List.mem_singleton.2 rfl)
      | cons d front =>
        rw [List.cons_append] at h
        obtain ⟨rfl, htail⟩ := List.cons.inj h
        exact .inr ⟨front, ih.2 ⟨back, htail⟩, rfl⟩

/-- An address stands for whatever is above it. -/
theorem mem_closure {field address : String} :
    address ∈ closure field ↔ field ≠ "" ∧ FieldPath.isAbove ⟨address⟩ field = true := by
  unfold closure
  by_cases hf : field = ""
  · rw [if_pos (String.isEmpty_iff.2 hf)]
    exact ⟨fun h => (nomatch h), fun h => absurd hf h.1⟩
  · rw [if_neg fun h => hf (String.isEmpty_iff.1 h), List.mem_append, List.mem_singleton,
      List.mem_map, and_iff_right hf, FieldPath.isAbove_iff]
    constructor
    · rintro (⟨front, hfront, rfl⟩ | rfl)
      · obtain ⟨back, hback⟩ := mem_ancestors.1 hfront
        exact ⟨'.' :: back, .inr ⟨back, rfl⟩, by rw [hback, String.toList_ofList]⟩
      · exact ⟨[], .inl rfl, (List.append_nil _).symm⟩
    · rintro ⟨_, rfl | ⟨back, rfl⟩, hback⟩
      · rw [List.append_nil] at hback
        exact .inr (String.toList_inj.1 hback).symm
      · exact .inl ⟨address.toList, mem_ancestors.2 ⟨back, hback⟩, String.ofList_toList⟩

theorem has_ofFields {address : String} :
    (ofFields fields).has address = true ↔ ∃ field ∈ fields, address ∈ closure field := by
  unfold has ofFields
  rw [Std.ExtTreeSet.contains_ofList, List.contains_iff_mem, List.mem_flatMap]

/-- **A selection made from addresses holds whatever is above a field they name.** -/
theorem hasPath_of_isAbove {path inner : FieldPath} (habove : path.isAbove inner.text = true)
    (hroot : inner.text ≠ "") (h : inner.isNamed fields = true) :
    (ofFields fields).hasPath path = true := by
  obtain ⟨field, hfield, hinner⟩ := FieldPath.isNamed_iff.1 h
  refine has_ofFields.2 ⟨field, hfield, mem_closure.2 ⟨?_, FieldPath.isAbove_trans habove hinner⟩⟩
  -- an address without characters is below the root only
  rintro rfl
  have hle := FieldPath.length_le_of_isAbove hinner
  exact hroot (String.toList_eq_nil_iff.1 (List.eq_nil_of_length_eq_zero (Nat.le_zero.1 hle)))

/-- **A selection made from addresses holds the fields they name**, and no others. -/
theorem hasPath_ofFields {path : FieldPath} (hroot : path.text ≠ "") :
    (ofFields fields).hasPath path = path.isNamed fields := by
  rw [Bool.eq_iff_iff]
  constructor
  · intro h
    obtain ⟨field, hfield, hmem⟩ := has_ofFields.1 h
    exact FieldPath.isNamed_iff.2 ⟨field, hfield, (mem_closure.1 hmem).2⟩
  · exact hasPath_of_isAbove path.isAbove_self hroot

end FieldMap

end Inventory
