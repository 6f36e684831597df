import Inventory.Label.Candidate
import Mathlib.Data.List.Infix

/-!
# Lengths of labels

* `prefix_takeBytes_iff`: **a cut is the longest run of whole characters that fits.**
* `Label.next_of_lt`, `Label.mem_candidates_iff`: **the candidates are given one by one**, and no
  number of theirs is refused.
* `Label.byteLength_candidate`: **no candidate for a label is too long.**
* `Label.byteLength_candidate_pos`: no candidate is empty, whatever is cut from a label.
* `Label.Keeps`: how many bytes of a name a piece of a label has at least.
-/

namespace Inventory

namespace Text

theorem byteLength_append (a b : List Char) :
    byteLength (a ++ b) = byteLength a + byteLength b := by
  induction a with
  | nil => exact (Nat.zero_add _).symm
  | cons c a ih => rw [List.cons_append, byteLength, byteLength, ih, Nat.add_assoc]

/-- **A cut is the longest run of whole characters that fits**: each run at the front of the text that
fits is at the front of the cut. -/
theorem prefix_takeBytes_iff {max : Nat} {p cs : List Char} :
    p <+: takeBytes max cs ↔ p <+: cs ∧ byteLength p ≤ max := by
  induction cs generalizing max p with
  | nil =>
    rw [takeBytes, List.prefix_nil]
    constructor
    · rintro rfl
      exact ⟨rfl, Nat.zero_le max⟩
    · exact And.left
  | cons c cs ih =>
    cases p with
    | nil => exact ⟨fun _ => ⟨List.nil_prefix, Nat.zero_le max⟩, fun _ => List.nil_prefix⟩
    | cons d p =>
      unfold takeBytes
      split
      · rename_i hc
        rw [List.cons_prefix_cons, List.cons_prefix_cons, ih, byteLength]
        constructor
        · rintro ⟨rfl, hp, hlen⟩
          exact ⟨⟨rfl, hp⟩, by omega⟩
        · rintro ⟨⟨rfl, hp⟩, hlen⟩
          exact ⟨rfl, hp, by omega⟩
      · rename_i hc
        rw [List.cons_prefix_cons, List.prefix_nil, byteLength]
        constructor
        · intro h
          cases h
        · rintro ⟨⟨rfl, -⟩, hlen⟩
          omega

theorem takeBytes_isPrefix (max : Nat) (cs : List Char) : takeBytes max cs <+: cs :=
  (prefix_takeBytes_iff.1 List.prefix_rfl).1

theorem byteLength_takeBytes_le (max : Nat) (cs : List Char) :
    byteLength (takeBytes max cs) ≤ max :=
  (prefix_takeBytes_iff.1 List.prefix_rfl).2

/-- Nothing is cut from a text that fits, and only from one that does not. -/
theorem takeBytes_eq_self_iff {max : Nat} {cs : List Char} :
    takeBytes max cs = cs ↔ byteLength cs ≤ max := by
  constructor
  · intro h
    rw [← h]
    exact byteLength_takeBytes_le max cs
  · intro h
    exact antisymm (takeBytes_isPrefix max cs) (prefix_takeBytes_iff.2 ⟨List.prefix_rfl, h⟩)

/-- What is cut twice is cut to the smaller number of bytes. -/
theorem takeBytes_takeBytes (a b : Nat) (cs : List Char) :
    takeBytes a (takeBytes b cs) = takeBytes (min a b) cs := by
  refine antisymm (r := List.IsPrefix) ?_ ?_
  · have hcut := byteLength_takeBytes_le a (takeBytes b cs)
    have hfront := takeBytes_isPrefix a (takeBytes b cs)
    obtain ⟨hcs, hlen⟩ := prefix_takeBytes_iff.1 hfront
    exact prefix_takeBytes_iff.2 ⟨hcs, by omega⟩
  · have hcut := byteLength_takeBytes_le (min a b) cs
    have hfront := takeBytes_isPrefix (min a b) cs
    exact prefix_takeBytes_iff.2 ⟨prefix_takeBytes_iff.2 ⟨hfront, by omega⟩, by omega⟩

/-- What fits at the front of a text is kept whole, and the rest is cut to what is left. -/
theorem takeBytes_append {max : Nat} {front : List Char} (h : byteLength front ≤ max)
    (cs : List Char) :
    takeBytes max (front ++ cs) = front ++ takeBytes (max - byteLength front) cs := by
  induction front generalizing max with
  | nil => rfl
  | cons c front ih =>
    rw [byteLength] at h
    rw [List.cons_append, takeBytes, if_pos (by omega), ih (by omega), byteLength, Nat.sub_sub]
    rfl

/-- There is room for a character in four bytes. -/
theorem takeBytes_ne_nil {max : Nat} {cs : List Char} (hcs : cs ≠ []) (hmax : 4 ≤ max) :
    takeBytes max cs ≠ [] := by
  cases cs with
  | nil => exact absurd rfl hcs
  | cons c cs =>
    have hsize : c.utf8Size ≤ max := Nat.le_trans c.utf8Size_le_four hmax
    unfold takeBytes
    rw [if_pos hsize]
    exact List.cons_ne_nil _ _

theorem byteLength_pos {cs : List Char} (h : cs ≠ []) : 1 ≤ byteLength cs := by
  cases cs with
  | nil => exact absurd rfl h
  | cons c cs =>
    have hsize := c.utf8Size_pos
    rw [byteLength]
    omega

/-- The UTF-8 form of some characters is as long as they say. -/
theorem length_utf8_ofList (cs : List Char) : (utf8 (String.ofList cs)).length = byteLength cs := by
  show (String.ofList cs).utf8ByteSize = _
  induction cs with
  | nil => rfl
  | cons c cs ih =>
    rw [show c :: cs = [c] ++ cs from rfl, String.ofList_append, String.utf8ByteSize_append, ih]
    exact congrArg (· + byteLength cs) String.utf8ByteSize_singleton

end Text

namespace Label

/-- The suffix of a candidate has one digit at most. -/
theorem byteLength_suffix_le {counter : Nat} (h : counter < maxCandidates) :
    Text.byteLength (suffix counter) ≤ 1 := by
  have hall : ∀ n ∈ List.range maxCandidates, Text.byteLength (suffix n) ≤ 1 := by decide
  exact hall counter (List.mem_range.2 h)

/-- A label that leaves room for the number **is not cut**. -/
theorem numbered_of_fits {base : List Char} {max counter : Nat}
    (h : Text.byteLength base + Text.byteLength (suffix counter) ≤ max) :
    numbered base max counter = base ++ suffix counter := by
  have hwhole : Text.takeBytes (max - Text.byteLength (suffix counter)) base = base := by
    apply Text.takeBytes_eq_self_iff.2
    omega
  unfold numbered
  rw [hwhole]

/-! ## Candidates one by one -/

/-- The candidate of a number is given exactly if the number leaves room for the label. -/
theorem next_eq_ok_iff {label cand : List Char} {max counter : Nat} :
    next label max counter = .ok cand ↔
      Text.byteLength (suffix counter) < max ∧ cand = numbered label max counter := by
  unfold next
  by_cases hroom : max ≤ Text.byteLength (suffix counter)
  · rw [if_pos hroom]
    constructor
    · intro h
      cases h
    · intro h
      omega
  · rw [if_neg hroom]
    constructor
    · intro h
      exact ⟨by omega, (Except.ok.inj h).symm⟩
    · rintro ⟨-, rfl⟩
      rfl

/-- **What is given for a number fits**, whatever the label and the number are. -/
theorem byteLength_le_of_next {label cand : List Char} {max counter : Nat}
    (h : next label max counter = .ok cand) : Text.byteLength cand ≤ max := by
  obtain ⟨hroom, rfl⟩ := next_eq_ok_iff.1 h
  have hcut := Text.byteLength_takeBytes_le (max - Text.byteLength (suffix counter)) label
  unfold numbered
  rw [Text.byteLength_append]
  omega

/-- **None of the ten numbers is refused.** -/
theorem next_of_lt {counter : Nat} (h : counter < maxCandidates) (base : List Char) :
    next base maxBytes counter = .ok (numbered base maxBytes counter) := by
  have hsuffix := byteLength_suffix_le h
  have hmax : maxBytes = 63 := rfl
  apply next_eq_ok_iff.2
  exact ⟨by omega, rfl⟩

/-- The candidates for a label are what is given for the ten numbers. -/
theorem mem_candidates_iff {base cand : List Char} :
    cand ∈ candidates base ↔ ∃ counter < maxCandidates, next base maxBytes counter = .ok cand := by
  unfold candidates
  rw [List.mem_map]
  constructor
  · rintro ⟨counter, hcounter, rfl⟩
    have hlt := List.mem_range.1 hcounter
    exact ⟨counter, hlt, next_of_lt hlt base⟩
  · rintro ⟨counter, hlt, hnext⟩
    rw [next_of_lt hlt base] at hnext
    exact ⟨counter, List.mem_range.2 hlt, Except.ok.inj hnext⟩

/-- **No candidate for a label is too long.** -/
theorem byteLength_candidate {base cand : List Char} (h : cand ∈ candidates base) :
    Text.byteLength cand ≤ maxBytes := by
  obtain ⟨counter, -, hnext⟩ := mem_candidates_iff.1 h
  exact byteLength_le_of_next hnext

/-- **No candidate for a label is empty**, since a number at the end leaves room for a character. -/
theorem byteLength_candidate_pos {base cand : List Char} (hbase : base ≠ [])
    (h : cand ∈ candidates base) : 1 ≤ Text.byteLength cand := by
  obtain ⟨counter, hcounter, rfl⟩ := List.mem_map.1 h
  have hsuffix := byteLength_suffix_le (List.mem_range.1 hcounter)
  have hroom : maxBytes = 63 := rfl
  refine Text.byteLength_pos fun hnil => ?_
  have hcut := (List.append_eq_nil_iff.1 hnil).1
  exact Text.takeBytes_ne_nil hbase (by omega) hcut

theorem length_candidates (base : List Char) : (candidates base).length = 10 := by
  unfold candidates
  rw [List.length_map, List.length_range]
  rfl

theorem sanitizeTo_isPrefix (max : Nat) (name : List Char) : sanitizeTo max name <+: sanitize name :=
  Text.takeBytes_isPrefix max _

theorem byteLength_sanitizeTo_le (max : Nat) (name : List Char) :
    Text.byteLength (sanitizeTo max name) ≤ max :=
  Text.byteLength_takeBytes_le max _

/-- A piece of a label is the front of a sanitized name, with at least as much of it as fits so many
bytes. -/
structure Keeps (least : Nat) (name piece : List Char) : Prop where
  front : piece <+: sanitize name
  least : sanitizeTo least name <+: piece

theorem keeps_sanitizeTo {least max : Nat} (h : least ≤ max) (name : List Char) :
    Keeps least name (sanitizeTo max name) where
  front := sanitizeTo_isPrefix max name
  least := by
    have hlength := byteLength_sanitizeTo_le least name
    exact Text.prefix_takeBytes_iff.2 ⟨sanitizeTo_isPrefix least name, by omega⟩

/-- A name that fits is kept **whole**. -/
theorem Keeps.whole {least : Nat} {name piece : List Char} (h : Keeps least name piece)
    (hfits : Text.byteLength (sanitize name) ≤ least) : piece = sanitize name := by
  have hleast : sanitizeTo least name = sanitize name := Text.takeBytes_eq_self_iff.2 hfits
  have hfull : sanitize name <+: piece := hleast ▸ h.least
  exact antisymm h.front hfull

end Label

/-- The label of a cloudlet has **two bytes less** than a label may have. -/
theorem CloudletKey.byteLength_labelBase_le (k : CloudletKey) :
    Text.byteLength k.labelBase ≤ 61 := by
  have hname := Label.byteLength_sanitizeTo_le 40 k.name.toList
  have hoperator := Label.byteLength_sanitizeTo_le 20 k.operatorKey.name.toList
  have hdash : '-'.utf8Size = 1 := rfl
  unfold CloudletKey.labelBase
  rw [Text.byteLength_append, Text.byteLength]
  omega

theorem CloudletKey.labelBase_ne_nil (k : CloudletKey) : k.labelBase ≠ [] :=
  List.append_ne_nil_of_right_ne_nil _ (List.cons_ne_nil _ _)

theorem AppInstKey.labelBase_ne_nil (k : AppInstKey) : k.labelBase ≠ [] := by
  unfold AppInstKey.labelBase
  dsimp only
  split <;> exact List.append_ne_nil_of_right_ne_nil _ (List.cons_ne_nil _ _)

end Inventory
