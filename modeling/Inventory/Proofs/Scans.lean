import Inventory.Proofs.Cbor.Leaf
import Inventory.Proofs.Watch
import Mathlib.Data.List.Nodup

/-!
# Scans and the order of bytes

A store keeps its keys in the order of their UTF-8 forms, byte by byte, while the order of texts is
that of their characters. The two are the same order: the first byte of a character says how many
follow and has its highest bits, so the first bytes of two characters decide, or they are alike and
the characters have equally many bytes.

* `Text.encodeChar_eq`: the bytes of a character in closed form.
* `Text.encodeChar_lt`: a smaller character decides before whatever follows it.
* `Text.utf8_lt_iff`: **texts are ordered as their UTF-8 forms**.
* `Text.utf8_prefix_iff`: a text starts with another if its UTF-8 form does.
* `Contents.IsListing`: the records of the keys that start with a prefix, each of them once, in the
  order of the bytes.
* `scans_are_exact`: **a list and the snapshot of a subscription are such a listing**, and there is
  only one.
-/

namespace Inventory

namespace Text

/-! ## The bytes of a character -/

/-- How many bytes follow the first one of a character. -/
def trailCount (v : Nat) : Nat :=
  if v ≤ 127 then 0 else if v ≤ 2047 then 1 else if v ≤ 65535 then 2 else 3

/-- The bits of a first byte that say how many follow. -/
def leadMark : Nat → Nat
  | 0 => 0
  | 1 => 192
  | 2 => 224
  | _ => 240

/-- The first byte of a character. -/
def lead (v : Nat) : Nat := leadMark (trailCount v) + v / 64 ^ trailCount v

/-- The bytes behind the first one, with six bits each. -/
def trail : Nat → Nat → Bytes
  | 0, _ => []
  | n + 1, v => trail n (v / 64) ++ [UInt8.ofNat (v % 64 + 128)]

theorem toNat_lt (c : Char) : c.toNat < 0x110000 := by
  rcases c.valid with hlow | ⟨-, hhigh⟩
  · exact Nat.lt_trans hlow (by decide)
  · exact hhigh

/-- The bytes of a character **in closed form**. -/
theorem encodeChar_eq (c : Char) : String.utf8EncodeChar c =
    UInt8.ofNat (lead c.toNat) :: trail (trailCount c.toNat) c.toNat := by
  have hmax := toNat_lt c
  have hvalue : c.val.toNat = c.toNat := rfl
  have hdiv (v : Nat) : v / 64 / 64 = v / 4096 := Nat.div_div_eq_div_mul ..
  unfold String.utf8EncodeChar lead trailCount
  rw [hvalue]
  generalize c.toNat = v at hmax
  dsimp only
  -- one case for each number of bytes; what a first byte cuts off is zero
  split_ifs with hone htwo hthree
  · simp only [leadMark, trail, pow_zero, Nat.div_one, Nat.zero_add]
  · have hfirst : v / 64 % 32 + 192 = leadMark 1 + v / 64 ^ 1 := by
      simp only [leadMark]
      omega
    rw [hfirst]
    rfl
  · have hfirst : v / 4096 % 16 + 224 = leadMark 2 + v / 64 ^ 2 := by
      simp only [leadMark]
      omega
    rw [hfirst]
    rfl
  · have hfirst : v / 262144 % 8 + 240 = leadMark 3 + v / 64 ^ 3 := by
      simp only [leadMark]
      omega
    rw [hfirst, ← hdiv]
    rfl

/-! ## The order of characters -/

theorem cons_ofNat_lt {a b : Nat} (h : a < b) (hb : b < 256) (r r' : Bytes) :
    UInt8.ofNat a :: r < UInt8.ofNat b :: r' := by
  refine List.cons_lt_cons_iff.2 (.inl (UInt8.lt_iff_toNat_lt.2 ?_))
  simp only [UInt8.toNat_ofNat']
  omega

/-- Numbers that have equally many bytes are ordered as these, whatever follows. -/
theorem trail_lt {mark v w : Nat} (n : Nat) (h : v < w) (hw : mark + w / 64 ^ n < 256)
    (r r' : Bytes) :
    UInt8.ofNat (mark + v / 64 ^ n) :: trail n v ++ r <
      UInt8.ofNat (mark + w / 64 ^ n) :: trail n w ++ r' := by
  induction n generalizing v w r r' with
  | zero =>
    simp only [pow_zero, Nat.div_one] at hw ⊢
    exact cons_ofNat_lt (Nat.add_lt_add_left h mark) hw _ _
  | succ n ih =>
    have hdiv (u : Nat) : u / 64 ^ (n + 1) = u / 64 / 64 ^ n := by
      rw [Nat.div_div_eq_div_mul, Nat.pow_succ']
    rw [hdiv] at hw
    rw [hdiv, hdiv]
    simp only [trail, ← List.cons_append, List.append_assoc]
    -- the bytes before the last one decide, or they are alike and the last one does
    rcases Nat.lt_or_ge (v / 64) (w / 64) with hhigh | hhigh
    · exact ih hhigh hw _ _
    · have hsame : v / 64 = w / 64 := by omega
      have hlast : v % 64 + 128 < w % 64 + 128 := by omega
      have hbyte : w % 64 + 128 < 256 := by omega
      rw [hsame]
      exact List.append_left_lt (cons_ofNat_lt hlast hbyte r r')

theorem lead_lt {v w : Nat} (h : v < w) (hw : w < 0x110000) :
    lead w < 256 ∧ (trailCount v = trailCount w ∨ lead v < lead w) := by
  unfold lead trailCount
  split_ifs <;> simp [leadMark] <;> omega

/-- A smaller character **decides before whatever follows it**. -/
theorem encodeChar_lt {c d : Char} (h : c < d) (r r' : Bytes) :
    String.utf8EncodeChar c ++ r < String.utf8EncodeChar d ++ r' := by
  have hlt : c.toNat < d.toNat := h
  obtain ⟨hbyte, hcases⟩ := lead_lt hlt (toNat_lt d)
  rw [encodeChar_eq, encodeChar_eq]
  rcases hcases with hcount | hfirst
  · unfold lead at hbyte ⊢
    rw [hcount]
    exact trail_lt _ hlt hbyte r r'
  · exact cons_ofNat_lt hfirst hbyte _ _

/-! ## The order of texts -/

theorem utf8_eq_flatMap (s : String) : utf8 s = s.toList.flatMap String.utf8EncodeChar := by
  have h : s.toByteArray = s.toList.utf8Encode := String.utf8Encode_toList.symm
  unfold utf8
  rw [h]
  unfold List.utf8Encode
  exact List.data_toByteArray ▸ List.toList_toArray

theorem flatMap_encodeChar_lt {s t : List Char} (h : s < t) :
    s.flatMap String.utf8EncodeChar < t.flatMap String.utf8EncodeChar := by
  induction s generalizing t with
  | nil =>
    cases t with
    | nil => exact absurd h (List.not_lt_nil _)
    | cons d t =>
      rw [List.flatMap_cons, encodeChar_eq]
      exact List.nil_lt_cons _ _
  | cons c s ih =>
    cases t with
    | nil => exact absurd h (List.not_lt_nil _)
    | cons d t =>
      rw [List.flatMap_cons, List.flatMap_cons]
      rcases List.cons_lt_cons_iff.1 h with hfirst | ⟨rfl, hrest⟩
      · exact encodeChar_lt hfirst _ _
      · exact List.append_left_lt (ih hrest)

/-- **Texts are ordered as their UTF-8 forms**, byte by byte. -/
theorem utf8_lt_iff {s t : String} : utf8 s < utf8 t ↔ s.toList < t.toList := by
  rw [utf8_eq_flatMap, utf8_eq_flatMap]
  constructor
  · intro hbytes
    by_contra hnot
    rcases List.le_iff_lt_or_eq.1 (List.not_lt.1 hnot) with hlt | heq
    · exact List.lt_asymm hbytes (flatMap_encodeChar_lt hlt)
    · rw [heq] at hbytes
      exact List.lt_irrefl _ hbytes
  · exact flatMap_encodeChar_lt

/-- A text starts with another **if its UTF-8 form does**. -/
theorem utf8_prefix_iff {p s : String} : utf8 p <+: utf8 s ↔ p.toList <+: s.toList := by
  constructor
  · rintro ⟨rest, hrest⟩
    rw [utf8_eq_flatMap, utf8_eq_flatMap] at hrest
    apply List.isPrefix_of_utf8Encode_append_eq_utf8Encode rest.toByteArray
    unfold List.utf8Encode
    rw [← hrest, List.toByteArray_append]
  · rintro ⟨rest, hrest⟩
    rw [utf8_eq_flatMap, utf8_eq_flatMap, ← hrest, List.flatMap_append]
    exact List.prefix_append _ _

end Text

/-! ## Listings -/

namespace Contents

/-- The records of the keys that start with a prefix, with what is stored under them: each of them
once, in ascending order of the bytes of the keys. -/
structure IsListing (m : Contents) (scope : String) (records : List KvRecord) : Prop where
  mem_iff : ∀ r, r ∈ records ↔ Text.utf8 scope <+: Text.utf8 r.key ∧
    ∃ stored, m[r.key]? = some stored ∧ r = ⟨r.key, stored.value, stored.modRevision⟩
  once : (records.map (·.key)).Nodup
  ascending : records.Pairwise fun a b => Text.utf8 a.key < Text.utf8 b.key

variable {m : Contents} {scope : String} {records others : List KvRecord}

/-- What comes in strictly ascending order comes once. -/
theorem nodup_of_ascending
    (h : records.Pairwise fun a b => Text.utf8 a.key < Text.utf8 b.key) :
    (records.map (·.key)).Nodup := by
  refine List.pairwise_map.2 (h.imp fun {a b} hlt heq => ?_)
  rw [heq] at hlt
  exact List.lt_irrefl _ hlt

/-- **A scan is a listing**, although it begins at the prefix and ends at the first key that does
not start with it. -/
theorem isListing_scan (m : Contents) (scope : String) : m.IsListing scope (m.scan scope) := by
  have hascending : (m.scan scope).Pairwise fun a b => Text.utf8 a.key < Text.utf8 b.key := by
    rw [scan_eq_filter]
    refine List.pairwise_map.2 ((m.toList_ordered.filter _).imp ?_)
    exact Text.utf8_lt_iff.2
  refine ⟨fun r => ?_, nodup_of_ascending hascending, hascending⟩
  rw [mem_scan, Text.hasPrefix_iff, Text.utf8_prefix_iff]

/-- There is **one listing** of a prefix. -/
theorem IsListing.unique (h : m.IsListing scope records) (h' : m.IsListing scope others) :
    others = records := by
  have hmem (r : KvRecord) : r ∈ others ↔ r ∈ records := (h'.mem_iff r).trans (h.mem_iff r).symm
  have hsame : others.Perm records :=
    (List.perm_ext_iff_of_nodup (List.Nodup.of_map _ h'.once) (List.Nodup.of_map _ h.once)).2 hmem
  apply List.Perm.eq_of_pairwise _ h'.ascending h.ascending hsame
  intro a b _ _ hab hba
  exact absurd hba (List.lt_asymm hab)

end Contents

/-- **Scans are exact.** While a store is open, the list of a prefix and the snapshot of a new
subscription to it give the same records: those of all keys that start with the prefix and of no
others, each of them once, with the value and the revision stored under it, in ascending order of
the bytes of the keys. There are no other records of which this can be said. -/
theorem scans_are_exact {s : Store} (h : s.closed = false) (who : Subscriber) (scope : String) :
    ∃ records, s.list scope = (.ok records, s) ∧
      (s.watch who scope).1 = .ok (records, s.revision) ∧
      s.contents.IsListing scope records ∧
      ∀ others, s.contents.IsListing scope others → others = records := by
  have hexact := s.contents.isListing_scan scope
  obtain ⟨hsnapshot, -⟩ := Store.watch_watching h who scope
  refine ⟨s.contents.scan scope, ?_, hsnapshot, hexact, fun others hothers => ?_⟩
  · unfold Store.list
    rw [Store.ifOpen_of_open h]
  · exact hexact.unique hothers

/-- Keys around a prefix. It is a key itself; next to it are keys that end before its last character
or go on in another way, and below it are two whose order is not that of their UTF-16 forms. -/
def Op.neighbours : List Op :=
  ["AppInst/𝄞", "AppInst0", "AppInst/", "AppInst/ﬀ", "AppInst", "AppInstId/x", "AppInst/a"].map
    (.put · [1])

theorem scans_are_exact_neighbours :
    (Op.runAll Op.neighbours .empty).closed = false ∧
    ((Op.runAll Op.neighbours .empty).list "AppInst/").1 =
      .ok [⟨"AppInst/", [1], 3⟩, ⟨"AppInst/a", [1], 7⟩, ⟨"AppInst/ﬀ", [1], 4⟩,
        ⟨"AppInst/𝄞", [1], 1⟩] ∧
    ∃ records,
      (Op.runAll Op.neighbours .empty).list "AppInst/" =
        (.ok records, Op.runAll Op.neighbours .empty) ∧
      ((Op.runAll Op.neighbours .empty).watch (.client "w") "AppInst/").1 = .ok (records, 7) ∧
      (Op.runAll Op.neighbours .empty).contents.IsListing "AppInst/" records ∧
      ∀ others, (Op.runAll Op.neighbours .empty).contents.IsListing "AppInst/" others →
        others = records := by
  have hopen : (Op.runAll Op.neighbours .empty).closed = false := by decide +kernel
  exact ⟨hopen, by decide +kernel, scans_are_exact hopen (.client "w") "AppInst/"⟩

end Inventory
