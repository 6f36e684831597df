import Inventory.Text.Lowercase
import Mathlib.Tactic.Common

/-!
# Lowercase forms

What the table of capital letters has to keep so that lowercasing can be done again without effect,
and so that it makes no mark out of a letter.

* `CapitalRun.not_covers_of_clearOf`: two runs can be compared as a whole: the forms of the one are
  apart from the capitals of the other, or between them.
* `lowercase_of_mem`: **a lowercase form is its own lowercase form**.
* `eq_of_mem_lowercase`: **a mark among the forms of a character is that character**.
-/

namespace Inventory.Text

namespace CapitalRun

variable {r q : CapitalRun} {n : Nat}

/-- The code point of the lowercase form of a capital of a run. -/
def lowered (r : CapitalRun) (n : Nat) : Nat := (n + r.shift).toNat

/-- Whether the lowercase forms of a run stand apart from the capitals of another one, or between
them where every second code point is a capital. -/
def clearOf (r q : CapitalRun) : Bool :=
  Nat.blt (r.lowered r.last) q.first || Nat.blt q.last (r.lowered r.first) ||
    (q.step == 2 && (r.step == 2 || r.lowered r.first == r.lowered r.last) &&
      (r.lowered r.first - q.first) % 2 == 1)

theorem covers_iff :
    r.covers n = true ↔ (r.first ≤ n ∧ n ≤ r.last) ∧ (n - r.first) % r.step = 0 := by
  unfold covers
  simp only [Bool.and_eq_true, decide_eq_true_eq, beq_iff_eq]

/-- The lowercase form of a capital lies between those of the first and the last one of its run. -/
theorem lowered_between (hshift : 0 ≤ r.first + r.shift) (hn : r.covers n = true) :
    r.lowered r.first ≤ r.lowered n ∧ r.lowered n ≤ r.lowered r.last ∧
      r.lowered n = r.lowered r.first + (n - r.first) := by
  obtain ⟨⟨hfirst, hlast⟩, -⟩ := covers_iff.1 hn
  unfold lowered
  omega

/-- **No lowercase form is a capital of a run that it is clear of.** -/
theorem not_covers_of_clearOf (hshift : 0 ≤ r.first + r.shift) (hn : r.covers n = true)
    (h : r.clearOf q = true) : q.covers (r.lowered n) = false := by
  obtain ⟨hlow, hhigh, hform⟩ := lowered_between hshift hn
  obtain ⟨-, hstep⟩ := covers_iff.1 hn
  refine Bool.eq_false_iff.2 fun hq => ?_
  obtain ⟨⟨hfirst, hlast⟩, hmod⟩ := covers_iff.1 hq
  simp only [clearOf, Bool.or_eq_true, Bool.and_eq_true, Nat.blt_eq, beq_iff_eq] at h
  rcases h with (hbelow | habove) | ⟨⟨hq2, hr⟩, hodd⟩
  · omega
  · omega
  · -- the forms lie between the capitals
    rw [hq2] at hmod
    rcases hr with hr2 | hsingle
    · rw [hr2] at hstep
      omega
    · omega

end CapitalRun

/-- Whether a code point is that of a capital letter. -/
def isCapital (n : Nat) : Bool := n == 0x130 || capitalRuns.any (·.covers n)

/-- The forms of each run lie behind the marks, and apart from the capitals of all runs and the
capital that becomes two characters. -/
theorem capitalRuns_clear {r : CapitalRun} (hr : r ∈ capitalRuns) :
    (0x5f : Int) < r.first + r.shift ∧ r.clearOf ⟨0x130, 0x130, 1, 0⟩ = true ∧
      ∀ q ∈ capitalRuns, r.clearOf q = true := by
  have hbehind : ∀ r ∈ capitalRuns, (0x5f : Int) < r.first + r.shift := by decide +kernel
  have hdotted : (capitalRuns.all fun r => r.clearOf ⟨0x130, 0x130, 1, 0⟩) = true := by
    decide +kernel
  have hclear : (capitalRuns.all fun r => capitalRuns.all fun q => r.clearOf q) = true := by
    decide +kernel
  exact ⟨hbehind r hr, List.all_eq_true.1 hdotted r hr,
    List.all_eq_true.1 (List.all_eq_true.1 hclear r hr)⟩

theorem not_isCapital_lowered {r : CapitalRun} {n : Nat} (hr : r ∈ capitalRuns)
    (hn : r.covers n = true) : isCapital (r.lowered n) = false := by
  obtain ⟨hbehind, hdotted, hclear⟩ := capitalRuns_clear hr
  have hshift : 0 ≤ r.first + r.shift := by omega
  have hother : r.lowered n ≠ 0x130 := by
    intro heq
    have hcovers := CapitalRun.not_covers_of_clearOf hshift hn hdotted
    rw [heq] at hcovers
    exact absurd hcovers (by decide)
  have hruns : capitalRuns.any (·.covers (r.lowered n)) = false := by
    refine List.any_eq_false.2 fun q hq => ?_
    rw [CapitalRun.not_covers_of_clearOf hshift hn (hclear q hq)]
    exact Bool.false_ne_true
  unfold isCapital
  rw [hruns, Bool.or_false]
  exact beq_eq_false_iff_ne.2 hother

/-- What is no capital letter has itself as its lowercase form. -/
theorem lowercase_of_not_isCapital {c : Char} (h : isCapital c.toNat = false) :
    lowercase c = [c] := by
  unfold isCapital at h
  obtain ⟨hdotted, hruns⟩ := Bool.or_eq_false_iff.1 h
  have hfind : capitalRuns.find? (·.covers c.toNat) = none :=
    List.find?_eq_none.2 fun r hr => List.any_eq_false.1 hruns r hr
  unfold lowercase
  rw [if_neg (beq_eq_false_iff_ne.1 hdotted), hfind]

/-- What is no code point becomes the first one. -/
theorem toNat_ofNat (n : Nat) : (Char.ofNat n).toNat = n ∨ (Char.ofNat n).toNat = 0 := by
  by_cases hvalid : n.isValidChar
  · have hchar : Char.ofNat n = Char.ofNatAux n hvalid := dif_pos hvalid
    exact .inl (by rw [hchar]; rfl)
  · have hchar : Char.ofNat n = Char.ofNat 0 := dif_neg hvalid
    exact .inr (by rw [hchar]; rfl)

/-- **The forms of a character**: those of the capital that becomes two, one that a run gives, or
the character itself. -/
theorem mem_lowercase {c d : Char} (h : d ∈ lowercase c) :
    d ∈ ['i', Char.ofNat 0x307] ∨
      (∃ r ∈ capitalRuns, r.covers c.toNat = true ∧ d = Char.ofNat (r.lowered c.toNat)) ∨
      d = c ∧ isCapital c.toNat = false := by
  unfold lowercase at h
  split at h
  · exact .inl h
  · rename_i hdotted
    split at h
    · rename_i r hr
      have hcovers := List.find?_some hr
      exact .inr (.inl ⟨r, List.mem_of_find?_eq_some hr, hcovers, List.mem_singleton.1 h⟩)
    · rename_i hnone
      refine .inr (.inr ⟨List.mem_singleton.1 h, ?_⟩)
      have hruns : capitalRuns.any (·.covers c.toNat) = false :=
        List.any_eq_false.2 fun r hr => List.find?_eq_none.1 hnone r hr
      unfold isCapital
      rw [hruns, Bool.or_false]
      exact beq_eq_false_iff_ne.2 hdotted

/-- **A lowercase form is its own lowercase form.** -/
theorem lowercase_of_mem {c d : Char} (h : d ∈ lowercase c) : lowercase d = [d] := by
  refine lowercase_of_not_isCapital ?_
  rcases mem_lowercase h with htwo | ⟨r, hr, hcovers, rfl⟩ | ⟨rfl, hlower⟩
  · simp only [List.mem_cons, List.not_mem_nil, or_false] at htwo
    rcases htwo with rfl | rfl <;> decide +kernel
  · rcases toNat_ofNat (r.lowered c.toNat) with hcode | hzero
    · rw [hcode]
      exact not_isCapital_lowered hr hcovers
    · rw [hzero]
      decide +kernel
  · exact hlower

/-- **A mark among the forms of a character is that character.** -/
theorem eq_of_mem_lowercase {c d : Char} (h : d ∈ lowercase c) (hlow : 0x20 ≤ d.toNat)
    (hhigh : d.toNat ≤ 0x5f) : d = c := by
  rcases mem_lowercase h with htwo | ⟨r, hr, hcovers, rfl⟩ | ⟨rfl, -⟩
  · have hbehind : 0x5f < d.toNat := by
      simp only [List.mem_cons, List.not_mem_nil, or_false] at htwo
      rcases htwo with rfl | rfl <;> decide
    omega
  · -- the forms of a run lie behind the marks
    obtain ⟨hbehind, -, -⟩ := capitalRuns_clear hr
    obtain ⟨hfirst, -⟩ := CapitalRun.lowered_between (by omega) hcovers
    have hform : r.lowered r.first = (r.first + r.shift).toNat := rfl
    rcases toNat_ofNat (r.lowered c.toNat) with hcode | hzero <;> omega
  · rfl

/-- No character is without a lowercase form. -/
theorem lowercase_ne_nil (c : Char) : lowercase c ≠ [] := by
  unfold lowercase
  split
  · exact List.cons_ne_nil _ _
  · split <;> exact List.cons_ne_nil _ _

end Inventory.Text
