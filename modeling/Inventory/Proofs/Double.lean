import Inventory.Number.Double
import Mathlib.Tactic.Common

/-!
# Numbers in different formats

A number that a format can hold has one magnitude there.

* `units_of_split`, `ofUnits?_of_split`: a magnitude is an exponent and the digits it scales, and
  these give the number and are given back by it.
* `eq_of_eqv`: doubles that count as equal are one double, or the two zeros.
* `ofFormat_toFormat?`: **a double that a shorter format holds is given back by it**.
-/

namespace Inventory

theorem twoPow_pos (bits : Nat) : 0 < twoPow bits := Nat.two_pow_pos bits

theorem twoPow_add (m n : Nat) : twoPow (m + n) = twoPow m * twoPow n := Nat.pow_add 2 m n

namespace Format

variable {f : Format} {x q n m d : Nat}

/-- An exponent and digits that a format has a magnitude for: the first digit is set unless the
exponent is the lowest. -/
structure Split (f : Format) (x q : Nat) : Prop where
  short : q < 2 * twoPow f.fraction
  full : x = 0 ∨ twoPow f.fraction ≤ q

/-- Every magnitude has an exponent and digits. -/
theorem exists_split (f : Format) (m : Nat) :
    ∃ x q, f.Split x q ∧ m = x * twoPow f.fraction + q := by
  have hpos := twoPow_pos f.fraction
  have hmod := Nat.mod_lt m hpos
  have hdiv := Nat.div_add_mod m (twoPow f.fraction)
  rw [Nat.mul_comm] at hdiv
  -- the first digit is not written, it shows in the exponent
  cases he : m / twoPow f.fraction with
  | zero =>
    rw [he, Nat.zero_mul, Nat.zero_add] at hdiv
    exact ⟨0, m, ⟨by omega, .inl rfl⟩, by omega⟩
  | succ e =>
    rw [he, Nat.add_mul, Nat.one_mul] at hdiv
    exact ⟨e, twoPow f.fraction + m % twoPow f.fraction, ⟨by omega, .inr (Nat.le_add_right _ _)⟩,
      by omega⟩

/-- The number of a magnitude with given exponent and digits. -/
theorem units_of_split (h : f.Split x q) : f.units (x * twoPow f.fraction + q) = q * twoPow x := by
  have hpos := twoPow_pos f.fraction
  obtain ⟨hshort, hfull⟩ := h
  unfold units
  by_cases hq : q < twoPow f.fraction
  · -- the first digit is not set, so the exponent is the lowest
    obtain rfl : x = 0 := hfull.resolve_right (by omega)
    rw [Nat.zero_mul, Nat.zero_add, Nat.div_eq_of_lt hq, if_pos rfl, Nat.mod_eq_of_lt hq]
    exact (Nat.mul_one q).symm
  · have heq : x * twoPow f.fraction + q =
        (q - twoPow f.fraction) + (x + 1) * twoPow f.fraction := by
      rw [Nat.add_mul, Nat.one_mul]; omega
    rw [heq, Nat.add_mul_div_right _ _ hpos, Nat.add_mul_mod_self_right,
      Nat.div_eq_of_lt (by omega), Nat.mod_eq_of_lt (by omega), if_neg (by omega)]
    rw [show twoPow f.fraction + (q - twoPow f.fraction) = q by omega, Nat.zero_add,
      Nat.add_sub_cancel]

/-- The exponent of a number with given exponent and digits. -/
theorem log2_of_split (h : f.Split x q) : Nat.log2 (q * twoPow x) - f.fraction = x := by
  obtain ⟨hshort, hfull⟩ := h
  have hshort : q < 2 ^ (f.fraction + 1) := by
    rw [Nat.pow_succ, Nat.mul_comm]; exact hshort
  have hx : twoPow x = 2 ^ x := rfl
  by_cases hq : q * twoPow x = 0
  · have hq0 : q = 0 := (Nat.mul_eq_zero.1 hq).resolve_right (Nat.ne_of_gt (twoPow_pos x))
    have hx0 : x = 0 := hfull.resolve_right (by have := twoPow_pos f.fraction; omega)
    rw [hq, hx0]
    exact Nat.zero_sub _
  · have hupper : Nat.log2 (q * twoPow x) < f.fraction + 1 + x := by
      rw [Nat.log2_lt hq, Nat.pow_add, ← hx]
      exact Nat.mul_lt_mul_of_pos_right hshort (twoPow_pos x)
    rcases hfull with rfl | hfull
    · omega
    · have hlower : f.fraction + x ≤ Nat.log2 (q * twoPow x) := by
        rw [Nat.le_log2 hq, Nat.pow_add, ← hx]
        exact Nat.mul_le_mul_right _ hfull
      omega

/-- A number gives its magnitude back. -/
theorem ofUnits?_of_split (h : f.Split x q) (hm : x * twoPow f.fraction + q < f.infinity) :
    f.ofUnits? (q * twoPow x) = some (x * twoPow f.fraction + q) := by
  unfold ofUnits?
  simp only [log2_of_split h, Nat.mul_mod_left, Nat.mul_div_cancel _ (twoPow_pos x)]
  rw [if_pos ⟨trivial, hm⟩]

theorem ofUnits?_units (hm : m < f.infinity) : f.ofUnits? (f.units m) = some m := by
  obtain ⟨x, q, hsplit, rfl⟩ := f.exists_split m
  rw [units_of_split hsplit, ofUnits?_of_split hsplit hm]

/-- A number that has a magnitude has an exponent and digits. -/
theorem split_of_ofUnits? (h : f.ofUnits? n = some m) :
    ∃ x q, f.Split x q ∧ n = q * twoPow x ∧ m = x * twoPow f.fraction + q ∧ m < f.infinity := by
  unfold ofUnits? at h
  simp only at h
  split at h
  · rename_i hcond
    obtain ⟨hmod, hlt⟩ := hcond
    obtain rfl := Option.some.inj h
    refine ⟨n.log2 - f.fraction, n / twoPow (n.log2 - f.fraction), ⟨?_, ?_⟩,
      (Nat.div_mul_cancel (Nat.dvd_of_mod_eq_zero hmod)).symm, rfl, hlt⟩
    · rw [Nat.div_lt_iff_lt_mul (twoPow_pos _)]
      by_cases hn : n = 0
      · rw [hn]
        exact Nat.mul_pos (Nat.mul_pos Nat.two_pos (twoPow_pos _)) (twoPow_pos _)
      · have hlt : n < 2 ^ (n.log2 + 1) := Nat.lt_log2_self
        have hle : 2 ^ (n.log2 + 1) ≤ 2 * twoPow f.fraction * twoPow (n.log2 - f.fraction) := by
          rw [Nat.mul_assoc, ← twoPow_add, Nat.pow_succ, Nat.mul_comm]
          exact Nat.mul_le_mul_left 2 (Nat.pow_le_pow_right Nat.two_pos (by omega))
        exact Nat.lt_of_lt_of_le hlt hle
    · by_cases hx : n.log2 ≤ f.fraction
      · exact .inl (Nat.sub_eq_zero_of_le hx)
      · have hn : n ≠ 0 := by
          rintro rfl
          exact hx (Nat.zero_le _)
        refine .inr ((Nat.le_div_iff_mul_le (twoPow_pos _)).2 ?_)
        have hle : 2 ^ n.log2 ≤ n := Nat.log2_self_le hn
        rw [← twoPow_add, show f.fraction + (n.log2 - f.fraction) = n.log2 by omega]
        exact hle
  · cases h

/-- Different magnitudes are different numbers; infinity counts as the number that comes next. -/
theorem units_inj (hm : m ≤ double.infinity) (hn : n ≤ double.infinity)
    (h : double.units m = double.units n) : m = n := by
  have hinf : double.ofUnits? (double.units double.infinity) = none := by decide +kernel
  rcases Nat.lt_or_eq_of_le hm with hm | rfl
  · rcases Nat.lt_or_eq_of_le hn with hn | rfl
    · have hsome := ofUnits?_units hm
      rw [h, ofUnits?_units hn] at hsome
      exact (Option.some.inj hsome).symm
    · rw [← h, ofUnits?_units hm] at hinf
      cases hinf
  · rcases Nat.lt_or_eq_of_le hn with hn | rfl
    · rw [h, ofUnits?_units hn] at hinf
      cases hinf
    · rfl

theorem units_of_ofUnits? (h : f.ofUnits? n = some m) : f.units m = n ∧ m < f.infinity := by
  obtain ⟨x, q, hsplit, rfl, rfl, hlt⟩ := split_of_ofUnits? h
  exact ⟨units_of_split hsplit, hlt⟩

/-- A quotient that is a number of the format is not rounded. -/
theorem ofRatio_of_ofUnits? (h : f.ofUnits? n = some m) (hd : 0 < d) :
    f.ofRatio (n * d) d = m := by
  obtain ⟨x, q, hsplit, rfl, rfl, hlt⟩ := split_of_ofUnits? h
  unfold ofRatio
  have hexact : roundHalfEven (q * twoPow x * d) (d * twoPow x) = q := by
    have hpos : 0 < d * twoPow x := Nat.mul_pos hd (twoPow_pos x)
    unfold roundHalfEven
    rw [Nat.mul_assoc, Nat.mul_comm (twoPow x) d]
    simp only [Nat.mul_div_cancel _ hpos, Nat.mul_mod_left, Nat.mul_zero]
    rw [if_pos hpos]
  simp only [Nat.mul_div_cancel _ hd, log2_of_split hsplit, hexact]
  exact Nat.min_eq_left (Nat.le_of_lt hlt)

end Format

namespace Double

variable {f : Format} {x : Double} {m : Nat}

/-- A double is its sign and its magnitude. -/
theorem ofMagnitude_magnitude (x : Double) : ofMagnitude x.isNegative x.magnitude = x := by
  obtain ⟨bits⟩ := x
  have hbits : (if bits.toNat / twoPow 63 == 1 then twoPow 63 else 0) + bits.toNat % twoPow 63 =
      bits.toNat := by
    have hlt : bits.toNat < 2 ^ 64 := bits.toNat_lt
    have hdiv := Nat.div_add_mod bits.toNat (twoPow 63)
    have htwo : bits.toNat / twoPow 63 < 2 := by
      rw [Nat.div_lt_iff_lt_mul (twoPow_pos 63)]
      exact hlt
    by_cases h1 : bits.toNat / twoPow 63 = 1
    · rw [if_pos (by rw [h1]; rfl)]
      rw [h1, Nat.mul_one] at hdiv
      exact hdiv
    · rw [if_neg (by rw [beq_iff_eq]; exact h1)]
      have h0 : bits.toNat / twoPow 63 = 0 := by
        revert htwo h1
        generalize bits.toNat / twoPow 63 = q
        omega
      rw [h0, Nat.mul_zero] at hdiv
      exact hdiv
  unfold ofMagnitude
  show Double.mk (UInt64.ofNat ((if bits.toNat / twoPow 63 == 1 then twoPow 63 else 0) +
    bits.toNat % twoPow 63)) = ⟨bits⟩
  rw [hbits, UInt64.ofNat_toNat]

/-- The number of a double that is one. -/
theorem natAbs_units (x : Double) : x.units.natAbs = Format.double.units x.magnitude := by
  unfold units
  split
  · exact Int.natAbs_neg _
  · rfl

theorem eqv_iff {x y : Double} :
    x.eqv y = true ↔ x.isNaN = false ∧ y.isNaN = false ∧ x.units = y.units := by
  rw [eqv, Bool.and_eq_true, Bool.and_eq_true, Bool.not_eq_true', Bool.not_eq_true', beq_iff_eq,
    and_assoc]

/-- Two doubles count as equal only if they are one double, or the two zeros. -/
theorem eq_of_eqv {x y : Double} (h : x.eqv y = true) :
    x = y ∨ x.magnitude = 0 ∧ y.magnitude = 0 := by
  obtain ⟨hx, hy, hunits⟩ := eqv_iff.1 h
  have hx : x.magnitude ≤ Format.double.infinity := Nat.not_lt.1 (of_decide_eq_false hx)
  have hy : y.magnitude ≤ Format.double.infinity := Nat.not_lt.1 (of_decide_eq_false hy)
  have hmag : x.magnitude = y.magnitude := by
    refine Format.units_inj hx hy ?_
    rw [← natAbs_units, ← natAbs_units, hunits]
  by_cases hzero : x.magnitude = 0
  · exact .inr ⟨hzero, hmag ▸ hzero⟩
  · -- a number that is not zero has one sign
    have hpos : Format.double.units x.magnitude ≠ 0 := fun h0 =>
      hzero (Format.units_inj hx (Nat.zero_le _) h0)
    have hsign : x.isNegative = y.isNegative := by
      unfold units at hunits
      rw [← hmag] at hunits
      cases hxs : x.isNegative <;> cases hys : y.isNegative <;>
        simp only [hxs, hys, Bool.false_eq_true, if_true, if_false] at hunits ⊢ <;> omega
    left
    rw [← ofMagnitude_magnitude x, ← ofMagnitude_magnitude y, hsign, hmag]

/-- The two zeros count as equal. -/
theorem eqv_of_zero {x y : Double} (hx : x.magnitude = 0) (hy : y.magnitude = 0) :
    x.eqv y = true := by
  have hunits {z : Double} (hz : z.magnitude = 0) : z.isNaN = false ∧ z.units = 0 := by
    have hzero : Format.double.units 0 = 0 := by decide +kernel
    refine ⟨by unfold isNaN; rw [hz]; decide +kernel, ?_⟩
    rw [← Int.natAbs_eq_zero, natAbs_units, hz, hzero]
  unfold eqv
  rw [(hunits hx).1, (hunits hy).1, (hunits hx).2, (hunits hy).2]
  rfl

/-- **A double that a shorter format holds is given back by it.** -/
theorem ofFormat_toFormat? (hscale : f.scale ≤ Format.double.scale) (h : x.toFormat? f = some m) :
    m ≤ f.infinity ∧ ofFormat f x.isNegative m = x := by
  unfold toFormat? at h
  split at h
  · -- what stands for no number has no format
    cases h
  rename_i hnan
  split at h
  · rename_i hinf
    obtain rfl := Option.some.inj h
    refine ⟨Nat.le_refl _, ?_⟩
    unfold ofFormat
    rw [if_neg (Nat.lt_irrefl _), if_pos rfl, ← beq_iff_eq.1 hinf, ofMagnitude_magnitude]
  rename_i hinf
  simp only at h
  split at h
  · rename_i hstep
    rw [natAbs_units] at h hstep
    obtain ⟨hunits, hlt⟩ := Format.units_of_ofUnits? h
    have hfinite : x.magnitude < Format.double.infinity := by
      unfold isNaN at hnan
      unfold isInfinite at hinf
      rw [decide_eq_true_eq] at hnan
      rw [beq_iff_eq] at hinf
      omega
    refine ⟨Nat.le_of_lt hlt, ?_⟩
    unfold ofFormat ofRatio
    rw [if_neg (Nat.lt_asymm hlt), if_neg (Nat.ne_of_lt hlt), hunits]
    -- what the shorter format counts in, the double counts in as well, many times over
    have hcount : Format.double.units x.magnitude / twoPow (Format.double.scale - f.scale) *
        twoPow Format.double.scale = Format.double.units x.magnitude * twoPow f.scale := by
      rw [show Format.double.scale = Format.double.scale - f.scale + f.scale by omega, twoPow_add,
        ← Nat.mul_assoc, Nat.add_sub_cancel,
        Nat.div_mul_cancel (Nat.dvd_of_mod_eq_zero hstep)]
    rw [hcount, Format.ofRatio_of_ofUnits? (Format.ofUnits?_units hfinite) (twoPow_pos _),
      ofMagnitude_magnitude]
  · cases h

end Double

end Inventory
