import MarkupSpans.Proofs.Number.Rounding

/-!
# The shortest digits of a number lie between its bounds

The search for digits tries grids of powers of ten, each ten times as fine as the one before.  Any
digits that it finds lie between the bounds of the number, and the last grid is so fine that one of
its points does (`shortestDigits_covers`).
-/

set_option autoImplicit false

namespace MarkupSpans.Binary64

namespace Rounding

/-- A whole number is admitted exactly if it is covered. -/
theorem admits_iff (r : Rounding) (n : Nat) : r.admits n = true ↔ r.Covers n := by
  unfold admits Covers
  cases r.closed <;> simp only [Bool.false_eq_true, if_false, if_true, Bool.and_eq_true,
    decide_eq_true_eq] <;> norm_cast

/-- Rounding gives one of the two whole numbers around the quotient. -/
theorem roundQuotient_eq_or (num den : Nat) :
    roundQuotient num den = num / den ∨ roundQuotient num den = num / den + 1 := by
  simp only [roundQuotient]
  split_ifs <;> simp

/-- The nearest whole number, if there is one, is admitted. -/
theorem admits_of_nearest?_eq_some {r : Rounding} {n : Nat} (h : r.nearest? = some n) :
    r.admits n = true := by
  have hnext := roundQuotient_eq_or r.value r.den
  unfold nearest? at h
  simp only at h
  split at h
  · cases h
  · cases h
    assumption
  · cases h
    assumption
  · cases h
    rcases hnext with hnext | hnext <;> rw [hnext] <;> assumption

/-- If a unit is shorter than the way to the upper bound, a whole number lies there. -/
theorem nearest?_isSome {r : Rounding} (hden : 0 < r.den) (hlower : r.lower ≤ r.value)
    (hupper : r.value + r.den < r.upper) : r.nearest?.isSome = true := by
  have habove : r.admits (r.value / r.den + 1) = true := by
    have hlt := Nat.lt_mul_of_div_lt (Nat.lt_succ_self (r.value / r.den)) hden
    have hle : (r.value / r.den + 1) * r.den ≤ r.value + r.den := by
      rw [Nat.succ_mul]
      exact Nat.add_le_add_right (Nat.div_mul_le_self _ _) _
    rw [Nat.succ_eq_add_one] at hlt
    unfold admits
    split <;> simp only [Bool.and_eq_true, decide_eq_true_eq] <;> omega
  unfold nearest?
  simp only [habove]
  split <;> simp_all

/-- A positive denominator stays positive in other units. -/
theorem den_inUnits_pos {r : Rounding} (hden : 0 < r.den) (k : Int) : 0 < (r.inUnits k).den := by
  unfold inUnits
  split
  · exact Nat.mul_pos hden (Nat.pow_pos (by decide))
  · exact hden

/-- In units of a power of ten all bounds are multiplied alike and the denominator by that power
too. -/
theorem inUnits_eq (r : Rounding) (k : Int) :
    ∃ factor : ℚ, 0 < factor ∧ ((r.inUnits k).lower : ℚ) = r.lower * factor ∧
      ((r.inUnits k).value : ℚ) = r.value * factor ∧
      ((r.inUnits k).upper : ℚ) = r.upper * factor ∧
      ((r.inUnits k).den : ℚ) = 10 ^ k * r.den * factor := by
  unfold inUnits
  split
  · rename_i h
    obtain ⟨m, rfl⟩ := Int.eq_ofNat_of_zero_le h
    refine ⟨1, one_pos, by simp, by simp, by simp, ?_⟩
    push_cast [Nat.pow_eq]
    simp only [Int.toNat_natCast, zpow_natCast]
    ring
  · rename_i h
    obtain ⟨m, hm⟩ := Int.eq_ofNat_of_zero_le (a := -k) (by omega)
    obtain rfl : k = -(m : Int) := by omega
    refine ⟨10 ^ m, by positivity, ?_, ?_, ?_, ?_⟩
    · simp
    · simp
    · simp
    · simp only [zpow_neg, zpow_natCast]
      field_simp

/-- Whether the bounds belong to the interval does not depend on the units. -/
theorem closed_inUnits (r : Rounding) (k : Int) : (r.inUnits k).closed = r.closed := by
  unfold inUnits
  split <;> rfl

/-- What is covered in units of a power of ten is covered times that power. -/
theorem covers_inUnits_iff (r : Rounding) (k : Int) (q : ℚ) :
    (r.inUnits k).Covers q ↔ r.Covers (q * 10 ^ k) := by
  obtain ⟨factor, hfactor, hlower, -, hupper, hden⟩ := r.inUnits_eq k
  have hpoint : q * (10 ^ k * r.den * factor) = q * 10 ^ k * r.den * factor := by ring
  simp only [Covers, closed_inUnits, hlower, hupper, hden, hpoint,
    mul_le_mul_iff_left₀ hfactor, mul_lt_mul_iff_left₀ hfactor]

end Rounding

/-- Three digits fit into ten bits. -/
theorem ten_pow_le_two_pow (m : Nat) : 10 ^ (3 * (m / 10)) ≤ 2 ^ m := by
  calc 10 ^ (3 * (m / 10)) = (10 ^ 3) ^ (m / 10) := by rw [Nat.pow_mul]
    _ ≤ (2 ^ 10) ^ (m / 10) := Nat.pow_le_pow_left (by decide) _
    _ = 2 ^ (10 * (m / 10)) := by rw [Nat.pow_mul]
    _ ≤ 2 ^ m := Nat.pow_le_pow_right (by decide) (by omega)

/-- Ninety-three bits fit into twenty-eight digits. -/
theorem two_pow_le_ten_pow (p : Nat) : 2 ^ p ≤ 10 ^ (28 * (p / 93) + (p % 93 + 2) / 3) := by
  calc 2 ^ p ≤ 2 ^ (93 * (p / 93) + 3 * ((p % 93 + 2) / 3)) :=
        Nat.pow_le_pow_right (by decide) (by omega)
    _ = (2 ^ 93) ^ (p / 93) * (2 ^ 3) ^ ((p % 93 + 2) / 3) := by
        rw [Nat.pow_add, Nat.pow_mul, Nat.pow_mul]
    _ ≤ (10 ^ 28) ^ (p / 93) * 10 ^ ((p % 93 + 2) / 3) :=
        Nat.mul_le_mul (Nat.pow_le_pow_left (by decide) _) (Nat.pow_le_pow_left (by decide) _)
    _ = 10 ^ (28 * (p / 93) + (p % 93 + 2) / 3) := by rw [Nat.pow_add, Nat.pow_mul]

/-- The grid of the last unit that is tried is finer than half a digit of the number. -/
theorem ten_zpow_lt {significand : Nat} {exponent : Int} (h : Canonical significand exponent)
    (hpos : 0 < significand) :
    (10 : ℚ) ^ (((Nat.log2 significand : Int) + exponent + 1) * 30103 / 100000 + 1 - 24) <
      2 ^ (exponent - 1) := by
  obtain ⟨hlt, hle, hge, -⟩ := h
  simp only [leastExponent, greatestExponent] at hle hge
  have hlog : Nat.log2 significand < 53 := (Nat.log2_lt hpos.ne').mpr hlt
  generalize hk : ((Nat.log2 significand : Int) + exponent + 1) * 30103 / 100000 + 1 - 24 = k
  rcases le_or_gt 1 exponent with hexponent | hexponent
  · obtain ⟨m, hm⟩ := Int.eq_ofNat_of_zero_le (a := exponent - 1) (by omega)
    calc (10 : ℚ) ^ k < 10 ^ ((3 * (m / 10) : Nat) : Int) :=
          zpow_lt_zpow_right₀ (by norm_num) (by omega)
      _ ≤ 2 ^ (exponent - 1) := by
          rw [hm, zpow_natCast, zpow_natCast]
          exact_mod_cast ten_pow_le_two_pow m
  · obtain ⟨p, hp⟩ := Int.eq_ofNat_of_zero_le (a := 1 - exponent) (by omega)
    have hp' : exponent - 1 = -(p : Int) := by omega
    calc (10 : ℚ) ^ k < 10 ^ (-((28 * (p / 93) + (p % 93 + 2) / 3 : Nat) : Int)) :=
          zpow_lt_zpow_right₀ (by norm_num) (by omega)
      _ ≤ 2 ^ (exponent - 1) := by
          rw [hp', zpow_neg, zpow_neg, zpow_natCast, zpow_natCast]
          apply inv_anti₀ (by positivity)
          exact_mod_cast two_pow_le_ten_pow p

/-- A grid that is fine enough has a point between the bounds of a number. -/
theorem nearest?_isSome_of_lt {significand : Nat} {exponent k : Int} (hpos : 0 < significand)
    (hk : (10 : ℚ) ^ k < 2 ^ (exponent - 1)) :
    ((rounding significand exponent).inUnits k).nearest?.isSome = true := by
  have hden := den_rounding_pos significand exponent
  have hden' : (0 : ℚ) < (rounding significand exponent).den := by exact_mod_cast hden
  obtain ⟨hlower, hvalue, hupper⟩ := rounding_eq hpos exponent
  obtain ⟨factor, hfactor, hlower', hvalue', hupper', hunits⟩ :=
    (rounding significand exponent).inUnits_eq k
  have hhalf : (2 : ℚ) ^ (exponent - 1) = 2 * 2 ^ (exponent - 2) := by
    rw [show exponent - 1 = 1 + (exponent - 2) by omega, zpow_add₀ (by norm_num), zpow_one]
  apply Rounding.nearest?_isSome (Rounding.den_inUnits_pos hden k)
  · rw [← Nat.cast_le (α := ℚ), hlower', hvalue', hlower, hvalue]
    gcongr
    simp
  · rw [hhalf] at hk
    have hunit := mul_lt_mul_of_pos_right (mul_lt_mul_of_pos_right hk hden') hfactor
    rw [← Nat.cast_lt (α := ℚ), Nat.cast_add, hvalue', hupper', hunits, hvalue, hupper]
    linarith

/-- The shortest digits of a number lie between its bounds. -/
theorem shortestDigits_covers {significand : Nat} {exponent : Int}
    (h : Canonical significand exponent) (hpos : 0 < significand) :
    (rounding significand exponent).Covers
      ((shortestDigits significand exponent).1 * 10 ^ (shortestDigits significand exponent).2) := by
  simp only [shortestDigits]
  generalize htop : ((Nat.log2 significand : Int) + exponent + 1) * 30103 / 100000 + 1 = top
  generalize hfound : ((List.range 25).findSome? fun (i : Nat) =>
    (((rounding significand exponent).inUnits (top - i)).nearest?).map fun digits =>
      (digits, top - i)) = found
  cases found with
  | none =>
    -- the last grid is fine enough
    have hlast := List.findSome?_eq_none_iff.mp hfound 24 (by simp)
    have hfine := ten_zpow_lt h hpos
    rw [htop] at hfine
    have hsome := nearest?_isSome_of_lt hpos hfine
    rw [Option.map_eq_none_iff] at hlast
    rw [show top - ((24 : Nat) : Int) = top - 24 from rfl] at hlast
    rw [hlast] at hsome
    cases hsome
  | some pair =>
    obtain ⟨i, -, hi⟩ := List.exists_of_findSome?_eq_some hfound
    obtain ⟨digits, hdigits, rfl⟩ := Option.map_eq_some_iff.mp hi
    have hadmits := Rounding.admits_of_nearest?_eq_some hdigits
    rwa [Rounding.admits_iff, Rounding.covers_inUnits_iff] at hadmits

end MarkupSpans.Binary64
