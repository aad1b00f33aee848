import Mathlib.Algebra.Order.Field.Power
import Mathlib.Tactic.FieldSimp
import Mathlib.Tactic.Linarith
import Mathlib.Tactic.NormNum
import Mathlib.Tactic.Positivity
import Mathlib.Tactic.Ring
import Mathlib.Data.Rat.Cast.Order
import Mathlib.Data.Nat.Log
import MarkupSpans.Number.Shortest

/-!
# Which quotients are rounded to a number

A quotient is rounded to the finite number whose bounds it lies between (`ofQuotient_of_covers`).
The bounds are half way to the neighbours, and the lower neighbour of a power of two is nearer than
the upper one; so just below a power of two the quotient has a finer last digit than the number, and
its digits are carried into one more.
-/

set_option autoImplicit false

namespace MarkupSpans.Binary64

/-- The denominator of a scaled quotient is positive. -/
theorem scaled_snd_pos {num den : Nat} (hden : 0 < den) (exponent : Int) :
    0 < (scaled num den exponent).2 := by
  unfold scaled
  split
  · exact Nat.mul_pos hden (Nat.pow_pos (by decide))
  · exact hden

/-- A scaled quotient is the quotient divided by the power of two. -/
theorem scaled_quotient (num den : Nat) (exponent : Int) :
    ((scaled num den exponent).1 : ℚ) / (scaled num den exponent).2 =
      num / den / (2 : ℚ) ^ exponent := by
  unfold scaled
  split
  · rename_i h
    obtain ⟨k, rfl⟩ := Int.eq_ofNat_of_zero_le h
    simp [div_div]
  · rename_i h
    obtain ⟨k, hk⟩ := Int.eq_ofNat_of_zero_le (a := -exponent) (by omega)
    obtain rfl : exponent = -(k : Int) := by omega
    simp
    ring

/-- A number lies between the powers of two that its logarithm tells. -/
theorem log2_bounds {n : Nat} (hn : n ≠ 0) :
    (2 : ℚ) ^ (n.log2 : Int) ≤ n ∧ (n : ℚ) < 2 ^ (n.log2 + 1 : Int) := by
  constructor
  · rw [zpow_natCast]
    exact_mod_cast Nat.log2_self_le hn
  · have := Nat.lt_log2_self (n := n)
    rw [← Nat.cast_succ, zpow_natCast]
    exact_mod_cast this

/-- A quotient lies between the powers of two that its logarithm tells. -/
theorem floorLog2_bounds {num den : Nat} (hnum : 0 < num) (hden : 0 < den) :
    (2 : ℚ) ^ floorLog2 num den ≤ num / den ∧
      (num / den : ℚ) < 2 ^ (floorLog2 num den + 1) := by
  have hden' : (0 : ℚ) < den := by exact_mod_cast hden
  obtain ⟨hnum_low, hnum_high⟩ := log2_bounds hnum.ne'
  obtain ⟨hden_low, hden_high⟩ := log2_bounds hden.ne'
  generalize hguess : (num.log2 : Int) - den.log2 = guess
  -- the guess is the answer or one more than that
  have hlow : (2 : ℚ) ^ (guess - 1) ≤ num / den := by
    rw [le_div_iff₀ hden']
    calc (2 : ℚ) ^ (guess - 1) * den ≤ 2 ^ (guess - 1) * 2 ^ (den.log2 + 1 : Int) := by gcongr
      _ = 2 ^ (num.log2 : Int) := by
        rw [← zpow_add₀ (by norm_num)]
        congr 1
        omega
      _ ≤ num := hnum_low
  have hhigh : (num / den : ℚ) < 2 ^ (guess + 1) := by
    rw [div_lt_iff₀ hden']
    calc (num : ℚ) < 2 ^ (num.log2 + 1 : Int) := hnum_high
      _ = 2 ^ (guess + 1) * 2 ^ (den.log2 : Int) := by
        rw [← zpow_add₀ (by norm_num)]
        congr 1
        omega
      _ ≤ 2 ^ (guess + 1) * den := by gcongr
  have hscaled := scaled_quotient num den guess
  have hpos : (0 : ℚ) < (scaled num den guess).2 := by exact_mod_cast scaled_snd_pos hden guess
  have hcompare : (scaled num den guess).2 ≤ (scaled num den guess).1 ↔
      (2 : ℚ) ^ guess ≤ num / den := by
    rw [← Nat.cast_le (α := ℚ), ← one_le_div hpos, hscaled, one_le_div (by positivity)]
  simp only [floorLog2, hguess]
  split
  · rename_i h
    exact ⟨hcompare.mp h, hhigh⟩
  · rename_i h
    rw [hcompare, not_le] at h
    exact ⟨hlow, by simpa using h⟩

/-- The nearest whole number, which is even if there are two. -/
theorem roundQuotient_eq {num den n : Nat} (hden : 0 < den)
    (hlow : (n : ℚ) - 1 / 2 ≤ num / den) (hhigh : (num / den : ℚ) ≤ n + 1 / 2)
    (htie : n % 2 = 1 → (n : ℚ) - 1 / 2 < num / den ∧ (num / den : ℚ) < n + 1 / 2) :
    roundQuotient num den = n := by
  have hden' : (0 : ℚ) < den := by exact_mod_cast hden
  -- the same in whole numbers
  have hlow' : 2 * (n * den) ≤ 2 * num + den := by
    rw [le_div_iff₀ hden'] at hlow
    exact_mod_cast (by linarith : (2 * (n * den) : ℚ) ≤ 2 * num + den)
  have hhigh' : 2 * num ≤ 2 * (n * den) + den := by
    rw [div_le_iff₀ hden'] at hhigh
    exact_mod_cast (by linarith : (2 * num : ℚ) ≤ 2 * (n * den) + den)
  have htie' : n % 2 = 1 → 2 * (n * den) < 2 * num + den ∧ 2 * num < 2 * (n * den) + den := by
    intro hodd
    obtain ⟨hlow, hhigh⟩ := htie hodd
    rw [lt_div_iff₀ hden'] at hlow
    rw [div_lt_iff₀ hden'] at hhigh
    exact ⟨by exact_mod_cast (by linarith : (2 * (n * den) : ℚ) < 2 * num + den),
      by exact_mod_cast (by linarith : (2 * num : ℚ) < 2 * (n * den) + den)⟩
  have hdivmod := Nat.div_add_mod num den
  have hmod := Nat.mod_lt num hden
  rw [Nat.mul_comm] at hdivmod
  have hcases : n = num / den ∨ n = num / den + 1 := by
    have hge : num / den ≤ n := by
      by_contra hlt
      have := Nat.mul_le_mul_right den (show n + 1 ≤ num / den by omega)
      rw [Nat.succ_mul] at this
      omega
    have hle : n ≤ num / den + 1 := by
      by_contra hlt
      have := Nat.mul_le_mul_right den (show num / den + 2 ≤ n by omega)
      rw [Nat.add_mul] at this
      omega
    omega
  simp only [roundQuotient]
  rcases hcases with hn | hn
  · rw [← hn] at hdivmod ⊢
    split_ifs <;> omega
  · have hnext : n * den = num / den * den + den := by rw [hn, Nat.succ_mul]
    split_ifs <;> omega

/-- The form of a finite number: with as many digits as there may be, or of the smallest
exponent. -/
structure Canonical (significand : Nat) (exponent : Int) : Prop where
  significand_lt : significand < 2 ^ precision
  le_exponent : leastExponent ≤ exponent
  exponent_le : exponent ≤ greatestExponent
  normal : 2 ^ (precision - 1) ≤ significand ∨ exponent = leastExponent

/-- Whether a value lies between the bounds. -/
def Rounding.Covers (r : Rounding) (q : ℚ) : Prop :=
  if r.closed then r.lower ≤ q * r.den ∧ q * r.den ≤ r.upper
  else r.lower < q * r.den ∧ q * r.den < r.upper

/-- Four times the distance of the lower bound, in units of the last digit. -/
def gapBelow (significand : Nat) (exponent : Int) : Nat :=
  if significand = 2 ^ (precision - 1) ∧ leastExponent < exponent then 1 else 2

/-- The denominator of a rounding interval is positive. -/
theorem den_rounding_pos (significand : Nat) (exponent : Int) :
    0 < (rounding significand exponent).den := by
  simp only [rounding]
  split
  · exact Nat.one_pos
  · exact Nat.pow_pos (by decide)

/-- The bounds of a rounding interval, in units of the float. -/
theorem rounding_eq {significand : Nat} (hpos : 0 < significand) (exponent : Int) :
    let r := rounding significand exponent
    let quarter := (2 : ℚ) ^ (exponent - 2) * r.den
    (r.lower : ℚ) = (4 * significand - gapBelow significand exponent) * quarter ∧
      (r.value : ℚ) = 4 * significand * quarter ∧
      (r.upper : ℚ) = (4 * significand + 2) * quarter := by
  intro r quarter
  have hunit : (((if 0 ≤ exponent - 2 then Nat.pow 2 (exponent - 2).toNat else 1 : Nat)) : ℚ) =
      quarter := by
    simp only [quarter, r, rounding]
    split
    · rename_i h
      obtain ⟨k, hk⟩ := Int.eq_ofNat_of_zero_le h
      simp [hk]
    · rename_i h
      obtain ⟨k, hk⟩ := Int.eq_ofNat_of_zero_le (a := -(exponent - 2)) (by omega)
      have hk' : exponent - 2 = -(k : Int) := by omega
      simp [hk', zpow_neg]
  have hgap : gapBelow significand exponent ≤ 4 * significand := by
    unfold gapBelow
    split <;> omega
  simp only [r, rounding, Nat.cast_mul, Nat.cast_add, hunit]
  refine ⟨?_, by norm_num, by norm_num⟩
  change ((4 * significand - gapBelow significand exponent : Nat) : ℚ) * quarter = _
  rw [Nat.cast_sub hgap, Nat.cast_mul]
  rfl

/-- What a rounding interval covers, with its bounds for an even significand and without them for an
odd one. -/
theorem rounding_covers_iff {significand : Nat} (hpos : 0 < significand) (exponent : Int) (q : ℚ) :
    (rounding significand exponent).Covers q ↔
      if significand % 2 = 0 then
        (significand - gapBelow significand exponent / 4) * (2 : ℚ) ^ exponent ≤ q ∧
          q ≤ (significand + 1 / 2) * 2 ^ exponent
      else (significand - gapBelow significand exponent / 4) * (2 : ℚ) ^ exponent < q ∧
        q < (significand + 1 / 2) * 2 ^ exponent := by
  generalize hunit' : (2 : ℚ) ^ exponent = unit
  obtain ⟨hlower, -, hupper⟩ := rounding_eq hpos exponent
  have hden : (0 : ℚ) < (rounding significand exponent).den := by
    exact_mod_cast den_rounding_pos significand exponent
  have hunit : (2 : ℚ) ^ (exponent - 2) = unit / 4 := by
    rw [zpow_sub₀ (by norm_num), hunit']
    norm_num
  rw [hunit] at hlower hupper
  have hlower' : ((rounding significand exponent).lower : ℚ) =
      (significand - gapBelow significand exponent / 4) * unit *
        (rounding significand exponent).den := by
    rw [hlower]
    ring
  have hupper' : ((rounding significand exponent).upper : ℚ) =
      (significand + 1 / 2) * unit * (rounding significand exponent).den := by
    rw [hupper]
    ring
  have hclosed : (rounding significand exponent).closed = decide (significand % 2 = 0) := rfl
  simp only [Rounding.Covers, hlower', hupper', hclosed, decide_eq_true_eq]
  simp only [mul_le_mul_iff_left₀ hden, mul_lt_mul_iff_left₀ hden]

/-- The exponent of the last digit of a positive quotient. -/
def unitExponent (num den : Nat) : Int :=
  max (floorLog2 num den - (precision - 1 : Nat)) leastExponent

/-- A positive quotient in units of its last digit, to the nearest whole number. -/
def roundedSignificand (num den : Nat) : Nat :=
  roundQuotient (scaled num den (unitExponent num den)).1 (scaled num den (unitExponent num den)).2

/-- A quotient is read by its rounded significand, which may carry over into the next exponent or
overflow. -/
theorem ofQuotient_eq (negative : Bool) {num : Nat} (hnum : num ≠ 0) (den : Nat) :
    ofQuotient negative num den =
      if roundedSignificand num den = 2 ^ precision then
        if greatestExponent < unitExponent num den + 1 then .infinite negative
        else .finite negative (2 ^ (precision - 1)) (unitExponent num den + 1)
      else if greatestExponent < unitExponent num den then .infinite negative
      else .finite negative (roundedSignificand num den) (unitExponent num den) := by
  simp only [ofQuotient, if_neg hnum, Nat.pow_eq]
  by_cases hcarry : roundedSignificand num den = 2 ^ precision
  · rw [if_pos hcarry]
    simp only [roundedSignificand, unitExponent] at hcarry ⊢
    rw [if_pos hcarry]
    rfl
  · rw [if_neg hcarry]
    simp only [roundedSignificand, unitExponent] at hcarry ⊢
    rw [if_neg hcarry]
    rfl

/-- A significand is that of all quotients at most half a unit away, ties going to the even one. -/
theorem roundedSignificand_eq {num den n : Nat} (hden : 0 < den)
    (hlow : (n - 1 / 2) * (2 : ℚ) ^ unitExponent num den ≤ num / den)
    (hhigh : (num / den : ℚ) ≤ (n + 1 / 2) * 2 ^ unitExponent num den)
    (htie : n % 2 = 1 → (n - 1 / 2) * (2 : ℚ) ^ unitExponent num den < num / den ∧
      (num / den : ℚ) < (n + 1 / 2) * 2 ^ unitExponent num den) :
    roundedSignificand num den = n := by
  have hunit : (0 : ℚ) < 2 ^ unitExponent num den := by positivity
  apply roundQuotient_eq (scaled_snd_pos hden _)
  · rwa [scaled_quotient, le_div_iff₀ hunit]
  · rwa [scaled_quotient, div_le_iff₀ hunit]
  · rwa [scaled_quotient, lt_div_iff₀ hunit, div_lt_iff₀ hunit]

/-- The gap below a float reaches at most half a unit down. -/
theorem gapBelow_bounds (significand : Nat) (exponent : Int) :
    (0 : ℚ) < gapBelow significand exponent / 4 ∧
      (gapBelow significand exponent / 4 : ℚ) ≤ 1 / 2 := by
  unfold gapBelow
  split <;> norm_num

section Covers

variable {significand : Nat} {exponent : Int}

/-- The bounds, whether or not they count. -/
theorem bounds_of_covers (hpos : 0 < significand) {q : ℚ}
    (h : (rounding significand exponent).Covers q) :
    (significand - gapBelow significand exponent / 4) * (2 : ℚ) ^ exponent ≤ q ∧
      q ≤ (significand + 1 / 2) * 2 ^ exponent := by
  rw [rounding_covers_iff hpos] at h
  split at h
  · exact h
  · exact ⟨h.1.le, h.2.le⟩

/-- The rounding interval of a positive float is positive. -/
theorem pos_of_covers (hpos : 0 < significand) {q : ℚ}
    (h : (rounding significand exponent).Covers q) : 0 < q := by
  have hs : (1 : ℚ) ≤ significand := by exact_mod_cast hpos
  obtain ⟨-, hgap⟩ := gapBelow_bounds significand exponent
  exact (mul_pos (by linarith) (by positivity)).trans_le (bounds_of_covers hpos h).1

variable {num den : Nat}

/-- A quotient between the bounds of a number has the same last digit as the number, or a finer one
just below a power of two. -/
theorem unitExponent_of_covers (h : Canonical significand exponent) (hpos : 0 < significand)
    (hden : 0 < den) (hcovers : (rounding significand exponent).Covers (num / den)) :
    unitExponent num den = exponent ∨
      significand = 2 ^ (precision - 1) ∧ leastExponent < exponent ∧
        unitExponent num den = exponent - 1 ∧ (num / den : ℚ) < 2 ^ (52 : Int) * 2 ^ exponent := by
  obtain ⟨hlt, hle, -, hnormal⟩ := h
  simp only [precision, leastExponent] at hlt hle hnormal ⊢
  have hnum : 0 < num := by
    rcases Nat.eq_zero_or_pos num with rfl | hnum
    · exact absurd (pos_of_covers hpos hcovers) (by simp)
    · exact hnum
  obtain ⟨hlow, hhigh⟩ := bounds_of_covers hpos hcovers
  obtain ⟨-, hgap⟩ := gapBelow_bounds significand exponent
  obtain ⟨hlog_low, hlog_high⟩ := floorLog2_bounds hnum hden
  have hmax : unitExponent num den = max (floorLog2 num den - 52) (-1074) := rfl
  have hupper : floorLog2 num den < 53 + exponent := by
    rw [← zpow_lt_zpow_iff_right₀ (one_lt_two (α := ℚ))]
    calc (2 : ℚ) ^ floorLog2 num den ≤ num / den := hlog_low
      _ ≤ (significand + 1 / 2) * 2 ^ exponent := hhigh
      _ < 2 ^ (53 : Int) * 2 ^ exponent := by
        gcongr
        have : (significand : ℚ) + 1 ≤ 2 ^ (53 : Int) := by exact_mod_cast hlt
        linarith
      _ = 2 ^ (53 + exponent) := (zpow_add₀ (by norm_num) _ _).symm
  by_cases hsame : unitExponent num den = exponent
  · exact .inl hsame
  · right
    have hbelow : (num / den : ℚ) < 2 ^ (52 : Int) * 2 ^ exponent := by
      rw [← zpow_add₀ (by norm_num)]
      exact hlog_high.trans_le (zpow_le_zpow_right₀ (by norm_num) (by omega))
    have hlowest : significand = 2 ^ 52 := by
      by_contra hne
      have habove : (2 : ℚ) ^ (52 : Int) + 1 ≤ significand := by
        exact_mod_cast (show 2 ^ 52 + 1 ≤ significand by omega)
      have hunit : (0 : ℚ) ≤ 2 ^ exponent := by positivity
      have hless := mul_le_mul_of_nonneg_right (show (2 : ℚ) ^ (52 : Int) ≤
        significand - gapBelow significand exponent / 4 by linarith) hunit
      linarith
    refine ⟨hlowest, by omega, ?_, hbelow⟩
    have hlower : 51 + exponent < floorLog2 num den + 1 := by
      rw [← zpow_lt_zpow_iff_right₀ (one_lt_two (α := ℚ))]
      calc (2 : ℚ) ^ (51 + exponent) = 2 ^ (51 : Int) * 2 ^ exponent := zpow_add₀ (by norm_num) _ _
        _ ≤ (significand - gapBelow significand exponent / 4) * 2 ^ exponent := by
          rw [hlowest] at hgap ⊢
          gcongr
          push_cast
          linarith
        _ ≤ num / den := hlow
        _ < _ := hlog_high
    omega

/-- A covered quotient with the exponent of the float has its significand. -/
theorem roundedSignificand_of_covers (hpos : 0 < significand) (hden : 0 < den)
    (hcovers : (rounding significand exponent).Covers (num / den))
    (hunit : unitExponent num den = exponent) : roundedSignificand num den = significand := by
  obtain ⟨hlow, hhigh⟩ := bounds_of_covers hpos hcovers
  obtain ⟨-, hgap⟩ := gapBelow_bounds significand exponent
  have hhalf : (significand - 1 / 2) * (2 : ℚ) ^ exponent ≤
      (significand - gapBelow significand exponent / 4) * 2 ^ exponent := by gcongr
  apply roundedSignificand_eq hden <;> rw [hunit]
  · exact hhalf.trans hlow
  · exact hhigh
  · intro hodd
    rw [rounding_covers_iff hpos, if_neg (by omega)] at hcovers
    exact ⟨hhalf.trans_lt hcovers.1, hcovers.2⟩

/-- In units of the finer digit, the quotient is rounded to a digit more than there may be. -/
theorem roundedSignificand_of_finer (hden : 0 < den)
    (hcovers : (rounding (2 ^ (precision - 1)) exponent).Covers (num / den))
    (hnormal : leastExponent < exponent) (hunit : unitExponent num den = exponent - 1)
    (hbelow : (num / den : ℚ) < 2 ^ (52 : Int) * 2 ^ exponent) :
    roundedSignificand num den = 2 ^ precision := by
  obtain ⟨hlow, -⟩ := bounds_of_covers (by decide) hcovers
  have hgap : gapBelow (2 ^ (precision - 1)) exponent = 1 := if_pos ⟨rfl, hnormal⟩
  have htwice : (2 : ℚ) ^ exponent = 2 * 2 ^ (exponent - 1) := by
    rw [zpow_sub₀ (by norm_num)]
    norm_num
    ring
  have hfine : (0 : ℚ) < 2 ^ (exponent - 1) := by positivity
  rw [hgap, htwice] at hlow
  rw [htwice] at hbelow
  apply roundedSignificand_eq hden <;> rw [hunit]
  · push_cast [precision] at hlow ⊢
    linarith
  · push_cast [precision]
    rw [add_mul]
    linarith
  · intro hodd
    simp [precision] at hodd

/-- Whatever lies between the bounds of a number is rounded to it. -/
theorem ofQuotient_of_covers (negative : Bool) (h : Canonical significand exponent)
    (hpos : 0 < significand) (hden : 0 < den)
    (hcovers : (rounding significand exponent).Covers (num / den)) :
    ofQuotient negative num den = .finite negative significand exponent := by
  have hnum : num ≠ 0 := by
    rintro rfl
    exact absurd (pos_of_covers hpos hcovers) (by simp)
  have hlt := h.significand_lt
  have hle := h.exponent_le
  rw [ofQuotient_eq negative hnum]
  rcases unitExponent_of_covers h hpos hden hcovers with hunit | ⟨rfl, hnormal, hunit, hbelow⟩
  · rw [roundedSignificand_of_covers hpos hden hcovers hunit, hunit, if_neg (by omega),
      if_neg (by omega)]
  · rw [roundedSignificand_of_finer hden hcovers hnormal hunit hbelow, if_pos rfl, hunit,
      Int.sub_add_cancel, if_neg (by omega)]

end Covers

/-- Rounding does not go below a whole number that the quotient reaches. -/
theorem le_roundQuotient {num den n : Nat} (hden : 0 < den) (h : (n : ℚ) ≤ num / den) :
    n ≤ roundQuotient num den := by
  have hquotient : n ≤ num / den := by
    rw [le_div_iff₀ (by exact_mod_cast hden)] at h
    exact (Nat.le_div_iff_mul_le hden).mpr (by exact_mod_cast h)
  simp only [roundQuotient]
  split_ifs <;> omega

/-- Rounding does not go above a whole number that the quotient stays below. -/
theorem roundQuotient_le {num den n : Nat} (hden : 0 < den) (h : (num / den : ℚ) < n) :
    roundQuotient num den ≤ n := by
  have hquotient : num / den < n := by
    rw [div_lt_iff₀ (by exact_mod_cast hden)] at h
    exact (Nat.div_lt_iff_lt_mul hden).mpr (by exact_mod_cast h)
  simp only [roundQuotient]
  split_ifs <;> omega

/-- What a quotient is rounded to is in its canonical form, and has the sign that was asked
for. -/
theorem canonical_of_ofQuotient {negative negative' : Bool} {num den significand : Nat}
    {exponent : Int} (hden : 0 < den)
    (h : ofQuotient negative num den = .finite negative' significand exponent) :
    negative' = negative ∧ Canonical significand exponent := by
  by_cases hnum : num = 0
  · rw [ofQuotient, if_pos hnum] at h
    cases h
    exact ⟨rfl, by decide, by decide, by decide, .inr rfl⟩
  · obtain ⟨hlow, hhigh⟩ := floorLog2_bounds (Nat.pos_of_ne_zero hnum) hden
    have hunit : (0 : ℚ) < 2 ^ unitExponent num den := by positivity
    have hmax : unitExponent num den = max (floorLog2 num den - 52) (-1074) := rfl
    have hle : roundedSignificand num den ≤ 2 ^ precision := by
      apply roundQuotient_le (scaled_snd_pos hden _)
      rw [scaled_quotient, div_lt_iff₀ hunit]
      refine lt_of_lt_of_le hhigh ?_
      rw [Nat.cast_pow, ← zpow_natCast, Nat.cast_ofNat, ← zpow_add₀ (by norm_num)]
      apply zpow_le_zpow_right₀ (by norm_num)
      simp only [precision]
      omega
    have hge : leastExponent < unitExponent num den →
        2 ^ (precision - 1) ≤ roundedSignificand num den := by
      intro hnormal
      simp only [leastExponent] at hnormal
      apply le_roundQuotient (scaled_snd_pos hden _)
      rw [scaled_quotient, le_div_iff₀ hunit]
      refine le_trans ?_ hlow
      rw [Nat.cast_pow, ← zpow_natCast, Nat.cast_ofNat, ← zpow_add₀ (by norm_num)]
      apply zpow_le_zpow_right₀ (by norm_num)
      simp only [precision]
      omega
    have hleast : leastExponent ≤ unitExponent num den := le_max_right _ _
    rw [ofQuotient_eq negative hnum] at h
    split_ifs at h with hcarry hlarge hlarge
    · cases h
      exact ⟨rfl, by decide, by omega, by omega, .inl le_rfl⟩
    · cases h
      refine ⟨rfl, by omega, hleast, by omega, ?_⟩
      rcases hleast.lt_or_eq with hlt | heq
      · exact .inl (hge hlt)
      · exact .inr heq.symm

end MarkupSpans.Binary64
