import MarkupSpans.Proofs.Number.Rounding

/-!
# Integers too large for the format

The largest finite number is `2 ^ 1024 - 2 ^ 971`, and the format ends half a unit of its last
digit above it: smaller integers are rounded to a finite number, and from there on they are not,
since the tie goes to the even significand, which has a digit too many (`ofInt?_eq_none_iff`).
-/

set_option autoImplicit false

namespace MarkupSpans.Binary64

/-- The least whole number that is too large for the format, `2 ^ 1024 - 2 ^ 970`. -/
def tooLargeFrom : Nat := (2 ^ 54 - 1) * 2 ^ 970

/-- In units of the last digit of the largest finite number, the format ends half a unit below a
power of two. -/
theorem tooLargeFrom_eq :
    (tooLargeFrom : ℚ) = ((2 ^ precision : Nat) - 1 / 2) * 2 ^ greatestExponent := by
  have hunits : ∀ k : Nat, (((2 ^ 54 - 1) * 2 ^ k : Nat) : ℚ) =
      ((2 ^ precision : Nat) - 1 / 2) * 2 ^ ((k : Int) + 1) := by
    intro k
    rw [zpow_add₀ (by norm_num), zpow_natCast, zpow_one]
    push_cast [precision]
    ring
  exact hunits 970

/-- The binary logarithm that is rounded down is the greatest exponent below the quotient. -/
theorem le_floorLog2_iff {num den : Nat} (hnum : 0 < num) (hden : 0 < den) (k : Int) :
    k ≤ floorLog2 num den ↔ (2 : ℚ) ^ k ≤ num / den := by
  obtain ⟨hlow, hhigh⟩ := floorLog2_bounds hnum hden
  constructor
  · exact fun h => (zpow_le_zpow_right₀ (by norm_num) h).trans hlow
  · intro h
    have hlt := (zpow_lt_zpow_iff_right₀ (one_lt_two (α := ℚ))).mp (h.trans_lt hhigh)
    omega

/-- Less than half above a whole number is not rounded up. -/
theorem roundQuotient_le_of_lt_half {num den n : Nat} (hden : 0 < den)
    (h : (num / den : ℚ) < n + 1 / 2) : roundQuotient num den ≤ n := by
  have hdivmod := Nat.div_add_mod num den
  have hmod := Nat.mod_lt num hden
  have hbelow : 2 * num < 2 * (den * n) + den := by
    rw [div_lt_iff₀ (by exact_mod_cast hden)] at h
    exact_mod_cast (by linarith : (2 * num : ℚ) < 2 * (den * n) + den)
  rcases Nat.lt_trichotomy (num / den) n with hlt | heq | hgt
  · simp only [roundQuotient]
    split_ifs <;> omega
  · rw [heq] at hdivmod
    simp only [roundQuotient]
    rw [if_pos (by omega)]
    omega
  · have hmul := Nat.mul_le_mul_left den (show n + 1 ≤ num / den by omega)
    rw [Nat.mul_succ] at hmul
    omega

/-- With the last digit of the largest finite number, a quotient is rounded to a digit more exactly
if it is half a unit above that number at least. -/
theorem roundedSignificand_eq_two_pow_iff {num den : Nat} (hden : 0 < den)
    (hunit : unitExponent num den = greatestExponent)
    (hbelow : (num / den : ℚ) < (2 ^ precision : Nat) * 2 ^ greatestExponent) :
    roundedSignificand num den = 2 ^ precision ↔ (tooLargeFrom : ℚ) ≤ num / den := by
  rw [tooLargeFrom_eq, ← hunit]
  rw [← hunit] at hbelow
  have hpos : (0 : ℚ) < 2 ^ unitExponent num den := by positivity
  constructor
  · intro hcarry
    by_contra hless
    rw [not_le] at hless
    have hround : roundedSignificand num den ≤ 2 ^ precision - 1 := by
      apply roundQuotient_le_of_lt_half (scaled_snd_pos hden _)
      rw [scaled_quotient, div_lt_iff₀ hpos]
      refine hless.trans_eq ?_
      congr 1
      norm_num [precision]
    rw [hcarry] at hround
    exact absurd hround (by decide)
  · intro hlarge
    apply roundedSignificand_eq hden
    · exact hlarge
    · refine hbelow.le.trans ?_
      gcongr
      linarith
    · exact fun hodd => absurd hodd (by decide)

/-- A whole number is rounded to an infinity, of its sign, exactly if it is too large. -/
theorem ofQuotient_eq_infinite_iff (negative sign : Bool) {n : Nat} (hn : 0 < n) :
    ofQuotient negative n 1 = .infinite sign ↔ negative = sign ∧ tooLargeFrom ≤ n := by
  have hlog : ∀ k : Int, k ≤ floorLog2 n 1 ↔ (2 : ℚ) ^ k ≤ n := by
    intro k
    rw [le_floorLog2_iff hn Nat.one_pos, Nat.cast_one, div_one]
  have hunit : unitExponent n 1 = floorLog2 n 1 - 52 := by
    have hone : (0 : Int) ≤ floorLog2 n 1 := (hlog 0).mpr (by exact_mod_cast hn)
    change max (floorLog2 n 1 - 52) (-1074) = _
    omega
  have hlimit : tooLargeFrom ≤ n ↔
      ((2 ^ precision : Nat) - 1 / 2) * (2 : ℚ) ^ greatestExponent ≤ n := by
    rw [← tooLargeFrom_eq, Nat.cast_le]
  have hbinade : ∀ k : Nat,
      (2 : ℚ) ^ (k + greatestExponent) = (2 ^ k : Nat) * 2 ^ greatestExponent := by
    intro k
    rw [Nat.cast_pow, Nat.cast_ofNat, ← zpow_natCast, zpow_add₀ (by norm_num)]
  have hpos : (0 : ℚ) < 2 ^ greatestExponent := by positivity
  rw [ofQuotient_eq negative hn.ne', hunit]
  rcases Int.lt_trichotomy (floorLog2 n 1) 1023 with hlow | hmiddle | hhigh
  · -- the exponent is small enough, even with a digit carried
    have hless : (n : ℚ) < (2 ^ 52 : Nat) * 2 ^ greatestExponent := by
      rw [← hbinade, ← not_le, ← hlog]
      exact not_le.mpr hlow
    have hnot : ¬ tooLargeFrom ≤ n := by
      rw [hlimit, not_le]
      refine hless.trans ?_
      gcongr
      norm_num [precision]
    rw [if_neg (show ¬ greatestExponent < floorLog2 n 1 - 52 + 1 by
      simp only [greatestExponent]
      omega), if_neg (show ¬ greatestExponent < floorLog2 n 1 - 52 by
      simp only [greatestExponent]
      omega)]
    split <;> simp [hnot]
  · -- the exponent is the greatest one, so a carried digit decides
    have hless : (n : ℚ) < (2 ^ precision : Nat) * 2 ^ greatestExponent := by
      rw [← hbinade, ← not_le, ← hlog]
      exact not_le.mpr (show floorLog2 n 1 < 1024 by omega)
    have hexponent : unitExponent n 1 = greatestExponent := by
      rw [hunit, hmiddle]
      rfl
    have hcarry := roundedSignificand_eq_two_pow_iff Nat.one_pos hexponent
      (by rwa [Nat.cast_one, div_one])
    rw [Nat.cast_one, div_one, Nat.cast_le] at hcarry
    rw [hmiddle, ← hcarry, if_pos (show greatestExponent < 1023 - 52 + 1 by decide),
      if_neg (show ¬ greatestExponent < 1023 - 52 by decide)]
    by_cases hround : roundedSignificand n 1 = 2 ^ precision <;> simp [hround]
  · -- the exponent is too large already
    have hlarge : tooLargeFrom ≤ n := by
      have hmore : ((2 ^ precision : Nat) : ℚ) * 2 ^ greatestExponent ≤ n := by
        rw [← hbinade, ← hlog]
        exact hhigh
      rw [hlimit]
      refine le_trans ?_ hmore
      gcongr
      linarith
    rw [if_pos (show greatestExponent < floorLog2 n 1 - 52 + 1 by
      simp only [greatestExponent]
      omega), if_pos (show greatestExponent < floorLog2 n 1 - 52 by
      simp only [greatestExponent]
      omega)]
    simp [hlarge]

/-- An integer is too large for the format exactly from the limit on. -/
theorem ofInt?_eq_none_iff (i : Int) : ofInt? i = none ↔ tooLargeFrom ≤ i.natAbs := by
  have hnone : ofInt? i = none ↔
      ∃ sign, ofQuotient (decide (i < 0)) i.natAbs 1 = .infinite sign := by
    rw [ofInt?]
    cases ofQuotient (decide (i < 0)) i.natAbs 1 <;> simp
  rw [hnone]
  rcases Nat.eq_zero_or_pos i.natAbs with hzero | hpos
  · have hpositive : ∀ k : Nat, 0 < (2 ^ 54 - 1) * 2 ^ k := fun k =>
      Nat.mul_pos (by decide) (Nat.two_pow_pos k)
    have hlimit : 0 < tooLargeFrom := hpositive 970
    rw [hzero]
    constructor
    · rintro ⟨sign, h⟩
      cases h
    · exact fun h => absurd h (Nat.not_le.mpr hlimit)
  · simp only [ofQuotient_eq_infinite_iff _ _ hpos, exists_and_right, exists_eq', true_and]

/-- An integer below the limit is rounded to the nearest number. -/
theorem ofInt?_of_lt {i : Int} (h : i.natAbs < tooLargeFrom) :
    ofInt? i = some (ofQuotient (decide (i < 0)) i.natAbs 1) := by
  have hsome : ofInt? i ≠ none := by
    rw [ne_eq, ofInt?_eq_none_iff]
    omega
  rw [ofInt?] at hsome ⊢
  split at hsome
  · exact absurd rfl hsome
  · rfl

end MarkupSpans.Binary64
