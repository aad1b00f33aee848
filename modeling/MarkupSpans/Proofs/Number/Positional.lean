import MarkupSpans.Proofs.Number.Shortest
import MarkupSpans.Proofs.Printing

/-!
# Numbers that are written with a point

The shortest text of a finite number has a point and no exponent if and only if the number is zero
or, in absolute value, at least `1 / 10 ^ 4` and less than `10 ^ 16`
(`leadingExponent_mem_iff`).  The limits are those of the shortest digits first; they carry over to
the number because both lie between the same bounds, and of the numbers whose bounds hold a limit
the text is known.

These numbers are read back from their text (`readsBack_of_positional`); the text of any other has a
letter, and a literal has none.
-/

set_option autoImplicit false

namespace MarkupSpans

open Grammar Text

/-! ## Rows of digits -/

/-- Digits in front count as many times as the digits behind them allow. -/
theorem Text.numberOfDigits_append (front back : List Char) :
    numberOfDigits (front ++ back) =
      numberOfDigits front * 10 ^ back.length + numberOfDigits back := by
  have hstart : ∀ start, back.foldl (fun acc c => 10 * acc + (digitValue? c).getD 0) start =
      start * 10 ^ back.length + numberOfDigits back := by
    unfold numberOfDigits
    induction back with
    | nil => simp
    | cons c rest ih =>
      intro start
      rw [List.foldl_cons, List.foldl_cons, ih (10 * start + _), ih (10 * 0 + _), List.length_cons,
        Nat.pow_succ]
      ring
  rw [numberOfDigits, List.foldl_append, hstart]
  rfl

/-- Zeros are worth nothing. -/
theorem Text.numberOfDigits_zeros (n : Nat) : numberOfDigits (List.replicate n '0') = 0 := by
  rw [numberOfDigits_eq_ofDigitChars fun c hc => by rw [List.eq_of_mem_replicate hc]; rfl]
  simp

namespace Binary64

/-! ## Digits laid out with a point -/

/-- Within the limits for a point, the digits are written with one, and count as they did. -/
theorem exists_row_of_write {digits : List Char} (hne : digits ≠ [])
    (hdigits : ∀ c ∈ digits, c.isDigit = true) {exponent : Int} (hleast : -4 ≤ exponent)
    (hgreatest : exponent ≤ 15) :
    ∃ whole fraction : List Char,
      Layout.standard.write digits exponent = whole ++ '.' :: fraction ∧
      whole ≠ [] ∧ fraction ≠ [] ∧ (∀ c ∈ whole ++ fraction, c.isDigit = true) ∧
      (numberOfDigits (whole ++ fraction) : ℚ) * 10 ^ (-(fraction.length : Int)) =
        numberOfDigits digits * 10 ^ (exponent + 1 - digits.length) := by
  have hzeros : ∀ n, ∀ c ∈ List.replicate n '0', c.isDigit = true := by
    intro n c hc
    rw [List.eq_of_mem_replicate hc]
    rfl
  have hpos := List.length_pos_iff.mpr hne
  simp only [Layout.write, Layout.standard]
  rw [if_neg (by omega)]
  split
  case isTrue hnegative =>
    -- zeros in front
    refine ⟨['0'], List.replicate (exponent.natAbs - 1) '0' ++ digits, rfl, by simp, by simp [hne],
      ?_, ?_⟩
    · intro c hc
      simp only [List.mem_append, List.mem_singleton] at hc
      rcases hc with rfl | hc | hc
      · rfl
      · exact hzeros _ c hc
      · exact hdigits c hc
    · rw [numberOfDigits_append, numberOfDigits_append, numberOfDigits_zeros]
      have hexponent : -((List.replicate (exponent.natAbs - 1) '0' ++ digits).length : Int) =
          exponent + 1 - digits.length := by
        simp only [List.length_append, List.length_replicate]
        omega
      rw [hexponent, show numberOfDigits ['0'] = 0 from rfl]
      simp
  case isFalse hnonneg =>
    obtain ⟨k, rfl⟩ := Int.eq_ofNat_of_zero_le (a := exponent) (by omega)
    simp only [Int.toNat_natCast, List.isEmpty_iff, List.drop_eq_nil_iff]
    split
    case isTrue hlength =>
      -- zeros behind
      rw [List.take_of_length_le hlength]
      refine ⟨digits ++ List.replicate (k + 1 - digits.length) '0', ['0'], by simp,
        by simp [hne], by simp, ?_, ?_⟩
      · intro c hc
        simp only [List.mem_append, List.mem_singleton] at hc
        rcases hc with (hc | hc) | rfl
        · exact hdigits c hc
        · exact hzeros _ c hc
        · rfl
      · rw [numberOfDigits_append, numberOfDigits_append, numberOfDigits_zeros,
          show numberOfDigits ['0'] = 0 from rfl]
        have hexponent : (k : Int) + 1 - digits.length = (k + 1 - digits.length : Nat) := by omega
        rw [hexponent, zpow_natCast]
        simp
    case isFalse hlength =>
      rw [Nat.sub_eq_zero_of_le (by omega), List.replicate_zero, List.append_nil]
      refine ⟨digits.take (k + 1), digits.drop (k + 1), rfl, ?_, ?_, ?_, ?_⟩
      · exact List.ne_nil_of_length_pos (by simp; omega)
      · exact List.ne_nil_of_length_pos (by simp; omega)
      · rwa [List.take_append_drop]
      · rw [List.take_append_drop]
        congr 2
        simp only [List.length_drop]
        omega

/-- Beyond the limits the digits are followed by an exponent. -/
theorem mem_write_of_exponent {exponent : Int} (h : exponent < -4 ∨ 15 < exponent)
    (digits : List Char) : 'e' ∈ Layout.standard.write digits exponent := by
  simp only [Layout.write, Layout.standard]
  rw [if_pos h]
  simp

/-! ## The range that is written with a point -/

/-- A number lies between the powers of ten that its number of digits tells. -/
theorem toDigits_bounds {n : Nat} (h : 0 < n) :
    10 ^ ((Nat.toDigits 10 n).length - 1) ≤ n ∧ n < 10 ^ (Nat.toDigits 10 n).length := by
  have hpos : 0 < (Nat.toDigits 10 n).length := Nat.length_toDigits_pos
  refine ⟨?_, (Nat.length_toDigits_le_iff (by decide) hpos).mp le_rfl⟩
  by_contra hlt
  rcases Nat.eq_zero_or_pos ((Nat.toDigits 10 n).length - 1) with hzero | hlength
  · rw [hzero] at hlt
    omega
  · have := (Nat.length_toDigits_le_iff (by decide) hlength).mpr (not_le.mp hlt)
    omega

/-- A float is covered by its own rounding interval. -/
theorem covers_self {significand : Nat} (hpos : 0 < significand) (exponent : Int) :
    (rounding significand exponent).Covers (significand * 2 ^ exponent) := by
  have hunit : (0 : ℚ) < 2 ^ exponent := by positivity
  obtain ⟨hgap, -⟩ := gapBelow_bounds significand exponent
  rw [rounding_covers_iff hpos]
  split
  · exact ⟨by gcongr; linarith, by gcongr; linarith⟩
  · exact ⟨by gcongr; linarith, by gcongr; linarith⟩

/-- What lies between two values between the bounds lies between the bounds. -/
theorem Rounding.Covers.between {r : Rounding} {p q m : ℚ} (hp : r.Covers p) (hq : r.Covers q)
    (hpm : p ≤ m) (hmq : m ≤ q) : r.Covers m := by
  have hlow := mul_le_mul_of_nonneg_right hpm (Nat.cast_nonneg (α := ℚ) r.den)
  have hhigh := mul_le_mul_of_nonneg_right hmq (Nat.cast_nonneg (α := ℚ) r.den)
  unfold Covers at hp hq ⊢
  split
  · rw [if_pos ‹_›] at hp hq
    exact ⟨hp.1.trans hlow, hhigh.trans hq.2⟩
  · rw [if_neg ‹_›] at hp hq
    exact ⟨hp.1.trans_le hlow, hhigh.trans_lt hq.2⟩

/-- The decimal exponent of the first digit of the shortest text of a positive number. -/
def leadingExponent (significand : Nat) (exponent : Int) : Int :=
  (shortestDigits significand exponent).2 +
    (Nat.toDigits 10 (shortestDigits significand exponent).1).length - 1

/-- The value of the shortest digits lies between the powers of ten that the leading exponent tells. -/
theorem shortestDigits_bounds {significand : Nat} {exponent : Int}
    (h : Canonical significand exponent) (hpos : 0 < significand) :
    (10 : ℚ) ^ leadingExponent significand exponent ≤
        (shortestDigits significand exponent).1 * 10 ^ (shortestDigits significand exponent).2 ∧
      (shortestDigits significand exponent).1 * 10 ^ (shortestDigits significand exponent).2 <
        (10 : ℚ) ^ (leadingExponent significand exponent + 1) := by
  have hcovers := shortestDigits_covers h hpos
  unfold leadingExponent
  generalize (shortestDigits significand exponent).1 = n at hcovers ⊢
  generalize (shortestDigits significand exponent).2 = last at hcovers ⊢
  have hn : 0 < n := by
    rcases Nat.eq_zero_or_pos n with rfl | hn
    · exact absurd (pos_of_covers hpos hcovers) (by simp)
    · exact hn
  obtain ⟨hlow, hhigh⟩ := toDigits_bounds hn
  have hlength : 0 < (Nat.toDigits 10 n).length := Nat.length_toDigits_pos
  have hunit : (0 : ℚ) < 10 ^ last := by positivity
  constructor
  · rw [show last + ((Nat.toDigits 10 n).length : Int) - 1 =
      (((Nat.toDigits 10 n).length - 1 : Nat) : Int) + last by omega, zpow_add₀ (by norm_num),
      zpow_natCast]
    gcongr
    exact_mod_cast hlow
  · rw [show last + ((Nat.toDigits 10 n).length : Int) - 1 + 1 =
      ((Nat.toDigits 10 n).length : Int) + last by omega, zpow_add₀ (by norm_num), zpow_natCast]
    gcongr
    exact_mod_cast hhigh

/-- The number `10 ^ 16`, of which the shortest text has an exponent. -/
theorem eq_of_covers_ten_pow {significand : Nat} {exponent : Int}
    (h : Canonical significand exponent) (hpos : 0 < significand)
    (hcovers : (rounding significand exponent).Covers (10 ^ 16)) :
    significand = 5000000000000000 ∧ exponent = 1 := by
  have hcomputed : ofQuotient false (10 ^ 16) 1 = .finite false 5000000000000000 1 := by
    decide +kernel
  rw [ofQuotient_of_covers false h hpos one_pos (by norm_num at hcovers ⊢; exact hcovers)]
    at hcomputed
  cases hcomputed
  exact ⟨rfl, rfl⟩

/-- The number nearest to `1 / 10 ^ 4`, of which the shortest text has none. -/
theorem eq_of_covers_ten_thousandth {significand : Nat} {exponent : Int}
    (h : Canonical significand exponent) (hpos : 0 < significand)
    (hcovers : (rounding significand exponent).Covers (1 / 10 ^ 4)) :
    significand = 7378697629483821 ∧ exponent = -66 := by
  have hcomputed : ofQuotient false 1 (10 ^ 4) = .finite false 7378697629483821 (-66) := by
    decide +kernel
  rw [ofQuotient_of_covers false h hpos (by decide)
    (by norm_num at hcovers ⊢; exact hcovers)] at hcomputed
  cases hcomputed
  exact ⟨rfl, rfl⟩

/-- The shortest text has a point only if and only if the number itself is in the range. -/
theorem leadingExponent_mem_iff {significand : Nat} {exponent : Int}
    (h : Canonical significand exponent) (hpos : 0 < significand) :
    (-4 ≤ leadingExponent significand exponent ∧ leadingExponent significand exponent ≤ 15) ↔
      (1 / 10 ^ 4 ≤ (significand * 2 ^ exponent : ℚ) ∧
        (significand * 2 ^ exponent : ℚ) < 10 ^ 16) := by
  have hself := covers_self hpos exponent
  have hshortest := shortestDigits_covers h hpos
  obtain ⟨hlow, hhigh⟩ := shortestDigits_bounds h hpos
  have hten : (1 : ℚ) < 10 := by norm_num
  have hleast : -4 ≤ leadingExponent significand exponent ↔
      1 / 10 ^ 4 ≤ (significand * 2 ^ exponent : ℚ) := by
    constructor
    · intro hleast
      by_contra hlt
      have hle : (1 / 10 ^ 4 : ℚ) ≤ 10 ^ leadingExponent significand exponent :=
        calc (1 / 10 ^ 4 : ℚ) = 10 ^ (-4 : Int) := by norm_num
          _ ≤ _ := zpow_le_zpow_right₀ hten.le hleast
      obtain ⟨rfl, rfl⟩ := eq_of_covers_ten_thousandth h hpos
        (hself.between hshortest (not_le.mp hlt).le (hle.trans hlow))
      norm_num at hlt
    · intro hle
      by_contra hlt
      have hlt' : (10 : ℚ) ^ (leadingExponent significand exponent + 1) ≤ 1 / 10 ^ 4 :=
        calc (10 : ℚ) ^ (leadingExponent significand exponent + 1) ≤ 10 ^ (-4 : Int) :=
              zpow_le_zpow_right₀ hten.le (by omega)
          _ = 1 / 10 ^ 4 := by norm_num
      obtain ⟨rfl, rfl⟩ := eq_of_covers_ten_thousandth h hpos
        (hshortest.between hself (hhigh.le.trans hlt') hle)
      exact hlt (by decide +kernel)
  have hgreatest : leadingExponent significand exponent ≤ 15 ↔
      (significand * 2 ^ exponent : ℚ) < 10 ^ 16 := by
    constructor
    · intro hle
      by_contra hge
      have hle' : (10 : ℚ) ^ (leadingExponent significand exponent + 1) ≤ 10 ^ 16 :=
        zpow_le_zpow_right₀ hten.le (show leadingExponent significand exponent + 1 ≤ 16 by omega)
      obtain ⟨rfl, rfl⟩ := eq_of_covers_ten_pow h hpos
        (hshortest.between hself (hhigh.le.trans hle') (not_lt.mp hge))
      exact absurd hle (by decide +kernel)
    · intro hlt
      by_contra hgt
      have hle : (10 : ℚ) ^ 16 ≤ 10 ^ leadingExponent significand exponent :=
        zpow_le_zpow_right₀ hten.le (show 16 ≤ leadingExponent significand exponent by omega)
      obtain ⟨rfl, rfl⟩ := eq_of_covers_ten_pow h hpos
        (hself.between hshortest hlt.le (hle.trans hlow))
      norm_num at hlt
  rw [hleast, hgreatest]

/-! ## Literals -/

/-- The value of a finite float. -/
theorem toRat?_finite (negative : Bool) (significand : Nat) (exponent : Int) :
    (finite negative significand exponent).toRat? =
      some ((if negative then -(significand : ℚ) else significand) * 2 ^ exponent) := by
  have hsign : (((if negative then -(significand : Int) else significand : Int)) : ℚ) =
      if negative then -(significand : ℚ) else significand := by
    split <;> simp
  simp only [toRat?, Option.some.injEq]
  split
  case isTrue hnonneg =>
    obtain ⟨k, rfl⟩ := Int.eq_ofNat_of_zero_le hnonneg
    rw [Int.cast_mul, hsign]
    simp
  case isFalse hnegative =>
    obtain ⟨k, hk⟩ := Int.eq_ofNat_of_zero_le (a := -exponent) (by omega)
    obtain rfl : exponent = -(k : Int) := by omega
    rw [Rat.mkRat_eq_div, hsign]
    simp [div_eq_mul_inv]

/-- A decimal is read as the quotient that it stands for. -/
theorem ofDecimal_eq (negative : Bool) (digits : Nat) (scale : Int) :
    ∃ num den : Nat, 0 < den ∧ ofDecimal negative digits scale = ofQuotient negative num den ∧
      (num / den : ℚ) = digits * 10 ^ scale := by
  unfold ofDecimal
  split
  case isTrue hnonneg =>
    obtain ⟨k, rfl⟩ := Int.eq_ofNat_of_zero_le hnonneg
    exact ⟨_, _, one_pos, rfl, by simp⟩
  case isFalse hnegative =>
    obtain ⟨k, hk⟩ := Int.eq_ofNat_of_zero_le (a := -scale) (by omega)
    obtain rfl : scale = -(k : Int) := by omega
    exact ⟨_, _, Nat.pow_pos (by decide), rfl, by simp [div_eq_mul_inv]⟩

/-- What rounding gives: a finite number in its canonical form, or an infinity. -/
def Rounded : Binary64 → Prop
  | .finite _ significand exponent => Canonical significand exponent
  | .infinite _ => True
  | .nan _ => False

/-- A quotient is read as a rounded float. -/
theorem rounded_ofQuotient (negative : Bool) (num : Nat) {den : Nat} (hden : 0 < den) :
    (ofQuotient negative num den).Rounded := by
  cases hx : ofQuotient negative num den with
  | finite negative' significand exponent => exact (canonical_of_ofQuotient hden hx).2
  | infinite => exact trivial
  | nan payload =>
    by_cases hnum : num = 0
    · simp [ofQuotient, hnum] at hx
    · rw [ofQuotient_eq negative hnum] at hx
      split_ifs at hx

/-- A decimal is read as a rounded float. -/
theorem rounded_ofDecimal (negative : Bool) (digits : Nat) (scale : Int) :
    (ofDecimal negative digits scale).Rounded := by
  obtain ⟨num, den, hden, heq, -⟩ := ofDecimal_eq negative digits scale
  rw [heq]
  exact rounded_ofQuotient negative num hden

/-- Finite, and zero or neither too small nor too large to be written with a point only. -/
def Positional (x : Binary64) : Prop :=
  ∃ q : ℚ, x.toRat? = some q ∧ (q = 0 ∨ 1 / 10 ^ 4 ≤ |q| ∧ |q| < 10 ^ 16)

/-- A float is written without an exponent exactly if its leading exponent is in the range for that.
-/
theorem positional_finite_iff {negative : Bool} {significand : Nat} {exponent : Int}
    (h : Canonical significand exponent) (hpos : 0 < significand) :
    (finite negative significand exponent).Positional ↔
      -4 ≤ leadingExponent significand exponent ∧ leadingExponent significand exponent ≤ 15 := by
  have hvalue : (0 : ℚ) < significand * 2 ^ exponent := by
    have : (0 : ℚ) < significand := by exact_mod_cast hpos
    positivity
  have habs : |(if negative then -(significand : ℚ) else significand) * 2 ^ exponent| =
      significand * 2 ^ exponent := by
    cases negative
    · exact abs_of_pos hvalue
    · rw [if_pos rfl, neg_mul, abs_neg, abs_of_pos hvalue]
  rw [leadingExponent_mem_iff h hpos, Positional, toRat?_finite]
  constructor
  · rintro ⟨q, hq, hcases⟩
    cases hq
    rw [habs, ← abs_eq_zero, habs] at hcases
    exact hcases.resolve_left hvalue.ne'
  · intro hrange
    rw [← habs] at hrange
    exact ⟨_, rfl, .inr hrange⟩

end Binary64

/-- A decimal digit, a minus sign or a point. -/
def Grammar.isLiteralChar (c : Char) : Bool := isDecimalDigit c || c == '-' || c == '.'

/-- The characters of a number are those of literals. -/
theorem Grammar.NumberLiteral.isLiteralChar_of_mem {n : NumberLiteral}
    (hwhole : ∀ c ∈ n.whole, isDecimalDigit c = true)
    (hfraction : ∀ c ∈ n.fraction, isDecimalDigit c = true) :
    ∀ c ∈ n.chars, isLiteralChar c = true := by
  intro c hc
  unfold NumberLiteral.chars at hc
  simp only [List.mem_append] at hc
  rcases hc with (hc | hc) | hc
  · split at hc
    · rw [List.mem_singleton.mp hc]
      rfl
    · cases hc
  · simp [isLiteralChar, hwhole c hc]
  · split at hc
    · cases hc
    · rcases List.mem_cons.mp hc with rfl | hc
      · rfl
      · simp [isLiteralChar, hfraction c hc]

namespace Binary64

/-- A finite float is written by its sign, its shortest digits and its leading exponent. -/
theorem text_finite (negative : Bool) {significand : Nat} (hne : significand ≠ 0)
    (exponent : Int) :
    (finite negative significand exponent).text.toList =
      (if negative then ['-'] else []) ++ Layout.standard.write
        (Nat.toDigits 10 (shortestDigits significand exponent).1)
        (leadingExponent significand exponent) := by
  simp only [text, if_neg hne, leadingExponent]
  cases negative <;> simp

/-- A number with a point among its digits is read from them. -/
theorem readsBack_of_leadingExponent {negative : Bool} {significand : Nat} {exponent : Int}
    (h : Canonical significand exponent) (hpos : 0 < significand)
    (hleast : -4 ≤ leadingExponent significand exponent)
    (hgreatest : leadingExponent significand exponent ≤ 15) :
    (finite negative significand exponent).ReadsBack := by
  have hdigits : ∀ c ∈ Nat.toDigits 10 (shortestDigits significand exponent).1,
      c.isDigit = true := fun c hc => Nat.isDigit_of_mem_toDigits (by decide) (by decide) hc
  obtain ⟨whole, fraction, hwrite, hwhole, hfraction, hrow, hnumber⟩ :=
    exists_row_of_write Nat.toDigits_ne_nil hdigits hleast hgreatest
  have hscale : leadingExponent significand exponent + 1 -
      (Nat.toDigits 10 (shortestDigits significand exponent).1).length =
      (shortestDigits significand exponent).2 := by
    unfold leadingExponent
    omega
  rw [numberOfDigits_toDigits, hscale] at hnumber
  have hcovers := shortestDigits_covers h hpos
  obtain ⟨num, den, hden, hdecimal, hquotient⟩ := ofDecimal_eq negative
    (numberOfDigits (whole ++ fraction)) (-(fraction.length : Int))
  refine ⟨⟨negative, whole, fraction⟩, ⟨hwhole, ?_, ?_, .inr ?_⟩, ?_, ?_⟩
  · exact fun c hc => isDecimalDigit_of_isDigit (hrow c (by simp [hc]))
  · exact fun c hc => isDecimalDigit_of_isDigit (hrow c (by simp [hc]))
  · exact fun c hc => hrow c (by simp [List.mem_of_mem_head? hc])
  · rw [← String.ofList_toList (s := text _), text_finite negative hpos.ne', hwrite]
    simp [NumberLiteral.chars, hfraction]
  · simp only [NumberLiteral.value, List.isEmpty_iff, hfraction, if_false, Number.float.injEq]
    rw [hdecimal]
    apply ofQuotient_of_covers negative h hpos hden
    rwa [hquotient, hnumber]

/-- The numbers that are written with a point only are read back from their text. -/
theorem readsBack_of_positional {x : Binary64} (h : x.Rounded) (hx : x.Positional) :
    x.ReadsBack := by
  obtain ⟨q, hq, -⟩ := id hx
  cases x with
  | nan payload => exact absurd h id
  | infinite negative => cases hq
  | finite negative significand exponent =>
    rcases Nat.eq_zero_or_pos significand with rfl | hpos
    · -- zero has one form
      have hleast : exponent = leastExponent := by
        rcases h.normal with hle | heq
        · simp [precision] at hle
        · exact heq
      subst hleast
      have hzero : ∀ c ∈ ['0'], isDecimalDigit c = true := List.all_eq_true.mp rfl
      refine ⟨⟨negative, ['0'], ['0']⟩, ⟨by simp, hzero, hzero, .inr ?_⟩, ?_, ?_⟩
      · simp only [List.head?_cons, Option.mem_def, Option.some.injEq, forall_eq']
        decide
      · cases negative <;> decide
      · cases negative <;> decide +kernel
    · obtain ⟨hleast, hgreatest⟩ := (positional_finite_iff h hpos).mp hx
      exact readsBack_of_leadingExponent h hpos hleast hgreatest

/-- The text of any other number has the mark of an exponent or the name of infinity. -/
theorem letter_of_not_positional {x : Binary64} (h : x.Rounded) (hx : ¬ x.Positional) :
    'e' ∈ x.text.toList ∨ 'i' ∈ x.text.toList := by
  cases x with
  | nan payload => exact absurd h id
  | infinite negative =>
    right
    cases negative <;> simp [text]
  | finite negative significand exponent =>
    left
    rcases Nat.eq_zero_or_pos significand with rfl | hpos
    · exact absurd ⟨0, by simp [toRat?_finite], .inl rfl⟩ hx
    · rw [positional_finite_iff h hpos] at hx
      rw [text_finite negative hpos.ne']
      exact List.mem_append_right _ (mem_write_of_exponent (by omega) _)

end Binary64

end MarkupSpans
