import Mathlib.Algebra.Group.Nat.Defs
import MarkupSpans.Text.Numeral

/-!
# Digits in base sixteen

What a digit in base sixteen is, that its case does not count, and that numbers which are written
with enough digits can be read digit by digit (`padZeros_toDigits`, `hexDigitValue?_digitChar`).
A row of characters is read exactly if all of them are digits (`exists_hexValues`,
`isHexDigit_of_mapM`).
-/

set_option autoImplicit false

namespace MarkupSpans.Text

/-- A digit in base sixteen, in either case. -/
def IsHexDigit (c : Char) : Prop :=
  ('0' ≤ c ∧ c ≤ '9') ∨ ('a' ≤ c ∧ c ≤ 'f') ∨ ('A' ≤ c ∧ c ≤ 'F')

instance : DecidablePred IsHexDigit := fun c =>
  inferInstanceAs (Decidable (('0' ≤ c ∧ c ≤ '9') ∨ ('a' ≤ c ∧ c ≤ 'f') ∨ ('A' ≤ c ∧ c ≤ 'F')))

/-- All digits in base sixteen. -/
def hexDigitChars : List Char :=
  ['0', '1', '2', '3', '4', '5', '6', '7', '8', '9', 'a', 'b', 'c', 'd', 'e', 'f',
    'A', 'B', 'C', 'D', 'E', 'F']

/-- The last digits of a number in base sixteen, so many of them. -/
def lastHexDigits : Nat → Nat → List Char
  | 0, _ => []
  | width + 1, n => lastHexDigits width (n / 16) ++ [Nat.digitChar (n % 16)]

/-! ## One digit -/

/-- The digits in base sixteen are the characters that have a value in it. -/
theorem isSome_hexDigitValue?_iff (c : Char) : (hexDigitValue? c).isSome ↔ IsHexDigit c := by
  unfold hexDigitValue? IsHexDigit
  split
  · simp [*]
  · split
    · simp [*]
    · split <;> simp [*]

/-- There are few digits, so what holds of each of them can be checked one by one. -/
theorem IsHexDigit.mem_hexDigitChars {c : Char} (h : IsHexDigit c) : c ∈ hexDigitChars := by
  have hall : ∀ n < 103, IsHexDigit (Char.ofNat n) → Char.ofNat n ∈ hexDigitChars := by decide
  have hlt : c.toNat < 103 := by
    have hbound : ∀ high : Char, c ≤ high → c.toNat ≤ high.toNat := fun _ hc =>
      UInt32.le_iff_toNat_le.mp hc
    rcases h with ⟨-, h⟩ | ⟨-, h⟩ | ⟨-, h⟩
    · exact Nat.lt_of_le_of_lt (hbound _ h) (by decide)
    · exact Nat.lt_of_le_of_lt (hbound _ h) (by decide)
    · exact Nat.lt_of_le_of_lt (hbound _ h) (by decide)
  have hmem := hall c.toNat hlt
  rw [Char.ofNat_toNat] at hmem
  exact hmem h

/-- What holds of each of the listed digits holds of all digits. -/
theorem IsHexDigit.of_all {p : Char → Bool} (h : hexDigitChars.all p = true) {c : Char}
    (hc : IsHexDigit c) : p c = true :=
  List.all_eq_true.mp h c hc.mem_hexDigitChars

/-- The value of a digit is below sixteen. -/
theorem hexDigitValue?_lt {c : Char} {n : Nat} (h : hexDigitValue? c = some n) : n < 16 := by
  have hdigit : IsHexDigit c := (isSome_hexDigitValue?_iff c).mp (by simp [h])
  let small (c : Char) : Bool := (hexDigitValue? c).all fun n => decide (n < 16)
  have hsmall : small c = true := hdigit.of_all (by decide)
  rw [show small c = decide (n < 16) by simp [small, h]] at hsmall
  exact of_decide_eq_true hsmall

/-- The digit of a number below sixteen has this number as its value. -/
theorem hexDigitValue?_digitChar {n : Nat} (h : n < 16) :
    hexDigitValue? (Nat.digitChar n) = some n := by
  have hall : ∀ n < 16, hexDigitValue? (Nat.digitChar n) = some n := by decide
  exact hall n h

/-- The case of a digit does not count. -/
theorem hexDigitValue?_toLower (c : Char) : hexDigitValue? c.toLower = hexDigitValue? c := by
  have hupper : ∀ n < 91, 65 ≤ n →
      hexDigitValue? (Char.ofNat n).toLower = hexDigitValue? (Char.ofNat n) := by decide
  by_cases h : c.val ≥ 'A'.val ∧ c.val ≤ 'Z'.val
  · have hlow : 65 ≤ c.toNat := UInt32.le_iff_toNat_le.mp h.1
    have hhigh : c.toNat ≤ 90 := UInt32.le_iff_toNat_le.mp h.2
    have hc := hupper c.toNat (by omega) hlow
    rwa [Char.ofNat_toNat] at hc
  · have hkept : c.toLower = c := dif_neg h
    rw [hkept]

/-! ## Writing a row of digits -/

/-- A number that is small enough is written with as many digits as are asked for. -/
theorem padZeros_toDigits {width n : Nat} (hwidth : 0 < width) (h : n < 16 ^ width) :
    padZeros width (Nat.toDigits 16 n) = lastHexDigits width n := by
  induction width generalizing n with
  | zero => cases hwidth
  | succ width ih =>
    rw [lastHexDigits]
    cases width with
    | zero =>
      have hlt : n < 16 := by simpa using h
      rw [Nat.toDigits_of_lt_base hlt, Nat.mod_eq_of_lt hlt]
      rfl
    | succ width =>
      have hquotient : n / 16 < 16 ^ (width + 1) := by
        rw [Nat.pow_succ] at h
        omega
      rw [← ih (by omega) hquotient, padZeros, padZeros]
      by_cases hlt : n < 16
      · rw [Nat.toDigits_of_lt_base hlt, Nat.div_eq_of_lt hlt, Nat.toDigits_zero,
          Nat.mod_eq_of_lt hlt, List.length_singleton, List.length_singleton,
          show width + 1 + 1 - 1 = width + 1 - 1 + 1 from rfl, List.replicate_succ']
      · rw [Nat.toDigits_of_base_le (by decide) (by omega), List.length_append,
          List.length_singleton, List.append_assoc, Nat.add_sub_add_right]

/-- The last digits of a number are digits. -/
theorem isHexDigit_of_mem_lastHexDigits {width n : Nat} {c : Char}
    (h : c ∈ lastHexDigits width n) : IsHexDigit c := by
  induction width generalizing n with
  | zero => cases h
  | succ width ih =>
    rcases List.mem_append.mp h with h | h
    · exact ih h
    · have hvalue := hexDigitValue?_digitChar (Nat.mod_lt n (by decide : 0 < 16))
      rw [List.mem_singleton.mp h]
      exact (isSome_hexDigitValue?_iff _).mp (by simp [hvalue])

/-! ## Reading a row of digits -/

/-- Digits are read one by one. -/
theorem exists_hexValues {digits : List Char} (h : ∀ d ∈ digits, IsHexDigit d) :
    ∃ values, digits.mapM hexDigitValue? = some values ∧ values.length = digits.length ∧
      ∀ v ∈ values, v < 16 := by
  induction digits with
  | nil => exact ⟨[], rfl, rfl, by simp⟩
  | cons d rest ih =>
    obtain ⟨values, hvalues, hlength, hlt⟩ := ih fun d' hd' => h d' (List.mem_cons_of_mem _ hd')
    have hsome := (isSome_hexDigitValue?_iff d).mpr (h d List.mem_cons_self)
    obtain ⟨v, hv⟩ := Option.isSome_iff_exists.mp hsome
    refine ⟨v :: values, by simp [List.mapM_cons, hv, hvalues], by simp [hlength], ?_⟩
    simpa using ⟨hexDigitValue?_lt hv, hlt⟩

/-- Only digits are read. -/
theorem isHexDigit_of_mapM {digits : List Char} {values : List Nat}
    (h : digits.mapM hexDigitValue? = some values) : ∀ d ∈ digits, IsHexDigit d := by
  induction digits generalizing values with
  | nil => simp
  | cons d rest ih =>
    simp only [List.mapM_cons, Option.bind_eq_bind, Option.bind_eq_some_iff] at h
    obtain ⟨v, hv, more, hmore, -⟩ := h
    have hd : IsHexDigit d := (isSome_hexDigitValue?_iff d).mp (by simp [hv])
    simpa using ⟨hd, ih hmore⟩

/-- The case of the digits does not count. -/
theorem mapM_hexDigitValue?_toLower (digits : List Char) :
    (digits.map Char.toLower).mapM hexDigitValue? = digits.mapM hexDigitValue? := by
  induction digits with
  | nil => rfl
  | cons d rest ih => simp only [List.map_cons, List.mapM_cons, hexDigitValue?_toLower, ih]

/-- Digits that each stand there twice have each value twice. -/
theorem mapM_hexDigitValue?_doubled (digits : List Char) :
    (digits.flatMap fun d => [d, d]).mapM hexDigitValue? =
      (digits.mapM hexDigitValue?).map fun values => values.flatMap fun v => [v, v] := by
  induction digits with
  | nil => rfl
  | cons d rest ih =>
    rw [List.flatMap_cons, List.mapM_append, ih, List.mapM_cons]
    cases hd : hexDigitValue? d with
    | none => simp [List.mapM_cons, hd]
    | some v =>
      cases hrest : rest.mapM hexDigitValue? <;> simp [List.mapM_cons, hd, hrest]

end MarkupSpans.Text
