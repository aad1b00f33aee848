/-!
# Numerals

The decimal digits of all scripts, and whole numbers written in base ten and in base sixteen.

The digits (the general category Nd of Unicode 14) come in runs of ten that count up from the zero
of their script, so a table of the zeros is enough.  An integer of too many digits (`digitLimit`) can
neither be read nor be written.  The numerals here are those of all integers; whoever reads or
writes one checks the limit first.
-/

set_option autoImplicit false

namespace MarkupSpans.Text

/-! ## Digits -/

/-- The code points of the zeros beyond ASCII, one for each run of ten digits. -/
def widerDigitZeros : List Nat :=
  [0x660, 0x6f0, 0x7c0, 0x966, 0x9e6, 0xa66, 0xae6, 0xb66, 0xbe6, 0xc66,
   0xce6, 0xd66, 0xde6, 0xe50, 0xed0, 0xf20, 0x1040, 0x1090, 0x17e0, 0x1810,
   0x1946, 0x19d0, 0x1a80, 0x1a90, 0x1b50, 0x1bb0, 0x1c40, 0x1c50, 0xa620, 0xa8d0,
   0xa900, 0xa9d0, 0xa9f0, 0xaa50, 0xabf0, 0xff10, 0x104a0, 0x10d30, 0x11066, 0x110f0,
   0x11136, 0x111d0, 0x112f0, 0x11450, 0x114d0, 0x11650, 0x116c0, 0x11730, 0x118e0, 0x11950,
   0x11c50, 0x11d50, 0x11da0, 0x16a60, 0x16ac0, 0x16b50, 0x1d7ce, 0x1d7d8, 0x1d7e2, 0x1d7ec,
   0x1d7f6, 0x1e140, 0x1e2f0, 0x1e950, 0x1fbf0]

/-- The code points of all zeros, that of ASCII first. -/
def digitZeros : List Nat := 0x30 :: widerDigitZeros

/-- The value of a decimal digit of any script. -/
def digitValue? (c : Char) : Option Nat :=
  (digitZeros.find? fun z => z ≤ c.toNat && c.toNat < z + 10).map (c.toNat - ·)

/-- Whether a character is a decimal digit of some script. -/
def isDecimalDigit (c : Char) : Bool := (digitValue? c).isSome

/-- The number that a row of decimal digits writes, most significant digit first. -/
def numberOfDigits (digits : List Char) : Nat :=
  digits.foldl (fun acc c => 10 * acc + (digitValue? c).getD 0) 0

/-- A digit of ASCII stands for its distance from zero. -/
theorem digitValue?_of_isDigit {c : Char} (h : c.isDigit = true) :
    digitValue? c = some (c.toNat - 48) := by
  have h2 : 48 ≤ c.toNat ∧ c.toNat ≤ 57 := by
    simpa [Char.isDigit, UInt32.le_iff_toNat_le] using h
  have h3 : (48 ≤ c.toNat && c.toNat < 48 + 10) = true := by
    simp only [Bool.and_eq_true, decide_eq_true_eq]
    omega
  simp only [digitValue?, digitZeros, List.find?_cons, h3, Option.map_some]

/-! ## Written numbers -/

/-- The most digits of an integer that is read from text or written as text. -/
def digitLimit : Nat := 4300

/-- Whether an integer has no more digits than can be written. -/
def isWritable (i : Int) : Bool := (Nat.toDigits 10 i.natAbs).length ≤ digitLimit

/-- An integer that can be written. -/
abbrev WritableInt := {i : Int // isWritable i = true}

/-- A natural number in base ten. -/
def decimalOfNat (n : Nat) : String := String.ofList (Nat.toDigits 10 n)

/-- The numeral of an integer in base ten, with a minus sign in front of a negative one; only a
writable integer comes to be written. -/
def decimalOfInt (i : Int) : String :=
  if i < 0 then "-" ++ decimalOfNat i.natAbs else decimalOfNat i.natAbs

/-- Text lengthened on the left with zeros to a least width. -/
def padZeros (width : Nat) (digits : List Char) : List Char :=
  List.replicate (width - digits.length) '0' ++ digits

/-- A natural number in base sixteen, in lower case, with at least `width` digits. -/
def hexOfNat (width n : Nat) : String := String.ofList (padZeros width (Nat.toDigits 16 n))

/-- An integer in base sixteen; the minus sign counts towards the least width. -/
def hexOfInt (width : Nat) (i : Int) : String :=
  if i < 0 then "-" ++ hexOfNat (width - 1) i.natAbs else hexOfNat width i.natAbs

/-- The value of one digit in base sixteen, in either case. -/
def hexDigitValue? (c : Char) : Option Nat :=
  if '0' ≤ c ∧ c ≤ '9' then some (c.toNat - '0'.toNat)
  else if 'a' ≤ c ∧ c ≤ 'f' then some (c.toNat - 'a'.toNat + 10)
  else if 'A' ≤ c ∧ c ≤ 'F' then some (c.toNat - 'A'.toNat + 10)
  else none

end MarkupSpans.Text
