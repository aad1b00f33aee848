import MarkupSpans.Text.Numeral

/-!
# Binary floating-point numbers

The numbers of the 64-bit binary format, as exact values: a finite one is a significand below
`2 ^ 53` times a power of two whose exponent is at least `-1074`.  A quotient is rounded to the
nearest such number, a tie going to the even significand, and what is too large becomes an
infinity.
-/

set_option autoImplicit false

namespace MarkupSpans

/-- A number of the 64-bit binary format. -/
inductive Binary64 where
  /-- The number `significand * 2 ^ exponent`, or its negative; zero has both signs. -/
  | finite (negative : Bool) (significand : Nat) (exponent : Int)
  /-- A number too large for the format. -/
  | infinite (negative : Bool)
  /-- No number; the payload tells the results of different failures apart. -/
  | nan (payload : Nat)
  deriving DecidableEq

namespace Binary64

/-- The number of binary digits of a significand. -/
def precision : Nat := 53

/-- The exponent of the smallest positive number. -/
def leastExponent : Int := -1074

/-- The exponent of the largest finite number. -/
def greatestExponent : Int := 971

/-- The quotient to the nearest whole number, a tie going to the even one. -/
def roundQuotient (num den : Nat) : Nat :=
  let quotient := num / den
  let rest := num % den
  if 2 * rest < den then quotient
  else if den < 2 * rest then quotient + 1
  else if quotient % 2 = 0 then quotient else quotient + 1

/-- The numerator and the denominator of `num / den / 2 ^ exponent`. -/
def scaled (num den : Nat) (exponent : Int) : Nat × Nat :=
  if 0 ≤ exponent then (num, den * Nat.pow 2 exponent.toNat)
  else (num * Nat.pow 2 (-exponent).toNat, den)

/-- The exponent of the greatest power of two that a positive quotient reaches. -/
def floorLog2 (num den : Nat) : Int :=
  let guess : Int := Nat.log2 num - Nat.log2 den
  let (num', den') := scaled num den guess
  if den' ≤ num' then guess else guess - 1

/-- The number nearest to a quotient, with a sign. -/
def ofQuotient (negative : Bool) (num den : Nat) : Binary64 :=
  if num = 0 then .finite negative 0 leastExponent
  else
    let exponent := max (floorLog2 num den - (precision - 1 : Nat)) leastExponent
    let (num', den') := scaled num den exponent
    let rounded := roundQuotient num' den'
    let (significand, exponent) :=
      if rounded = Nat.pow 2 precision then (Nat.pow 2 (precision - 1), exponent + 1)
      else (rounded, exponent)
    if greatestExponent < exponent then .infinite negative
    else .finite negative significand exponent

/-- The number nearest to `digits * 10 ^ scale`, with a sign. -/
def ofDecimal (negative : Bool) (digits : Nat) (scale : Int) : Binary64 :=
  if 0 ≤ scale then ofQuotient negative (digits * Nat.pow 10 scale.toNat) 1
  else ofQuotient negative digits (Nat.pow 10 (-scale).toNat)

/-- The number nearest to an integer, unless that is too large for the format. -/
def ofInt? (i : Int) : Option Binary64 :=
  match ofQuotient (decide (i < 0)) i.natAbs 1 with
  | .infinite _ => none
  | x => some x

/-- The exact value of a finite number. -/
def toRat? : Binary64 → Option Rat
  | .finite negative significand exponent =>
    let signed : Int := if negative then -(significand : Int) else significand
    some (if 0 ≤ exponent then ((signed * (Nat.pow 2 exponent.toNat : Nat) : Int) : Rat)
      else mkRat signed (Nat.pow 2 (-exponent).toNat))
  | _ => none

end Binary64

end MarkupSpans
