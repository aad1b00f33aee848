import MarkupSpans.Number.Binary64

/-!
# The shortest text of a floating-point number

A finite number is written with the fewest decimal digits that read back as the same number, and
of the rows of that length with the one nearest to it.  Decimal exponents from -4 to 15 are
written with a point among the digits, all others with the mark `e`.

The search looks at the grids `10 ^ k`, coarse ones first.  The first grid that has a point
between the bounds within which every value rounds to the number decides the number of digits:
if any point of a grid lies there, one of the two points next to the number does.
-/

set_option autoImplicit false

namespace MarkupSpans.Binary64

/-- A positive number and the bounds of the values that round to it, over one denominator. -/
structure Rounding where
  /-- The numerator of the lower bound. -/
  lower : Nat
  /-- The numerator of the number itself. -/
  value : Nat
  /-- The numerator of the upper bound. -/
  upper : Nat
  /-- The denominator of all three. -/
  den : Nat
  /-- Whether the bounds themselves round to the number. -/
  closed : Bool

/-- The bounds of a positive number: half way to its neighbours, of which the lower one is nearer
at a power of two. -/
def rounding (significand : Nat) (exponent : Int) : Rounding :=
  let nearer := significand = Nat.pow 2 (precision - 1) ∧ leastExponent < exponent
  let quarter := exponent - 2
  let unit := if 0 ≤ quarter then Nat.pow 2 quarter.toNat else 1
  { lower := (4 * significand - if nearer then 1 else 2) * unit
    value := 4 * significand * unit
    upper := (4 * significand + 2) * unit
    den := if 0 ≤ quarter then 1 else Nat.pow 2 (-quarter).toNat
    closed := significand % 2 = 0 }

/-- The bounds measured in units of `10 ^ k`. -/
def Rounding.inUnits (r : Rounding) (k : Int) : Rounding :=
  if 0 ≤ k then { r with den := r.den * Nat.pow 10 k.toNat }
  else
    let factor := Nat.pow 10 (-k).toNat
    { r with lower := r.lower * factor, value := r.value * factor, upper := r.upper * factor }

/-- Whether a whole number lies between the bounds. -/
def Rounding.admits (r : Rounding) (n : Nat) : Bool :=
  let point := n * r.den
  if r.closed then r.lower ≤ point && point ≤ r.upper else r.lower < point && point < r.upper

/-- The whole number between the bounds that is nearest to the number, of those next to it; of
two equally near ones the even one. -/
def Rounding.nearest? (r : Rounding) : Option Nat :=
  let below := r.value / r.den
  match r.admits below, r.admits (below + 1) with
  | false, false => none
  | true, false => some below
  | false, true => some (below + 1)
  | true, true => some (roundQuotient r.value r.den)

/-- The digits and the decimal exponent of the last digit of the shortest text of a positive
number. -/
def shortestDigits (significand : Nat) (exponent : Int) : Nat × Int :=
  let r := rounding significand exponent
  let top : Int := ((Nat.log2 significand : Int) + exponent + 1) * 30103 / 100000 + 1
  ((List.range 25).findSome? fun (i : Nat) =>
    ((r.inUnits (top - i)).nearest?).map fun digits => (digits, top - i)).getD (0, 0)

/-- How decimal digits are laid out: where the point may stand among the digits, and how wide an
exponent is at least. -/
structure Layout where
  /-- The least decimal exponent that is written with a point only. -/
  leastPositional : Int
  /-- The greatest decimal exponent that is written with a point only. -/
  greatestPositional : Int
  /-- The least number of digits of a written exponent. -/
  exponentWidth : Nat

/-- Exponents from -4 to 15 are written with a point, others have at least two digits. -/
def Layout.standard : Layout := ⟨-4, 15, 2⟩

/-- Lays out a row of digits of which the first one counts units of `10 ^ exponent`. -/
def Layout.write (layout : Layout) (digits : List Char) (exponent : Int) : List Char :=
  if exponent < layout.leastPositional ∨ layout.greatestPositional < exponent then
    let fraction := digits.drop 1
    digits.take 1 ++ (if fraction.isEmpty then [] else '.' :: fraction) ++
      ['e', if exponent < 0 then '-' else '+'] ++
      Text.padZeros layout.exponentWidth (Nat.toDigits 10 exponent.natAbs)
  else if exponent < 0 then
    '0' :: '.' :: (List.replicate (exponent.natAbs - 1) '0' ++ digits)
  else
    let wholeLength := exponent.toNat + 1
    let fraction := digits.drop wholeLength
    digits.take wholeLength ++ List.replicate (wholeLength - digits.length) '0' ++
      '.' :: (if fraction.isEmpty then ['0'] else fraction)

/-- The text of a number: the shortest digits that read back as it. -/
def text : Binary64 → String
  | .nan _ => "nan"
  | .infinite negative => if negative then "-inf" else "inf"
  | .finite negative significand exponent =>
    let body :=
      if significand = 0 then ['0', '.', '0']
      else
        let (number, last) := shortestDigits significand exponent
        let digits := Nat.toDigits 10 number
        Layout.standard.write digits (last + digits.length - 1)
    String.ofList (if negative then '-' :: body else body)

end MarkupSpans.Binary64
