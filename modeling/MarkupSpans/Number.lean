import MarkupSpans.Failure
import MarkupSpans.Number.Shortest
import MarkupSpans.Text.Numeral

/-!
# Numbers

The numbers that an attribute can hold: integers of any size, floating-point numbers, and truth
values, which count as one and zero.  Numbers of different sorts are the same number when their
exact values agree.
-/

set_option autoImplicit false

namespace MarkupSpans

/-- A number of one of three sorts. -/
inductive Number where
  /-- A truth value, which counts as one or zero. -/
  | truth (b : Bool)
  | int (i : Int)
  | float (x : Binary64)
  deriving DecidableEq

namespace Number

/-- The exact value of a number that has one. -/
def toRat? : Number → Option Rat
  | .truth b => some (if b then 1 else 0)
  | .int i => some i
  | .float x => x.toRat?

/-- Whether two numbers are the same: by exact value, by sign if infinite, by payload if neither
is a number. -/
def same (m n : Number) : Bool :=
  match m.toRat?, n.toRat? with
  | some x, some y => x == y
  | none, none => m == n
  | _, _ => false

/-- Whether a number can be written: an integer may have too many digits for that. -/
def isWritable : Number → Bool
  | .int i => Text.isWritable i
  | _ => true

/-- The text of a number, as it stands where the number is writable. -/
def text : Number → String
  | .truth true => "True"
  | .truth false => "False"
  | .int i => Text.decimalOfInt i
  | .float x => x.text

/-- The text of a number, if it is writable. -/
def write (n : Number) : Except ValueFault String := writtenIf n.isWritable n.text

/-- The integer that a number counts as, if it is of a whole sort. -/
def toInt? : Number → Option Int
  | .truth b => some (if b then 1 else 0)
  | .int i => some i
  | .float _ => none

/-- The number as a floating-point number, unless it is too large for one. -/
def toBinary64? : Number → Option Binary64
  | .truth b => Binary64.ofInt? (if b then 1 else 0)
  | .int i => Binary64.ofInt? i
  | .float x => some x

end Number

end MarkupSpans
