import MarkupSpans.CompileError
import MarkupSpans.Text.Quoted

/-!
# Failures

Everything that can stop an operation: errors of the markup itself, and misuse of the values, the
callbacks, the reports and the results that take part.
-/

set_option autoImplicit false

namespace MarkupSpans

/-- A value that its place cannot take. -/
inductive ValueFault where
  /-- A value of the named sort that has no digits in base sixteen. -/
  | notHexadecimal (sortName : String)
  /-- A slice that never moves on. -/
  | zeroStep
  /-- A numeral of so many digits, more than an integer is read from. -/
  | numeralTooLong (digits : Nat)
  /-- An integer of more digits than can be written. -/
  | integerTooLong
  /-- A setting of reports that is none of the allowed ones. -/
  | setting (name : String) (allowed : List String) (got : String)
  /-- What a bound function says is wrong. -/
  | reported (message : String)
  deriving DecidableEq

/-- What is said about an integer of too many digits, with what is known of it. -/
def digitLimitMessage (known : String) : String :=
  "Exceeds the limit (" ++ Text.decimalOfNat Text.digitLimit ++
    " digits) for integer string conversion" ++ known ++
    "; use sys.set_int_max_str_digits() to increase the limit"

/-- What is said about a value that its place cannot take. -/
def ValueFault.message : ValueFault → String
  | .notHexadecimal sortName =>
    "Unknown format code 'x' for object of type " ++ Text.quoted sortName
  | .zeroStep => "slice step cannot be zero"
  | .numeralTooLong digits =>
    digitLimitMessage (": value has " ++ Text.decimalOfNat digits ++ " digits")
  | .integerTooLong => digitLimitMessage ""
  | .setting name allowed got =>
    name ++ " must be one of " ++ ", ".intercalate allowed ++ "; got " ++ Text.quoted got ++ "."
  | .reported message => message

/-- A text, unless an integer in it is not writable. -/
def writtenIf (writable : Bool) (text : String) : Except ValueFault String :=
  if writable then .ok text else .error .integerTooLong

/-- What stops an operation. -/
inductive Failure where
  /-- An error of the markup. -/
  | compile (e : CompileError)
  /-- A value that its place cannot take. -/
  | value (fault : ValueFault)
  /-- A second call of a one-shot, whose action is shown. -/
  | alreadyFired (action : String)
  /-- A value used as what it is not. -/
  | wrongType
  /-- A copy of a move-only value, whose sort is named. -/
  | moveOnlyCopy (sortName : String)
  /-- A name that a fixed table does not list. -/
  | unknownName (name : String)
  /-- A position outside a row; `row` says what sort of row it is. -/
  | outOfRange (row : String)
  /-- A part that a value does not have. -/
  | missingPart
  /-- Something fed to a compiler that is not a word. -/
  | notAWord
  /-- An integer too large for a floating-point number. -/
  | tooLarge
  /-- Text that the output cannot take. -/
  | notEncodable
  /-- The end of the whole run. -/
  | exit (status : Nat)
  deriving DecidableEq

/-- What is said about a failure, where there is anything to say. -/
def Failure.message : Failure → Option String
  | .compile e => some e.message
  | .value fault => some fault.message
  | .alreadyFired action => some ("OneShot(" ++ action ++ ") was already fired.")
  | .moveOnlyCopy sortName => some (sortName ++ " is move-only and can't be copied.")
  | .unknownName name => some (Text.quoted name)
  | .outOfRange row => some (row ++ " index out of range")
  | .exit status => some (Text.decimalOfNat status)
  | _ => none

end MarkupSpans
