import MarkupSpans.Report.Json
import MarkupSpans.Report.Settings

/-!
# The layout of reports

The text of one report in each of the print modes.  The notice of a failure has two forms, of
which the second one is for outputs that take ASCII only.
-/

set_option autoImplicit false

namespace MarkupSpans.Report

/-- What a report says about its place: a text or a number. -/
inductive LineRef where
  | text (place : String)
  | number (n : Text.WritableInt)
  deriving DecidableEq

/-- A whole number as a place; one of too many digits cannot be said. -/
def LineRef.ofInt (n : Int) : Except ValueFault LineRef :=
  if h : Text.isWritable n = true then .ok (.number ⟨n, h⟩) else .error .integerTooLong

/-- The place as plain text. -/
def LineRef.plain : LineRef → String
  | .text place => place
  | .number n => Text.decimalOfInt n

/-- The place as a value of JSON. -/
def LineRef.json : LineRef → String
  | .text place => Json.string (.ofString place)
  | .number n => Text.decimalOfInt n

/-- A place as it is given, before it is known to have a written form. -/
inductive LineValue where
  | text (place : CodeText)
  | number (n : Int)
  deriving DecidableEq

/-- The place as a value of JSON, if it can be written. -/
def LineValue.json : LineValue → Except ValueFault String
  | .text place => .ok (Json.string place)
  | .number n => writtenIf (Text.isWritable n) (Text.decimalOfInt n)

/-- A place that can be written, as it is given. -/
def LineRef.value : LineRef → LineValue
  | .text place => .text (.ofString place)
  | .number n => .number n.val

/-- A place that can be written is written in one way. -/
theorem LineRef.json_value (line : LineRef) : line.value.json = .ok line.json := by
  cases line with
  | text place => rfl
  | number n => exact if_pos n.property

/-- A report ready to be printed. -/
inductive Rendered where
  /-- One form for all outputs. -/
  | single (text : String)
  /-- A form for all outputs, and one for those that take ASCII only. -/
  | dual (fancy ascii : String)
  deriving DecidableEq

/-- A text in which each character beyond ASCII is a question mark. -/
def toAscii (text : String) : String :=
  String.ofList (text.toList.map fun c => if c.toNat < 0x80 then c else '?')

/-- Whether a text is ASCII. -/
def isAscii (text : String) : Bool := text.toList.all fun c => c.toNat < 0x80

/-- The form of a report for outputs that take everything. -/
def Rendered.fancy : Rendered → String
  | .single text => text
  | .dual fancy _ => fancy

/-- The form of a report for outputs that take ASCII only. -/
def Rendered.ascii : Rendered → String
  | .single text => toAscii text
  | .dual _ ascii => ascii

/-- The code of a console for red. -/
def redCode : Nat := 31

/-- The code of a console for light cyan. -/
def lightCyanCode : Nat := 96

/-- The code of a console for bold text. -/
def boldCode : Nat := 1

/-- The code of a console for inverted text. -/
def invertCode : Nat := 7

/-- The colours of a console by name, with their codes. -/
def consoleColors : List (String × Nat) := [("red", redCode), ("light cyan", lightCyanCode)]

/-- The styles of a console by name, with their codes. -/
def consoleStyles : List (String × Nat) := [("bold", boldCode), ("invert", invertCode)]

/-- A text with the codes of a console around it. -/
def withCodes (codes : List Nat) (text : String) : String :=
  "\x1b[" ++ ";".intercalate (codes.map Text.decimalOfNat) ++ "m" ++ text ++ "\x1b[0m"

/-- The code that a table gives a name. -/
def codeOf (table : List (String × Nat)) (name : String) : Except Failure Nat :=
  match table.lookup name with
  | some code => .ok code
  | none => .error (.unknownName name)

/-- A text in a colour and in some styles, given by name; only a console shows them. -/
def paint (mode : PrintMode) (text color : String) (styles : List String) :
    Except Failure String :=
  if mode = .console then do
    let styleCodes ← styles.mapM (codeOf consoleStyles)
    let colorCode ← codeOf consoleColors color
    return withCodes (styleCodes ++ [colorCode]) text
  else .ok text

/-- A text with codes around it on a console, and without them elsewhere. -/
def highlight (mode : PrintMode) (codes : List Nat) (text : String) : String :=
  if mode = .console then withCodes codes text else text

/-- Colours and styles that have codes are shown by them. -/
theorem paint_eq_highlight (mode : PrintMode) (text : String) {color : String} (code : Nat)
    {styles : List String} (codes : List Nat) (hcolor : codeOf consoleColors color = .ok code)
    (hstyles : styles.mapM (codeOf consoleStyles) = .ok codes) :
    paint mode text color styles = .ok (highlight mode (codes ++ [code]) text) := by
  rw [paint, highlight]
  split
  · rw [hstyles, hcolor]
    rfl
  · rfl

/-- The colours of the notice of a failure. -/
example (mode : PrintMode) (sign : String) :
    paint mode sign "red" ["invert"] = .ok (highlight mode [invertCode, redCode] sign) :=
  paint_eq_highlight mode sign redCode [invertCode] rfl rfl

/-- The colours of a warning. -/
example (mode : PrintMode) (front : String) :
    paint mode front "light cyan" ["bold"] = .ok (highlight mode [boldCode, lightCyanCode] front) :=
  paint_eq_highlight mode front lightCyanCode [boldCode] rfl rfl

/-- The text in front of a report: its place, or how grave it is. -/
def heading (category : String) : Option LineRef → String
  | some line => "LINE " ++ line.plain
  | none => if category = "fatal" then "FATAL ERROR" else "WARNING"

/-- One report in JSON, whose place is written already. -/
def jsonReport (category : String) (text : CodeText) (place : String) : String :=
  Json.object [("lineNum", place), ("messageType", Json.string (.ofString category)),
    ("text", Json.string text)]

/-- One report in a print mode. -/
def render (mode : PrintMode) (category text : String) (line : Option LineRef) : Rendered :=
  if mode = .json then
    .single (jsonReport category (.ofString text) ((line.map LineRef.json).getD "null"))
  else if category = "failure" then
    let mark (sign : String) : String := highlight mode [invertCode, redCode] sign
    .dual (mark " ✘ " ++ " " ++ text) (mark "ERR" ++ " " ++ text)
  else
    let color := if category = "fatal" then redCode else lightCyanCode
    .single (highlight mode [boldCode, color] (heading category line ++ ":") ++ " " ++ text)

end MarkupSpans.Report
