import MarkupSpans.NameMap
import MarkupSpans.Report.Layout

/-!
# Reports

A reporter prints what it is told unless it has printed the same text before, counts the reports
by category, and ends the run after a grave one, at once or when asked.
-/

set_option autoImplicit false

namespace MarkupSpans

open Report

/-- The state of reporting. -/
structure Reporter where
  settings : Settings
  /-- Whether the output takes ASCII only. -/
  asciiOutput : Bool := false
  /-- The distinct reports so far, printed or not, the latest first. -/
  seen : List Rendered := []
  /-- The number of distinct reports of each category. -/
  counts : NameMap Nat := ∅
  output : String := ""

namespace Reporter

/-- A reporter of its own with changed settings and nothing seen. -/
def nested (r : Reporter) (changes : SettingChanges) (asciiOutput : Bool) :
    Except ValueFault Reporter :=
  (r.settings.change changes).map fun settings => { settings, asciiOutput }

/-- Prints a text on a line of its own, if the output takes it. -/
def write (text : String) (r : Reporter) : Except Failure Unit × Reporter :=
  if r.asciiOutput && !isAscii text then (.error .notEncodable, r)
  else (.ok (), { r with output := r.output ++ text ++ "\n" })

/-- Prints a report, in its second form where the first one is not wanted or not taken. -/
def print (report : Rendered) (r : Reporter) : Except Failure Unit × Reporter :=
  match r.write (if r.settings.asciiOnly then report.ascii else report.fancy) with
  | (.ok (), r') => (.ok (), r')
  | (.error _, r') => r'.write report.ascii

/-- Whether reports of a category end the run at a moment; `early` is the moment of the report. -/
def shouldDie (r : Reporter) (category : String) (timing : Timing) : Except Failure Bool :=
  if r.settings.dieWhen = .never ∨ (r.settings.dieWhen = .late ∧ timing = .early) then .ok false
  else
    match Level.ofName? category with
    | some level => .ok (decide (r.settings.dieOn.rank ≤ level.rank))
    | none => .error (.unknownName category)

/-- Whether reports of a category are printed; notices of failure are, unless all is silent. -/
def shouldPrint (r : Reporter) (category : String) : Except Failure Bool :=
  if r.settings.silent then .ok false
  else if category = "failure" then .ok true
  else
    match Level.ofName? category with
    | some level => .ok (decide (r.settings.printOn.rank ≤ level.rank))
    | none => .error (.unknownName category)

/-- Remembers a report and counts it. -/
def record (category : String) (report : Rendered) (r : Reporter) : Reporter :=
  { r with
    seen := report :: r.seen
    counts := r.counts.insert category ((r.counts.get? category).getD 0 + 1) }

/-- Prints the notice of a failure. -/
def failure (text : String) (r : Reporter) : Except Failure Unit × Reporter :=
  if r.settings.silent then (.ok (), r)
  else r.print (render r.settings.printMode "failure" text none)

/-- Ends the run, with a notice. -/
def exitNow (r : Reporter) : Except Failure Unit × Reporter :=
  match r.failure "Did not compile, due to errors exceeding the allowed error level." with
  | (.ok (), r') => (.error (.exit 2), r')
  | (.error e, r') => (.error e, r')

/-- Remembers a report that has not been seen before, and prints it if its category is wanted. -/
def announce (category : String) (report : Rendered) (r : Reporter) :
    Except Failure Unit × Reporter :=
  if report ∈ r.seen then (.ok (), r)
  else
    let r' := r.record category report
    match r'.shouldPrint category with
    | .ok true => r'.print report
    | .ok false => (.ok (), r')
    | .error e => (.error e, r')

/-- Reports something in the form that it is printed in, and ends the run if it is grave enough to
end it at once. -/
def reportAs (category : String) (report : Rendered) (r : Reporter) :
    Except Failure Unit × Reporter :=
  match r.announce category report with
  | (.error e, r') => (.error e, r')
  | (.ok (), r') =>
    match r'.shouldDie category .early with
    | .ok true => r'.exitNow
    | .ok false => (.ok (), r')
    | .error e => (.error e, r')

/-- Reports something. -/
def report (category text : String) (line : Option LineRef) (r : Reporter) :
    Except Failure Unit × Reporter :=
  r.reportAs category (render r.settings.printMode category text line)

/-- Reports a failure. -/
def die (text : String) (line : Option LineRef) (r : Reporter) : Except Failure Unit × Reporter :=
  r.report "fatal" text line

/-- Reports something that need not stop the run. -/
def warn (text : String) (line : Option LineRef) (r : Reporter) :
    Except Failure Unit × Reporter :=
  r.report "warning" text line

/-- Reports something in JSON, where the text and the place may hold halves of pairs of
surrogates; nothing is reported if the place cannot be written. -/
def reportJson (category : String) (text : CodeText) (line : Option LineValue) (r : Reporter) :
    Except Failure Unit × Reporter :=
  match (line.map LineValue.json).getD (.ok "null") with
  | .ok place => r.reportAs category (.single (jsonReport category text place))
  | .error fault => (.error (.value fault), r)

/-- Where reports are in JSON, they are the same for texts of characters and places that can be
written. -/
theorem reportJson_ofString {r : Reporter} (hjson : r.settings.printMode = .json)
    (category text : String) (line : Option LineRef) :
    r.reportJson category (.ofString text) (line.map LineRef.value) =
      r.report category text line := by
  have hplace : ((line.map LineRef.value).map LineValue.json).getD (.ok "null") =
      .ok ((line.map LineRef.json).getD "null") := by
    cases line with
    | none => rfl
    | some ref => exact ref.json_value
  rw [reportJson, hplace, report, hjson, render, if_pos rfl]

/-- Reports an error of the markup as a failure. -/
def dieFromError (e : CompileError) (r : Reporter) : Except Failure Unit × Reporter :=
  r.die (e.kind.name ++ ": " ++ e.message) (e.loc.map .text)

/-- Ends the run if a category that was reported ends it at a moment. -/
def checkCategories (timing : Timing) (r : Reporter) :
    List String → Except Failure Unit × Reporter
  | [] => (.ok (), r)
  | category :: rest =>
    match r.shouldDie category timing with
    | .ok true => r.exitNow
    | .ok false => r.checkCategories timing rest
    | .error e => (.error e, r)

/-- Ends the run if what has been reported so far is grave enough to end it at a moment. -/
def check (timing : Timing) (r : Reporter) : Except Failure Unit × Reporter :=
  r.checkCategories timing r.counts.names

end Reporter

end MarkupSpans
