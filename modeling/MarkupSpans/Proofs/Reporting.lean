import Mathlib.Algebra.GroupWithZero.Nat
import Mathlib.Data.Finset.Card
import Mathlib.Data.Finset.Dedup
import MarkupSpans.Proofs.Delivering

/-!
# Reporters over a run

What a reporter remembers and prints while it is told of reports and failures.  `Reporter.Behind`
says what is remembered of the calls so far; it is kept on every output, as a report is put into
another form where the output does not take it.  On an output that takes everything one call adds
the line that `ReportCall.line?` tells from the calls in front of it, or it ends the run with a
notice, and `Reporter.output_of_calls` says so of whole runs.
-/

set_option autoImplicit false

namespace MarkupSpans

open Report

namespace Report

/-- The categories that reports come in. -/
inductive Category where
  | warning
  | fatal
  deriving DecidableEq

/-- The level of a category. -/
def Category.level : Category → Level
  | .warning => .warning
  | .fatal => .fatal

/-- The name of a category, which is that of its level. -/
def Category.name (c : Category) : String := c.level.name

/-- The level of a category is found by its name. -/
theorem Category.ofName?_name (c : Category) : Level.ofName? c.name = some c.level := by
  cases c <;> decide

/-- Categories are told apart by their names. -/
theorem Category.name_inj {c c' : Category} (h : c.name = c'.name) : c = c' := by
  cases c <;> cases c' <;> first | rfl | exact absurd h (by decide)

/-- No report has the category of notices of failure. -/
theorem Category.name_ne_failure (c : Category) : c.name ≠ "failure" := by
  cases c <;> decide

end Report

/-! ## Calls -/

/-- A report as its caller tells it. -/
structure Told where
  category : Category
  text : String
  line : Option LineRef

/-- A report that is grave enough to end the run, sooner or later or never. -/
def Told.Grave (s : Settings) (told : Told) : Prop := s.dieOn.rank ≤ told.category.level.rank

instance (s : Settings) (told : Told) : Decidable (told.Grave s) :=
  inferInstanceAs (Decidable (_ ≤ _))

/-- A report as it is printed. -/
def Told.rendered (mode : PrintMode) (told : Told) : Rendered :=
  render mode told.category.name told.text told.line

/-- The line of a notice of failure. -/
def noticeLine (s : Settings) (text : String) : String :=
  (render s.printMode "failure" text none).fancy

/-- What a caller tells a reporter. -/
inductive ReportCall where
  | report (told : Told)
  /-- The notice of a failure. -/
  | failure (text : String)

namespace ReportCall

/-- The report of a call, as it is printed; the notice of a failure is none. -/
def rendered? (mode : PrintMode) : ReportCall → Option Rendered
  | .report told => some (told.rendered mode)
  | .failure _ => none

/-- A call that ends the run at once. -/
def Deadly (s : Settings) : ReportCall → Prop
  | .report told => s.dieWhen = .early ∧ told.Grave s
  | .failure _ => False

instance (s : Settings) : (call : ReportCall) → Decidable (call.Deadly s)
  | .report told => inferInstanceAs (Decidable (s.dieWhen = .early ∧ told.Grave s))
  | .failure _ => inferInstanceAs (Decidable False)

/-- The line of a call behind others, where not all is silent: that of a report which differs from
all those in front of it and is high enough, and that of every notice of failure. -/
def line? (s : Settings) (before : List ReportCall) : ReportCall → Option String
  | .report told =>
    if told.rendered s.printMode ∉ before.filterMap (rendered? s.printMode) ∧
        s.printOn.rank ≤ told.category.level.rank then
      some (told.rendered s.printMode).fancy
    else none
  | .failure text => some (noticeLine s text)

end ReportCall

/-- The reports of some calls, as they are printed, with repetitions. -/
def reportsOf (mode : PrintMode) (calls : List ReportCall) : List Rendered :=
  calls.filterMap (ReportCall.rendered? mode)

/-- The lines of some calls behind others. -/
def linesBehind (s : Settings) : List ReportCall → List ReportCall → List String
  | _, [] => []
  | before, call :: rest =>
    (call.line? s before).toList ++ linesBehind s (before ++ [call]) rest

/-- Some lines as they are printed, one print each; nothing is, if all is silent. -/
def printed (s : Settings) (lines : List String) : String :=
  if s.silent then "" else String.join (lines.map (· ++ "\n"))

/-- The text of the notice that the run has ended. -/
def exitText : String := "Did not compile, due to errors exceeding the allowed error level."

namespace Reporter

/-- A reporter whose output goes on with a text. -/
def followedBy (text : String) (r : Reporter) : Reporter := { r with output := r.output ++ text }

/-- The output goes on with the text. -/
@[simp]
theorem output_followedBy (text : String) (r : Reporter) :
    (r.followedBy text).output = r.output ++ text := rfl

/-- Remembering a report prints nothing. -/
@[simp]
theorem output_record (category : String) (report : Rendered) (r : Reporter) :
    (r.record category report).output = r.output := rfl

/-- Tells a reporter of a report. -/
def tell (told : Told) (r : Reporter) : Except Failure Unit × Reporter :=
  match told.category with
  | .warning => r.warn told.text told.line
  | .fatal => r.die told.text told.line

/-- One call. -/
def perform (call : ReportCall) (r : Reporter) : Except Failure Unit × Reporter :=
  match call with
  | .report told => r.tell told
  | .failure text => r.failure text

/-- Calls in order, until one ends the run. -/
def performAll : List ReportCall → Reporter → Except Failure Unit × Reporter
  | [], r => (.ok (), r)
  | call :: rest, r =>
    match r.perform call with
    | (.error e, r') => (.error e, r')
    | (.ok (), r') => performAll rest r'

/-- Nothing has been seen or counted. -/
structure Clean (r : Reporter) : Prop where
  seen_eq : r.seen = []
  counts_eq : r.counts = ∅

/-- The output takes all texts, and they are wanted as they are. -/
structure TakesAll (r : Reporter) : Prop where
  asciiOutput_eq : r.asciiOutput = false
  asciiOnly_eq : r.settings.asciiOnly = false

/-! ## The parts of a call -/

/-- Reports of both categories are made in one way. -/
theorem tell_eq (told : Told) (r : Reporter) :
    r.tell told = r.report told.category.name told.text told.line := by
  unfold tell
  cases told.category <;> rfl

/-- A report has one form. -/
theorem rendered_single (mode : PrintMode) (told : Told) :
    ∃ form, told.rendered mode = .single form := by
  unfold Told.rendered render
  rw [if_neg told.category.name_ne_failure]
  split <;> exact ⟨_, rfl⟩

/-- A report ends the run at once where runs end early and it is grave enough. -/
theorem shouldDie_early (r : Reporter) (c : Category) :
    r.shouldDie c.name .early =
      .ok (decide (r.settings.dieWhen = .early ∧ r.settings.dieOn.rank ≤ c.level.rank)) := by
  unfold shouldDie
  rw [c.ofName?_name]
  cases h : r.settings.dieWhen <;> simp

/-- Where runs end late, a category ends them if it is grave enough. -/
theorem shouldDie_late {r : Reporter} (h : r.settings.dieWhen = .late) (c : Category) :
    r.shouldDie c.name .late = .ok (decide (r.settings.dieOn.rank ≤ c.level.rank)) := by
  unfold shouldDie
  rw [c.ofName?_name, h]
  rfl

/-- A report is printed if not all is silent and it is high enough. -/
theorem shouldPrint_category (r : Reporter) (c : Category) :
    r.shouldPrint c.name =
      .ok (decide (r.settings.silent = false ∧ r.settings.printOn.rank ≤ c.level.rank)) := by
  unfold shouldPrint
  rw [c.ofName?_name, if_neg c.name_ne_failure]
  cases h : r.settings.silent <;> simp

/-- Printing changes the output and nothing else. -/
theorem write_snd (text : String) (r : Reporter) :
    ∃ output, (r.write text).2 = { r with output } := by
  unfold write
  split <;> exact ⟨_, rfl⟩

/-- Printing a report changes the output and nothing else. -/
theorem print_snd (report : Rendered) (r : Reporter) :
    ∃ output, (r.print report).2 = { r with output } := by
  obtain ⟨output, hfirst⟩ :=
    r.write_snd (if r.settings.asciiOnly then report.ascii else report.fancy)
  unfold print
  split
  case h_1 r' hwrite =>
    rw [hwrite] at hfirst
    exact ⟨output, hfirst⟩
  case h_2 r' hwrite =>
    rw [hwrite] at hfirst
    obtain ⟨output', hsecond⟩ := r'.write_snd report.ascii
    refine ⟨output', ?_⟩
    rw [hsecond, show r' = { r with output } from hfirst]

/-- An output that takes everything gets the first form of a report. -/
theorem print_of_takesAll {r : Reporter} (h : r.TakesAll) (report : Rendered) :
    r.print report = (.ok (), r.followedBy (report.fancy ++ "\n")) := by
  simp [print, write, followedBy, h.asciiOutput_eq, h.asciiOnly_eq, String.append_assoc]

/-- The second form of the notice that the run has ended is ASCII. -/
theorem isAscii_exitNotice (mode : PrintMode) :
    isAscii (render mode "failure" exitText none).ascii = true := by
  have hinvert : Text.decimalOfNat invertCode = "7" := by decide
  have hred : Text.decimalOfNat redCode = "31" := by decide
  have hexit : ∀ c ∈ exitText.toList, c.toNat < 0x80 := by simp [exitText]
  unfold render
  split
  · exact isAscii_toAscii _
  · rw [if_pos rfl]
    unfold highlight
    split <;> simpa [withCodes, hinvert, hred, Rendered.ascii, isAscii] using hexit

/-- The notice that the run has ended can be printed on every output. -/
theorem exitNow_fst (r : Reporter) : r.exitNow.1 = .error (.exit 2) := by
  have hnotice : (r.failure exitText).1 = .ok () := by
    unfold failure
    split
    · rfl
    · unfold print
      split
      · rfl
      · simp [write, isAscii_exitNotice]
  unfold exitNow
  split
  case h_1 => rfl
  case h_2 e r' hfailure =>
    rw [exitText, hfailure] at hnotice
    cases hnotice

/-! ## What is remembered -/

/-- A report of a category has been counted: one that differs from all in front of it. -/
def Counted (mode : PrintMode) (calls : List ReportCall) (c : Category) : Prop :=
  ∃ before told after, calls = before ++ .report told :: after ∧ told.category = c ∧
    told.rendered mode ∉ reportsOf mode before

/-- The reporter remembers the calls that a clean one has been told of. -/
structure Behind (start : Reporter) (calls : List ReportCall) (r : Reporter) : Prop where
  settings_eq : r.settings = start.settings
  asciiOutput_eq : r.asciiOutput = start.asciiOutput
  mem_seen_iff : ∀ report, report ∈ r.seen ↔ report ∈ reportsOf start.settings.printMode calls
  nodup_seen : r.seen.Nodup
  sum_counts : (r.counts.entries.map Prod.snd).sum = r.seen.length
  mem_names_iff : ∀ name, name ∈ r.counts.names ↔
    ∃ c : Category, c.name = name ∧ Counted start.settings.printMode calls c

/-- A clean reporter remembers no calls. -/
theorem Clean.behind {r : Reporter} (h : r.Clean) : Behind r [] r where
  settings_eq := rfl
  asciiOutput_eq := rfl
  mem_seen_iff := by simp [h.seen_eq, reportsOf]
  nodup_seen := by simp [h.seen_eq]
  sum_counts := by simp [h.seen_eq, h.counts_eq, EmptyCollection.emptyCollection, NameMap.empty]
  mem_names_iff := by
    simp [h.counts_eq, EmptyCollection.emptyCollection, NameMap.empty, NameMap.names, Counted]

/-- One call more counts a category if its report differs from all in front of it. -/
theorem counted_concat_iff (mode : PrintMode) (calls : List ReportCall) (call : ReportCall)
    (c : Category) :
    Counted mode (calls ++ [call]) c ↔ Counted mode calls c ∨
      ∃ told, call = .report told ∧ told.category = c ∧
        told.rendered mode ∉ reportsOf mode calls := by
  constructor
  · rintro ⟨before, told, after, hcalls, hc, hnew⟩
    rcases List.eq_nil_or_concat after with rfl | ⟨after', last, rfl⟩
    · obtain ⟨rfl, hcall⟩ := List.append_inj' hcalls rfl
      exact .inr ⟨told, List.singleton_inj.mp hcall, hc, hnew⟩
    · rw [List.concat_eq_append, ← List.cons_append, ← List.append_assoc] at hcalls
      obtain ⟨rfl, -⟩ := List.append_inj' hcalls rfl
      exact .inl ⟨before, told, after', rfl, hc, hnew⟩
  · rintro (⟨before, told, after, rfl, hc, hnew⟩ | ⟨told, rfl, hc, hnew⟩)
    · exact ⟨before, told, after ++ [call], by simp, hc, hnew⟩
    · exact ⟨calls, told, [], rfl, hc, hnew⟩

/-- Counting once more adds one to the sum of the counts. -/
theorem sum_insert_succ (counts : NameMap Nat) (name : String) :
    ((counts.insert name ((counts.get? name).getD 0 + 1)).entries.map Prod.snd).sum =
      (counts.entries.map Prod.snd).sum + 1 := by
  show ((NameMap.insertEntry name ((counts.entries.lookup name).getD 0 + 1)
    counts.entries).map Prod.snd).sum = _
  induction counts.entries with
  | nil => rfl
  | cons entry rest ih =>
    rw [NameMap.lookup_cons_entry, NameMap.insertEntry]
    by_cases h : entry.1 = name
    · simp [h]
      omega
    · rw [if_neg h, if_neg (Ne.symm h), List.map_cons, List.map_cons, List.sum_cons,
        List.sum_cons, ih]
      omega

namespace Behind

variable {start r : Reporter} {calls : List ReportCall}

/-- Nothing but the output changes. -/
theorem of_output (h : Behind start calls r) (output : String) :
    Behind start calls { r with output } :=
  ⟨h.settings_eq, h.asciiOutput_eq, h.mem_seen_iff, h.nodup_seen, h.sum_counts, h.mem_names_iff⟩

/-- The notice of a failure is not remembered. -/
theorem failure (h : Behind start calls r) (text : String) :
    Behind start (calls ++ [.failure text]) r where
  settings_eq := h.settings_eq
  asciiOutput_eq := h.asciiOutput_eq
  mem_seen_iff := by simpa [reportsOf, ReportCall.rendered?] using h.mem_seen_iff
  nodup_seen := h.nodup_seen
  sum_counts := h.sum_counts
  mem_names_iff := by
    intro name
    simp only [counted_concat_iff]
    simpa using h.mem_names_iff name

/-- A report that has been seen before adds nothing. -/
theorem repeated (h : Behind start calls r) {told : Told}
    (hseen : told.rendered start.settings.printMode ∈ r.seen) :
    Behind start (calls ++ [.report told]) r where
  settings_eq := h.settings_eq
  asciiOutput_eq := h.asciiOutput_eq
  mem_seen_iff := by
    intro report
    rw [h.mem_seen_iff] at hseen ⊢
    simp only [reportsOf, List.filterMap_append, List.mem_append]
    constructor
    · exact .inl
    · rintro (hold | hnew)
      · exact hold
      · simp only [ReportCall.rendered?, List.filterMap_cons, List.filterMap_nil,
          List.mem_singleton] at hnew
        rw [hnew]
        exact hseen
  nodup_seen := h.nodup_seen
  sum_counts := h.sum_counts
  mem_names_iff := by
    intro name
    rw [h.mem_seen_iff] at hseen
    simp only [counted_concat_iff, h.mem_names_iff]
    constructor
    · rintro ⟨c, hname, hcounted⟩
      exact ⟨c, hname, .inl hcounted⟩
    · rintro ⟨c, hname, hcounted | ⟨other, hother, -, hnew⟩⟩
      · exact ⟨c, hname, hcounted⟩
      · cases hother
        exact absurd hseen hnew

/-- A new report is remembered and counted. -/
theorem record (h : Behind start calls r) {told : Told}
    (hnew : told.rendered start.settings.printMode ∉ r.seen) :
    Behind start (calls ++ [.report told])
      (r.record told.category.name (told.rendered start.settings.printMode)) where
  settings_eq := h.settings_eq
  asciiOutput_eq := h.asciiOutput_eq
  mem_seen_iff := by
    intro report
    show report ∈ _ :: r.seen ↔ _
    rw [List.mem_cons, h.mem_seen_iff]
    simp [reportsOf, ReportCall.rendered?, or_comm]
  nodup_seen := List.nodup_cons.mpr ⟨hnew, h.nodup_seen⟩
  sum_counts := by
    show ((r.counts.insert _ _).entries.map Prod.snd).sum = r.seen.length + 1
    rw [sum_insert_succ, h.sum_counts]
  mem_names_iff := by
    intro name
    show name ∈ (r.counts.insert _ _).names ↔ _
    rw [h.mem_seen_iff] at hnew
    have hnames : name ∈ (r.counts.insert told.category.name
        ((r.counts.get? told.category.name).getD 0 + 1)).names ↔
          name ∈ r.counts.names ∨ told.category.name = name := by
      rw [NameMap.names_insert]
      split
      case isTrue hmem => exact ⟨.inl, fun hor => hor.elim id fun heq => heq ▸ hmem⟩
      case isFalse => simp [eq_comm]
    rw [hnames, h.mem_names_iff]
    simp only [counted_concat_iff]
    constructor
    · rintro (⟨c, hname, hcounted⟩ | hname)
      · exact ⟨c, hname, .inl hcounted⟩
      · exact ⟨told.category, hname, .inr ⟨told, rfl, rfl, hnew⟩⟩
    · rintro ⟨c, hname, hcounted | ⟨other, hother, rfl, -⟩⟩
      · exact .inl ⟨c, hname, hcounted⟩
      · cases hother
        exact .inr hname

/-- Announcing a report never fails, on whatever output. -/
theorem announce (h : Behind start calls r) (told : Told) :
    let result := r.announce told.category.name (told.rendered start.settings.printMode)
    result.1 = .ok () ∧ Behind start (calls ++ [.report told]) result.2 := by
  obtain ⟨form, hform⟩ := rendered_single start.settings.printMode told
  by_cases hseen : told.rendered start.settings.printMode ∈ r.seen
  · simp only [Reporter.announce, if_pos hseen]
    exact ⟨trivial, h.repeated hseen⟩
  · have hrecord := h.record hseen
    simp only [Reporter.announce, if_neg hseen, shouldPrint_category]
    split
    · rw [hform] at hrecord ⊢
      obtain ⟨r', hprint, -⟩ := (r.record told.category.name (.single form)).print_single form
      obtain ⟨output, hsnd⟩ := (r.record told.category.name (.single form)).print_snd (.single form)
      rw [hsnd, hprint]
      exact ⟨rfl, hrecord.of_output output⟩
    · exact ⟨rfl, hrecord⟩
    · contradiction

/-- A report is announced, and then it ends the run or not. -/
theorem tell_eq (h : Behind start calls r) (told : Told) :
    ∃ r', (r.announce told.category.name (told.rendered start.settings.printMode)).2 = r' ∧
      Behind start (calls ++ [.report told]) r' ∧
      r.tell told =
        if (ReportCall.report told).Deadly start.settings then r'.exitNow else (.ok (), r') := by
  obtain ⟨hok, hbehind⟩ := h.announce told
  refine ⟨_, rfl, hbehind, ?_⟩
  rw [Reporter.tell_eq, Reporter.report, Reporter.reportAs, h.settings_eq]
  rcases hannounce : r.announce told.category.name (told.rendered start.settings.printMode)
    with ⟨result, r'⟩
  rw [hannounce] at hok hbehind
  rw [Told.rendered] at hannounce
  have hsettings : r'.settings = start.settings := hbehind.settings_eq
  have hdie := r'.shouldDie_early told.category
  rw [hsettings] at hdie
  rw [hannounce, show result = .ok () from hok]
  simp only [hdie]
  by_cases hdeadly : start.settings.dieWhen = .early ∧
      start.settings.dieOn.rank ≤ told.category.level.rank
  · rw [if_pos (show (ReportCall.report told).Deadly _ from hdeadly), decide_eq_true hdeadly]
  · rw [if_neg (show ¬ (ReportCall.report told).Deadly _ from hdeadly), decide_eq_false hdeadly]

end Behind

/-! ## What is printed -/

/-- Lines in a row are printed one after another. -/
theorem printed_append (s : Settings) (lines more : List String) :
    printed s (lines ++ more) = printed s lines ++ printed s more := by
  unfold printed
  split
  · rfl
  · rw [List.map_append, String.join_append]

/-- One line is printed with a line feed, or not at all. -/
theorem printed_singleton (s : Settings) (line : String) :
    printed s [line] = if s.silent then "" else line ++ "\n" := by
  simp [printed]

/-- The lines of calls in a row follow one another. -/
theorem linesBehind_append (s : Settings) (before calls more : List ReportCall) :
    linesBehind s before (calls ++ more) =
      linesBehind s before calls ++ linesBehind s (before ++ calls) more := by
  induction calls generalizing before with
  | nil => simp [linesBehind]
  | cons call rest ih =>
    rw [List.cons_append, linesBehind, linesBehind, ih, List.append_assoc, List.append_assoc]
    rfl

/-- An output that takes everything gets the first form of a notice of failure. -/
theorem failure_of_takesAll {r : Reporter} (h : r.TakesAll) (text : String) :
    r.failure text =
      (.ok (), r.followedBy (printed r.settings [noticeLine r.settings text])) := by
  unfold failure
  rw [printed_singleton]
  split
  · simp [followedBy]
  · rw [print_of_takesAll h, noticeLine]

/-- The end of a run is noticed in the first form on an output that takes everything. -/
theorem exitNow_of_takesAll {r : Reporter} (h : r.TakesAll) :
    r.exitNow =
      (.error (.exit 2), r.followedBy (printed r.settings [noticeLine r.settings exitText])) := by
  unfold exitNow
  have hfailure := failure_of_takesAll h exitText
  rw [exitText] at hfailure
  rw [hfailure]
  rfl

namespace Behind

variable {start r : Reporter} {calls : List ReportCall}

/-- Calls do not change what the output takes. -/
theorem takesAll (h : Behind start calls r) (hopen : start.TakesAll) : r.TakesAll where
  asciiOutput_eq := h.asciiOutput_eq.trans hopen.asciiOutput_eq
  asciiOnly_eq := by rw [h.settings_eq, hopen.asciiOnly_eq]

/-- Announcing a report prints its line, if it has one. -/
theorem output_announce (h : Behind start calls r) (hopen : start.TakesAll) (told : Told) :
    (r.announce told.category.name (told.rendered start.settings.printMode)).2.output =
      r.output ++ printed start.settings
        ((ReportCall.report told).line? start.settings calls).toList := by
  have hseen := h.mem_seen_iff (told.rendered start.settings.printMode)
  rw [reportsOf] at hseen
  simp only [ReportCall.line?, ← hseen]
  by_cases hmem : told.rendered start.settings.printMode ∈ r.seen
  · simp [Reporter.announce, hmem, printed]
  · have hrecord : (r.record told.category.name
        (told.rendered start.settings.printMode)).TakesAll :=
      (h.record hmem).takesAll hopen
    have hsettings : (r.record told.category.name
        (told.rendered start.settings.printMode)).settings = start.settings := h.settings_eq
    simp only [Reporter.announce, if_neg hmem, shouldPrint_category, hsettings]
    by_cases hlevel : start.settings.printOn.rank ≤ told.category.level.rank
    · cases hsilent : start.settings.silent with
      | true => simp [hlevel, printed, hsilent]
      | false =>
        have hprint := congrArg (fun result => result.2.output)
          (print_of_takesAll hrecord (told.rendered start.settings.printMode))
        simpa [hlevel, hmem, printed, hsilent] using hprint
    · simp [hlevel, printed]

/-- On an output that takes everything a call prints its line, if it has one, and then ends the
run with a notice or does not. -/
theorem perform (h : Behind start calls r) (hopen : start.TakesAll) (call : ReportCall) :
    ∃ r', Behind start (calls ++ [call]) r' ∧
      r'.output = r.output ++
        printed start.settings (call.line? start.settings calls).toList ∧
      r.perform call =
        if call.Deadly start.settings then
          (.error (.exit 2),
            r'.followedBy (printed start.settings [noticeLine start.settings exitText]))
        else (.ok (), r') := by
  cases call with
  | report told =>
    obtain ⟨r', hannounce, hbehind, htell⟩ := h.tell_eq told
    have houtput := h.output_announce hopen told
    rw [hannounce] at houtput
    refine ⟨r', hbehind, houtput, ?_⟩
    rw [Reporter.perform, htell, exitNow_of_takesAll (hbehind.takesAll hopen),
      hbehind.settings_eq]
  | failure text =>
    have hfailure := failure_of_takesAll (h.takesAll hopen) text
    rw [h.settings_eq] at hfailure
    exact ⟨_, (h.failure text).of_output _, rfl, hfailure⟩

/-- Calls that do not end the run print their lines. -/
theorem performAll (h : Behind start calls r) (hopen : start.TakesAll) (rest : List ReportCall)
    (hrest : ∀ call ∈ rest, ¬ call.Deadly start.settings) :
    ∃ r', r.performAll rest = (.ok (), r') ∧ Behind start (calls ++ rest) r' ∧
      r'.output = r.output ++ printed start.settings (linesBehind start.settings calls rest) := by
  induction rest generalizing calls r with
  | nil => exact ⟨r, rfl, by simpa using h, by simp [linesBehind, printed]⟩
  | cons call rest ih =>
    obtain ⟨r', hbehind, houtput, hperform⟩ := h.perform hopen call
    rw [if_neg (hrest call List.mem_cons_self)] at hperform
    obtain ⟨r'', hall, hbehind', houtput'⟩ :=
      ih hbehind fun other hmem => hrest other (List.mem_cons_of_mem _ hmem)
    refine ⟨r'', ?_, by simpa using hbehind', ?_⟩
    · rw [Reporter.performAll, hperform]
      exact hall
    · rw [houtput', houtput, linesBehind, printed_append, String.append_assoc]

/-- The counts add up to the number of distinct reports. -/
theorem sum_counts_eq_card (h : Behind start calls r) :
    (r.counts.entries.map Prod.snd).sum =
      (reportsOf start.settings.printMode calls).toFinset.card := by
  rw [h.sum_counts, ← List.toFinset_card_of_nodup h.nodup_seen]
  apply congrArg
  ext report
  rw [List.mem_toFinset, List.mem_toFinset, h.mem_seen_iff]

end Behind

/-- Calls in a row are performed one after another, until one ends the run. -/
theorem performAll_append (calls more : List ReportCall) (r : Reporter) :
    r.performAll (calls ++ more) =
      match r.performAll calls with
      | (.error e, r') => (.error e, r')
      | (.ok (), r') => r'.performAll more := by
  induction calls generalizing r with
  | nil => rfl
  | cons call rest ih =>
    rw [List.cons_append, performAll, performAll]
    rcases r.perform call with ⟨result, r'⟩
    cases result with
    | error e => rfl
    | ok _ => exact ih r'

/-- Calls of which some end the run begin with some that do not and one that does. -/
theorem exists_first_deadly {s : Settings} {calls : List ReportCall}
    (h : ∃ call ∈ calls, call.Deadly s) :
    ∃ before call after, calls = before ++ call :: after ∧
      (∀ earlier ∈ before, ¬ earlier.Deadly s) ∧ call.Deadly s := by
  have hfound : (calls.find? fun call => decide (call.Deadly s)).isSome := by
    rw [List.find?_isSome]
    simpa using h
  obtain ⟨call, hcall⟩ := Option.isSome_iff_exists.mp hfound
  obtain ⟨hdeadly, before, after, hsplit, hbefore⟩ := List.find?_eq_some_iff_append.mp hcall
  exact ⟨before, call, after, hsplit, by simpa using hbefore, by simpa using hdeadly⟩

/-- The first call that ends the run ends it with a notice behind its own line. -/
theorem performAll_of_deadly {r : Reporter} (hclean : r.Clean) (hopen : r.TakesAll)
    {before : List ReportCall} {call : ReportCall} (after : List ReportCall)
    (hbefore : ∀ earlier ∈ before, ¬ earlier.Deadly r.settings) (hcall : call.Deadly r.settings) :
    (r.performAll (before ++ call :: after)).1 = .error (.exit 2) ∧
      (r.performAll (before ++ call :: after)).2.output =
        r.output ++ printed r.settings
          (linesBehind r.settings [] (before ++ [call]) ++ [noticeLine r.settings exitText]) := by
  obtain ⟨mid, hall, hmid, houtput⟩ := hclean.behind.performAll hopen before hbefore
  obtain ⟨r', -, houtput', hperform⟩ := hmid.perform hopen call
  rw [if_pos hcall] at hperform
  rw [performAll_append, hall]
  simp only [Reporter.performAll, hperform, output_followedBy, houtput', houtput]
  refine ⟨trivial, ?_⟩
  simp [linesBehind_append, printed_append, linesBehind, String.append_assoc]

/-- What a reporter prints and counts over a run, on an output that takes everything. -/
theorem output_of_calls (r : Reporter) (hclean : r.Clean) (hopen : r.TakesAll)
    (calls : List ReportCall) :
    let run := r.performAll calls
    -- the run is ended by a report that is grave enough, repeated or not, and by nothing else
    (run.1 = .ok () ↔ ∀ call ∈ calls, ¬ call.Deadly r.settings) ∧
    -- if it is not, each call has printed its line, and each distinct report has been counted
    (run.1 = .ok () →
      run.2.output = r.output ++ printed r.settings (linesBehind r.settings [] calls) ∧
      (run.2.counts.entries.map Prod.snd).sum =
        (reportsOf r.settings.printMode calls).toFinset.card) ∧
    -- and if it is, one notice stands behind what was printed
    ∀ before call after, calls = before ++ call :: after →
      (∀ earlier ∈ before, ¬ earlier.Deadly r.settings) → call.Deadly r.settings →
        run.1 = .error (.exit 2) ∧
        run.2.output = r.output ++ printed r.settings
          (linesBehind r.settings [] (before ++ [call]) ++ [noticeLine r.settings exitText]) := by
  intro run
  have hiff : run.1 = .ok () ↔ ∀ call ∈ calls, ¬ call.Deadly r.settings := by
    constructor
    · intro hok call hmem hdeadly
      obtain ⟨before, first, after, rfl, hbefore, hfirst⟩ :=
        exists_first_deadly ⟨call, hmem, hdeadly⟩
      have hexit := (performAll_of_deadly hclean hopen after hbefore hfirst).1
      rw [show (r.performAll (before ++ first :: after)).1 = .ok () from hok] at hexit
      cases hexit
    · intro hharmless
      obtain ⟨r', hall, -, -⟩ := hclean.behind.performAll hopen calls hharmless
      show (r.performAll calls).1 = .ok ()
      rw [hall]
  refine ⟨hiff, ?_, ?_⟩
  · intro hok
    obtain ⟨r', hall, hbehind, houtput⟩ :=
      hclean.behind.performAll hopen calls (hiff.mp hok)
    simp only [run, hall]
    exact ⟨houtput, hbehind.sum_counts_eq_card⟩
  · rintro before call after rfl hbefore hcall
    exact performAll_of_deadly hclean hopen after hbefore hcall

/-- A new reporter in plain text that ends the run at a moment. -/
def plainReporter (dieWhen : Timing) : Reporter where
  settings := { dieWhen, printMode := .plain }

/-- The first line as a place. -/
def firstLine : LineRef := .number ⟨1, rfl⟩

/-- A warning, a report that prints like it, a notice twice, and one more warning. -/
def repeatingCalls : List ReportCall :=
  [.report ⟨.warning, "a", some firstLine⟩, .report ⟨.fatal, "a", some firstLine⟩,
    .failure "f", .failure "f", .report ⟨.warning, "b", none⟩]

/-- The notice stands there twice and the repeated report once, which ends the run all the same
where it is early. -/
theorem output_of_repeatingCalls :
    ((plainReporter .late).performAll repeatingCalls).2.output =
        "LINE 1: a\n ✘  f\n ✘  f\nWARNING: b\n" ∧
      (((plainReporter .late).performAll repeatingCalls).2.counts.entries.map Prod.snd).sum = 2 ∧
      ((plainReporter .early).performAll repeatingCalls).1 = .error (.exit 2) ∧
      ((plainReporter .early).performAll repeatingCalls).2.output =
        "LINE 1: a\n ✘  Did not compile, due to errors exceeding the allowed error level.\n" := by
  have hclean : ∀ dieWhen, (plainReporter dieWhen).Clean := fun _ => ⟨rfl, rfl⟩
  have hopen : ∀ dieWhen, (plainReporter dieWhen).TakesAll := fun _ => ⟨rfl, rfl⟩
  obtain ⟨hends, hlines, -⟩ :=
    (plainReporter .late).output_of_calls (hclean _) (hopen _) repeatingCalls
  obtain ⟨houtput, hsum⟩ := hlines (hends.mpr (by decide))
  obtain ⟨-, -, hnotice⟩ :=
    (plainReporter .early).output_of_calls (hclean _) (hopen _) repeatingCalls
  obtain ⟨hexit, houtput'⟩ :=
    hnotice [repeatingCalls[0]] repeatingCalls[1] (repeatingCalls.drop 2) rfl (by decide)
      (by decide)
  exact ⟨houtput.trans rfl, hsum.trans (by decide +kernel), hexit, houtput'.trans rfl⟩

end Reporter

end MarkupSpans
