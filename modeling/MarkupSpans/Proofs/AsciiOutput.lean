import MarkupSpans.Proofs.Warnings

/-!
# Reports where only ASCII is wanted or taken

A report has one form for all outputs and one in ASCII, and where only ASCII is wanted or taken the
second one is what is printed.  It is made from the first one, character by character, except in
the notice of a failure, where the sign in front is replaced and the text stays as it is.  So a
notice whose text is not ASCII is refused or printed beyond ASCII (`ReportCall.Spoils`), and all
other calls print their ASCII forms, whatever has been seen and counted before
(`Reporter.ascii_of_calls`).
-/

set_option autoImplicit false

namespace MarkupSpans

open Report

namespace Report

/-- A text in ASCII is its own ASCII form. -/
theorem toAscii_of_isAscii {text : String} (h : isAscii text = true) : toAscii text = text := by
  have hkept : ∀ cs : List Char, (∀ c ∈ cs, c.toNat < 0x80) →
      (cs.map fun c => if c.toNat < 0x80 then c else '?') = cs := by
    intro cs hcs
    conv_rhs => rw [← List.map_id cs]
    exact List.map_congr_left fun c hc => if_pos (hcs c hc)
  rw [isAscii, List.all_eq_true] at h
  rw [toAscii, hkept text.toList (by simpa using h), String.ofList_toList]

/-- Texts in a row are ASCII if both are. -/
theorem isAscii_append (front back : String) :
    isAscii (front ++ back) = (isAscii front && isAscii back) := by
  rw [isAscii, isAscii, isAscii, String.toList_append, List.all_append]

/-- Codes of a console are ASCII. -/
theorem isAscii_highlight (mode : PrintMode) (text : String) :
    isAscii (highlight mode [invertCode, redCode] text) = isAscii text := by
  have hcodes : ";".intercalate ([invertCode, redCode].map Text.decimalOfNat) = "7;31" := by decide
  have hfront : isAscii ("\x1b[" ++ "7;31" ++ "m") = true := by decide
  have hback : isAscii "\x1b[0m" = true := by decide
  rw [highlight]
  split
  · rw [withCodes, hcodes, isAscii_append, isAscii_append, hfront, hback, Bool.true_and,
      Bool.and_true]
  · rfl

/-- The line of a notice of failure where only ASCII is wanted or taken. -/
def asciiNotice (s : Settings) (text : String) : String :=
  (render s.printMode "failure" text none).ascii

/-- This line is ASCII if the text is, or if it is escaped. -/
theorem isAscii_asciiNotice (s : Settings) (text : String) :
    isAscii (asciiNotice s text) = (decide (s.printMode = .json) || isAscii text) := by
  have hsign : isAscii "ERR" = true := by decide
  have hblank : isAscii " " = true := by decide
  rw [asciiNotice, render]
  by_cases hmode : s.printMode = .json
  · rw [if_pos hmode, decide_eq_true hmode, Bool.true_or]
    exact isAscii_toAscii _
  · rw [if_neg hmode, if_pos rfl, decide_eq_false hmode, Bool.false_or]
    dsimp only [Rendered.ascii]
    rw [isAscii_append, isAscii_append, isAscii_highlight, hsign, hblank, Bool.true_and,
      Bool.true_and]

end Report

/-! ## One call -/

namespace Reporter

/-- Only ASCII is wanted, or only ASCII is taken. -/
def Narrow (r : Reporter) : Prop := r.settings.asciiOnly = true ∨ r.asciiOutput = true

/-- A notice of failure that the output does not take in any form. -/
def refuses (r : Reporter) (text : String) : Bool :=
  !r.settings.silent && r.asciiOutput && !isAscii (asciiNotice r.settings text)

end Reporter

namespace ReportCall

/-- A notice of failure that is to be printed and whose text is beyond ASCII, outside JSON. -/
def Spoils (s : Settings) : ReportCall → Prop
  | .report _ => False
  | .failure text => s.silent = false ∧ s.printMode ≠ .json ∧ isAscii text = false

/-- What a call comes to where only ASCII is wanted or taken. -/
def outcome (r : Reporter) : ReportCall → Except Failure Unit
  | .report told =>
    if (ReportCall.report told).Deadly r.settings then .error (.exit 2) else .ok ()
  | .failure text => if r.refuses text then .error .notEncodable else .ok ()

/-- The lines of a call behind others, where not all is silent: that of a report which has not been
seen and is high enough, with a notice behind it if the report ends the run, and that of a notice
which is not refused. -/
def asciiLines (r : Reporter) (before : List ReportCall) : ReportCall → List String
  | .report told =>
    (if told.rendered r.settings.printMode ∉ r.seen ++ reportsOf r.settings.printMode before ∧
        r.settings.printOn.rank ≤ told.category.level.rank then
      [(told.rendered r.settings.printMode).ascii] else []) ++
    (if (ReportCall.report told).Deadly r.settings then [asciiNotice r.settings exitText] else [])
  | .failure text => if r.refuses text then [] else [asciiNotice r.settings text]

end ReportCall

/-- The lines of some calls behind others. -/
def asciiLinesBehind (r : Reporter) : List ReportCall → List ReportCall → List String
  | _, [] => []
  | before, call :: rest => call.asciiLines r before ++ asciiLinesBehind r (before ++ [call]) rest

namespace Reporter

/-- Calls in order, whatever they come to. -/
def performEach : List ReportCall → Reporter → List (Except Failure Unit) × Reporter
  | [], r => ([], r)
  | call :: rest, r =>
    let (result, next) := r.perform call
    let (results, last) := performEach rest next
    (result :: results, last)

/-! ## Printing -/

/-- Where only ASCII is wanted or taken, a report is shown in its ASCII form. -/
theorem shown_of_narrow {r : Reporter} (h : r.Narrow) (text : String) :
    r.shown text = toAscii text := by
  rw [shown]
  by_cases hascii : isAscii text = true
  · rw [toAscii_of_isAscii hascii]
    split <;> rfl
  · rcases h with honly | houtput
    · simp [honly]
    · simp [houtput, hascii]

/-- A report of one form is printed in its ASCII form. -/
theorem print_single_of_narrow {r : Reporter} (h : r.Narrow) (text : String) :
    r.print (.single text) = (.ok (), r.followedBy (toAscii text ++ "\n")) := by
  rw [print_single_eq, shown_of_narrow h]

/-- The first form of a notice is not ASCII, unless there is one form only. -/
theorem render_failure (s : Settings) (text : String) :
    (∃ form, render s.printMode "failure" text none = .single form ∧
      asciiNotice s text = toAscii form) ∨
    ∃ fancy, render s.printMode "failure" text none = .dual fancy (asciiNotice s text) ∧
      isAscii fancy = false := by
  by_cases hmode : s.printMode = .json
  · left
    rw [asciiNotice, render, if_pos hmode]
    exact ⟨_, rfl, rfl⟩
  · right
    have hsign : isAscii " ✘ " = false := by decide
    rw [asciiNotice, render, if_neg hmode, if_pos rfl]
    refine ⟨_, rfl, ?_⟩
    rw [isAscii_append, isAscii_append, isAscii_highlight, hsign, Bool.false_and, Bool.false_and]

/-- A notice of failure is printed in its second form, or refused. -/
theorem failure_of_narrow {r : Reporter} (h : r.Narrow) (text : String) :
    r.failure text = if r.refuses text then (.error .notEncodable, r)
      else (.ok (), r.followedBy (printed r.settings [asciiNotice r.settings text])) := by
  rw [failure, printed_singleton, refuses]
  cases hsilent : r.settings.silent with
  | true => simp [followedBy]
  | false =>
    have hwrite : ∀ line, r.write line =
        if r.asciiOutput && !isAscii line then (.error .notEncodable, r)
        else (.ok (), r.followedBy (line ++ "\n")) := by
      intro line
      rw [write, followedBy, String.append_assoc]
    simp only [Bool.false_eq_true, if_false, Bool.not_false, Bool.true_and, ← hwrite]
    rcases render_failure r.settings text with ⟨form, hform, hnotice⟩ | ⟨fancy, hform, hfancy⟩
    · rw [hform, print_single_of_narrow h, hnotice, hwrite, isAscii_toAscii]
      simp
    · rw [hform, print]
      dsimp only [Rendered.fancy, Rendered.ascii]
      cases honly : r.settings.asciiOnly with
      | true =>
        -- the second form is tried once more where it is not taken
        rw [if_pos rfl, hwrite]
        split
        case h_1 heq => exact heq.symm
        case h_2 heq =>
          split at heq <;> cases heq
          rw [hwrite, if_pos ‹_›]
      | false =>
        have houtput : r.asciiOutput = true := h.resolve_left (by simp [honly])
        simp [hwrite, houtput, hfancy]

/-- The notice that the run has ended is printed in its second form. -/
theorem exitNow_of_narrow {r : Reporter} (h : r.Narrow) :
    r.exitNow =
      (.error (.exit 2), r.followedBy (printed r.settings [asciiNotice r.settings exitText])) := by
  have hfailure := failure_of_narrow h exitText
  have hrefuses : r.refuses exitText = false := by
    simp [refuses, asciiNotice, isAscii_exitNotice]
  rw [hrefuses, if_neg (by simp), exitText] at hfailure
  rw [exitNow, hfailure]
  rfl

/-! ## Runs -/

/-- A reporter that has been told of some reports has seen them. -/
structure Abreast (start : Reporter) (told : List Rendered) (r : Reporter) : Prop where
  settings_eq : r.settings = start.settings
  asciiOutput_eq : r.asciiOutput = start.asciiOutput
  mem_seen_iff : ∀ report, report ∈ r.seen ↔ report ∈ start.seen ++ told

/-- At the beginning nothing has been told. -/
theorem abreast_start (r : Reporter) : Abreast r [] r :=
  ⟨rfl, rfl, by simp⟩

/-- The reports of some calls and one more. -/
theorem reportsOf_concat (mode : PrintMode) (before : List ReportCall) (told : Told) :
    reportsOf mode (before ++ [.report told]) = reportsOf mode before ++ [told.rendered mode] := by
  rw [reportsOf, List.filterMap_append]
  rfl

/-- The notice of a failure is not among the reports. -/
theorem reportsOf_concat_failure (mode : PrintMode) (before : List ReportCall) (text : String) :
    reportsOf mode (before ++ [.failure text]) = reportsOf mode before := by
  rw [reportsOf, List.filterMap_append]
  exact List.append_nil _

namespace Abreast

variable {start r : Reporter} {told : List Rendered}

/-- Telling a reporter of reports does not change what its output wants or takes. -/
theorem narrow (h : Abreast start told r) (hnarrow : start.Narrow) : r.Narrow := by
  rw [Narrow, h.settings_eq, h.asciiOutput_eq]
  exact hnarrow

/-- The same notices of failure are refused as at the beginning. -/
theorem refuses_eq (h : Abreast start told r) (text : String) :
    r.refuses text = start.refuses text := by
  rw [refuses, refuses, h.settings_eq, h.asciiOutput_eq]

/-- Nothing but the output changes. -/
theorem followedBy (h : Abreast start told r) (text : String) :
    Abreast start told (r.followedBy text) :=
  ⟨h.settings_eq, h.asciiOutput_eq, h.mem_seen_iff⟩

/-- A report that has been seen changes nothing. -/
theorem repeated (h : Abreast start told r) {report : Rendered} (hseen : report ∈ r.seen) :
    Abreast start (told ++ [report]) r where
  settings_eq := h.settings_eq
  asciiOutput_eq := h.asciiOutput_eq
  mem_seen_iff := by
    intro other
    rw [← List.append_assoc, List.mem_append, ← h.mem_seen_iff, List.mem_singleton]
    exact ⟨.inl, fun hor => hor.elim id fun heq => heq ▸ hseen⟩

/-- A report is remembered. -/
theorem record (h : Abreast start told r) (category : String) (report : Rendered) :
    Abreast start (told ++ [report]) (r.record category report) where
  settings_eq := h.settings_eq
  asciiOutput_eq := h.asciiOutput_eq
  mem_seen_iff := by
    intro other
    rw [← List.append_assoc, List.mem_append, ← h.mem_seen_iff, List.mem_singleton]
    exact List.mem_cons.trans or_comm

variable {before : List ReportCall}

/-- A report is remembered if it is new, and printed if it is high enough too. -/
theorem announce (h : Abreast start (reportsOf start.settings.printMode before) r)
    (hnarrow : start.Narrow) (told : Told) :
    ∃ r', r.announce told.category.name (told.rendered start.settings.printMode) = (.ok (), r') ∧
      Abreast start (reportsOf start.settings.printMode (before ++ [.report told])) r' ∧
      r'.output = r.output ++ printed start.settings
        (if told.rendered start.settings.printMode ∉
            start.seen ++ reportsOf start.settings.printMode before ∧
            start.settings.printOn.rank ≤ told.category.level.rank then
          [(told.rendered start.settings.printMode).ascii] else []) := by
  rw [reportsOf_concat]
  by_cases hseen : told.rendered start.settings.printMode ∈ r.seen
  · have hold := (h.mem_seen_iff _).mp hseen
    refine ⟨r, ?_, h.repeated hseen, ?_⟩
    · rw [Reporter.announce, if_pos hseen]
    · rw [if_neg fun hnew => hnew.1 hold]
      simp [printed]
  · have hnew := fun hold => hseen ((h.mem_seen_iff _).mpr hold)
    have hrecord := h.record told.category.name (told.rendered start.settings.printMode)
    obtain ⟨form, hform⟩ := rendered_single start.settings.printMode told
    rw [hform] at hseen hrecord hnew ⊢
    refine ⟨_, announce_new told.category hseen, hrecord.followedBy _, ?_⟩
    rw [output_followedBy, output_record, shown_of_narrow (h.narrow hnarrow), h.settings_eq]
    by_cases hlevel : start.settings.printOn.rank ≤ told.category.level.rank
    · have hwritten : .single form ∉ start.seen ++
          reportsOf start.settings.printMode before ∧
          start.settings.printOn.rank ≤ told.category.level.rank := ⟨hnew, hlevel⟩
      rw [if_pos hwritten, printed_singleton]
      cases hsilent : start.settings.silent with
      | true => simp
      | false => simp [hlevel, Rendered.ascii]
    · rw [if_neg fun hprints => hlevel hprints.2, if_neg fun hprints => hlevel hprints.2]
      simp [printed]

/-- A call comes to what is said of it, and writes its lines. -/
theorem perform (h : Abreast start (reportsOf start.settings.printMode before) r)
    (hnarrow : start.Narrow) (call : ReportCall) :
    ∃ r', r.perform call = (call.outcome start, r') ∧
      Abreast start (reportsOf start.settings.printMode (before ++ [call])) r' ∧
      r'.output = r.output ++ printed start.settings (call.asciiLines start before) := by
  cases call with
  | report told =>
    obtain ⟨r', hannounce, habreast, houtput⟩ := h.announce hnarrow told
    have hdie : r'.shouldDie told.category.name .early =
        .ok (decide ((ReportCall.report told).Deadly start.settings)) := by
      rw [shouldDie_early, habreast.settings_eq]
      rfl
    rw [Told.rendered] at hannounce
    rw [Reporter.perform, Reporter.tell_eq, Reporter.report, Reporter.reportAs, h.settings_eq,
      hannounce]
    simp only [hdie, ReportCall.outcome, ReportCall.asciiLines, printed_append]
    by_cases hdeadly : (ReportCall.report told).Deadly start.settings
    · rw [decide_eq_true hdeadly, if_pos hdeadly, if_pos hdeadly]
      refine ⟨_, exitNow_of_narrow (habreast.narrow hnarrow), habreast.followedBy _, ?_⟩
      rw [output_followedBy, houtput, habreast.settings_eq, String.append_assoc]
    · rw [decide_eq_false hdeadly, if_neg hdeadly, if_neg hdeadly]
      refine ⟨r', rfl, habreast, ?_⟩
      rw [houtput]
      simp [printed]
  | failure text =>
    rw [Reporter.perform, failure_of_narrow (h.narrow hnarrow), h.refuses_eq, h.settings_eq,
      ReportCall.outcome, ReportCall.asciiLines, reportsOf_concat_failure]
    split
    case isTrue => exact ⟨r, rfl, h, by simp [printed]⟩
    case isFalse => exact ⟨_, rfl, h.followedBy _, rfl⟩

/-- Each call of a row comes to what is said of it, and writes its lines. -/
theorem performEach (h : Abreast start (reportsOf start.settings.printMode before) r)
    (hnarrow : start.Narrow) (calls : List ReportCall) :
    (r.performEach calls).1 = calls.map (ReportCall.outcome start) ∧
      (r.performEach calls).2.output =
        r.output ++ printed start.settings (asciiLinesBehind start before calls) := by
  induction calls generalizing before r with
  | nil => exact ⟨rfl, by simp [Reporter.performEach, asciiLinesBehind, printed]⟩
  | cons call rest ih =>
    obtain ⟨r', hperform, habreast, houtput⟩ := h.perform hnarrow call
    obtain ⟨hresults, hlast⟩ := ih habreast
    rw [Reporter.performEach, hperform]
    refine ⟨congrArg (call.outcome start :: ·) hresults, ?_⟩
    rw [asciiLinesBehind, printed_append, ← String.append_assoc, ← houtput]
    exact hlast

end Abreast

/-! ## What is beyond ASCII -/

/-- What is printed is ASCII if all lines are, or if all is silent. -/
theorem isAscii_printed (s : Settings) (lines : List String) :
    isAscii (printed s lines) = true ↔ s.silent = false → ∀ line ∈ lines, isAscii line = true := by
  have hjoin : ∀ lines : List String,
      isAscii (String.join (lines.map (· ++ "\n"))) = lines.all isAscii := by
    intro lines
    have hfeed : isAscii "\n" = true := by decide
    induction lines with
    | nil => rfl
    | cons line rest ih =>
      rw [List.map_cons, String.join_cons, isAscii_append, isAscii_append, ih, hfeed,
        Bool.and_true, List.all_cons]
  rw [printed]
  cases s.silent with
  | true => simp [isAscii]
  | false => simp [hjoin]

/-- A notice spoils the output exactly if no form of it is ASCII. -/
theorem spoils_failure_iff (s : Settings) (text : String) :
    (ReportCall.failure text).Spoils s ↔
      s.silent = false ∧ isAscii (asciiNotice s text) = false := by
  rw [ReportCall.Spoils, isAscii_asciiNotice]
  by_cases hmode : s.printMode = .json <;> simp [hmode]

/-- Only a notice that spoils the output has a line beyond ASCII or is refused. -/
theorem ascii_of_not_spoils {r : Reporter} {call : ReportCall}
    (hcall : ¬ call.Spoils r.settings) :
    call.outcome r ≠ .error .notEncodable ∧ ∀ before, r.settings.silent = false →
      ∀ line ∈ call.asciiLines r before, isAscii line = true := by
  cases call with
  | report told =>
    constructor
    · rw [ReportCall.outcome]
      split <;> simp
    · intro before _ line hline
      obtain ⟨form, hform⟩ := rendered_single r.settings.printMode told
      rcases List.mem_append.mp hline with hreport | hexit
      · split at hreport
        · rw [List.mem_singleton.mp hreport, hform]
          exact isAscii_toAscii form
        · cases hreport
      · split at hexit
        · rw [List.mem_singleton.mp hexit]
          exact isAscii_exitNotice _
        · cases hexit
  | failure text =>
    rw [spoils_failure_iff, not_and, Bool.not_eq_false] at hcall
    have htaken : r.refuses text = false := by
      rw [refuses]
      cases hsilent : r.settings.silent with
      | true => rfl
      | false => simp [hcall hsilent]
    constructor
    · simp [ReportCall.outcome, htaken]
    · intro before hsilent line hline
      rw [ReportCall.asciiLines, htaken, if_neg (by simp), List.mem_singleton] at hline
      rw [hline]
      exact hcall hsilent

/-- A notice that spoils the output is refused, or its line is beyond ASCII. -/
theorem of_spoils {r : Reporter} {call : ReportCall} (hcall : call.Spoils r.settings) :
    call.outcome r = .error .notEncodable ∨ ∀ before, ∃ line ∈ call.asciiLines r before,
      isAscii line = false := by
  cases call with
  | report told => exact absurd hcall id
  | failure text =>
    obtain ⟨hsilent, hnotice⟩ := (spoils_failure_iff _ _).mp hcall
    cases hrefuses : r.refuses text with
    | true => exact .inl (by simp [ReportCall.outcome, hrefuses])
    | false => exact .inr fun before => ⟨_, by simp [ReportCall.asciiLines, hrefuses], hnotice⟩

/-- Each line of some calls is one of a call behind those in front of it. -/
theorem mem_asciiLinesBehind {r : Reporter} {calls : List ReportCall} (before : List ReportCall)
    {line : String} : line ∈ asciiLinesBehind r before calls ↔
      ∃ front call back, calls = front ++ call :: back ∧
        line ∈ call.asciiLines r (before ++ front) := by
  induction calls generalizing before with
  | nil => simp [asciiLinesBehind]
  | cons call rest ih =>
    rw [asciiLinesBehind, List.mem_append, ih]
    constructor
    · rintro (hfirst | ⟨front, other, back, rfl, hline⟩)
      · exact ⟨[], call, rest, rfl, by simpa using hfirst⟩
      · exact ⟨call :: front, other, back, rfl, by simpa using hline⟩
    · rintro ⟨front, other, back, hsplit, hline⟩
      cases front with
      | nil =>
        cases hsplit
        exact .inl (by simpa using hline)
      | cons first front =>
        cases hsplit
        exact .inr ⟨front, other, back, rfl, by simpa using hline⟩

/-- Where only ASCII is wanted or taken, each call of a row comes to what is said of it and writes
the ASCII forms of its lines, once.  No call is refused and nothing beyond ASCII is written exactly
if there is no notice of failure beyond ASCII outside JSON. -/
theorem ascii_of_calls (r : Reporter) (hnarrow : r.Narrow) (calls : List ReportCall) :
    let run := r.performEach calls
    let written := printed r.settings (asciiLinesBehind r [] calls)
    run.1 = calls.map (ReportCall.outcome r) ∧ run.2.output = r.output ++ written ∧
      ((∀ result ∈ run.1, result ≠ .error .notEncodable) ∧ isAscii written = true ↔
        ∀ call ∈ calls, ¬ call.Spoils r.settings) := by
  intro run written
  have hstart : Abreast r (reportsOf r.settings.printMode []) r := r.abreast_start
  obtain ⟨hresults, houtput⟩ := hstart.performEach hnarrow calls
  refine ⟨hresults, houtput, ?_⟩
  rw [show run.1 = _ from hresults, isAscii_printed]
  constructor
  · rintro ⟨htaken, hascii⟩ call hmem hspoils
    rcases of_spoils hspoils with hrefused | hbeyond
    · exact htaken _ (List.mem_map_of_mem hmem) hrefused
    · obtain ⟨front, back, rfl⟩ := List.append_of_mem hmem
      obtain ⟨line, hline, hnot⟩ := hbeyond front
      have hsilent : r.settings.silent = false := by
        cases call with
        | report told => exact absurd hspoils id
        | failure text => exact hspoils.1
      have hline' := hascii hsilent line
        ((mem_asciiLinesBehind []).mpr ⟨front, call, back, rfl, hline⟩)
      rw [hnot] at hline'
      cases hline'
  · intro hnone
    constructor
    · intro result hmem
      obtain ⟨call, hcall, rfl⟩ := List.mem_map.mp hmem
      exact (ascii_of_not_spoils (hnone call hcall)).1
    · intro hsilent line hline
      obtain ⟨front, call, back, rfl, hwritten⟩ := (mem_asciiLinesBehind []).mp hline
      exact (ascii_of_not_spoils (hnone call (by simp))).2 _ hsilent line hwritten

/-- A reporter in plain text whose output takes ASCII only. -/
def narrowReporter : Reporter where
  settings := { printMode := .plain, dieWhen := .early }
  asciiOutput := true

/-- A warning beyond ASCII twice, a notice, and a report that ends the run. -/
def accentedCalls : List ReportCall :=
  [.report ⟨.warning, "é", some (.text "1:1 of ü")⟩,
    .report ⟨.warning, "é", some (.text "1:1 of ü")⟩, .failure "f", .report ⟨.fatal, "é", none⟩]

/-- The repeated warning is written once, and all lines are ASCII. -/
theorem ascii_of_accentedCalls :
    narrowReporter.Narrow ∧
      (narrowReporter.performEach accentedCalls).1 = [.ok (), .ok (), .ok (), .error (.exit 2)] ∧
      (narrowReporter.performEach accentedCalls).2.output =
        "LINE 1:1 of ?: ?\nERR f\nFATAL ERROR: ?\n" ++
          "ERR Did not compile, due to errors exceeding the allowed error level.\n" := by
  have hnarrow : narrowReporter.Narrow := .inr rfl
  obtain ⟨hresults, houtput, -⟩ := narrowReporter.ascii_of_calls hnarrow accentedCalls
  exact ⟨hnarrow, hresults.trans (by decide), houtput.trans (by decide)⟩

/-- A notice beyond ASCII is refused where only ASCII is taken, and is written as it is where only
ASCII is wanted. -/
theorem accented_notice_fails :
    (narrowReporter.performEach [.failure "é"]).1 = [.error .notEncodable] ∧
      (({ settings := { printMode := .plain, asciiOnly := true } } : Reporter).performEach
        [.failure "é"]).2.output = "ERR é\n" := by
  decide

end Reporter

end MarkupSpans
