import MarkupSpans.Delivery

/-!
# Words behind notices

Where warnings do not end the run, a stream delivers all its words whatever notices stand in
between; where it has no notices, nothing is reported at all.

A delivery can be cut in two (`deliverItems_append`).  What the first part has reported does not
show in the second one, unless the same reports come again (`deliverItems_after`).
-/

set_option autoImplicit false

namespace MarkupSpans

open Grammar Report

/-! ## Warnings that do not end the run -/

/-- Warnings do not end the run.  This holds of the default settings. -/
def Reporter.Lenient (r : Reporter) : Prop := r.shouldDie "warning" .early = .ok false

/-- What ends a run depends on the settings only. -/
theorem Reporter.shouldDie_congr {r r' : Reporter} (h : r'.settings = r.settings)
    (category : String) (timing : Timing) :
    r'.shouldDie category timing = r.shouldDie category timing := by
  simp only [Reporter.shouldDie, h]

/-- The ASCII form of a text is ASCII. -/
theorem isAscii_toAscii (text : String) : isAscii (toAscii text) = true := by
  simp only [isAscii, toAscii, String.toList_ofList, List.all_map, List.all_eq_true,
    Function.comp_apply, decide_eq_true_eq]
  intro c _
  split
  · assumption
  · decide

/-- A report of one form is printed on all outputs, as its second try is ASCII. -/
theorem Reporter.print_single (text : String) (r : Reporter) :
    ∃ r', r.print (.single text) = (.ok (), r') ∧ r'.settings = r.settings := by
  have hwrite : ∀ s : String, (∃ r', r.write s = (.ok (), r') ∧ r'.settings = r.settings) ∨
      r.write s = (.error .notEncodable, r) := by
    intro s
    unfold Reporter.write
    split
    · exact .inr rfl
    · exact .inl ⟨_, rfl, rfl⟩
  have hascii : ∃ r', r.write (toAscii text) = (.ok (), r') ∧ r'.settings = r.settings := by
    refine ⟨{ r with output := r.output ++ toAscii text ++ "\n" }, ?_, rfl⟩
    simp [Reporter.write, isAscii_toAscii]
  simp only [Reporter.print, Rendered.fancy, Rendered.ascii]
  split
  case h_1 r' hfirst =>
    rcases hwrite (if r.settings.asciiOnly = true then toAscii text else text) with
      ⟨r'', hr'', hsettings⟩ | herror
    · rw [hr''] at hfirst
      simp only [Prod.mk.injEq, true_and] at hfirst
      exact ⟨r', rfl, hfirst ▸ hsettings⟩
    · simp [herror] at hfirst
  case h_2 e r' hfirst =>
    rcases hwrite (if r.settings.asciiOnly = true then toAscii text else text) with
      ⟨r'', hr'', -⟩ | herror
    · simp [hr''] at hfirst
    · rw [herror] at hfirst
      simp only [Prod.mk.injEq] at hfirst
      rw [← hfirst.2]
      exact hascii

/-- A warning has one form. -/
theorem render_warning (mode : PrintMode) (text : String) (line : Option LineRef) :
    ∃ form, render mode "warning" text line = .single form := by
  unfold render
  split
  · exact ⟨_, rfl⟩
  · exact ⟨_, rfl⟩

/-- It is always known whether warnings are printed. -/
theorem Reporter.shouldPrint_warning (r : Reporter) : ∃ b, r.shouldPrint "warning" = .ok b := by
  have hlevel : Level.ofName? "warning" = some .warning := by decide
  have hcategory : "warning" ≠ "failure" := by decide
  unfold Reporter.shouldPrint
  rw [if_neg hcategory, hlevel]
  split
  · exact ⟨false, rfl⟩
  · exact ⟨_, rfl⟩

/-- Announcing a warning does not fail and keeps the settings. -/
theorem Reporter.announce_warning (report : String) (r : Reporter) :
    ∃ r', r.announce "warning" (.single report) = (.ok (), r') ∧ r'.settings = r.settings := by
  unfold Reporter.announce
  split
  case isTrue => exact ⟨r, rfl, rfl⟩
  case isFalse =>
    obtain ⟨b, hb⟩ := (r.record "warning" (.single report)).shouldPrint_warning
    simp only [hb]
    cases b with
    | true => exact Reporter.print_single report (r.record "warning" (.single report))
    | false => exact ⟨_, rfl, rfl⟩

/-- A lenient reporter is left by a warning as by announcing it. -/
theorem Reporter.Lenient.warn_eq {r : Reporter} (hr : r.Lenient) (text : String)
    (line : Option LineRef) :
    r.warn text line = (.ok (),
      (r.announce "warning" (render r.settings.printMode "warning" text line)).2) ∧
    (r.announce "warning" (render r.settings.printMode "warning" text line)).2.settings =
      r.settings := by
  obtain ⟨form, hform⟩ := render_warning r.settings.printMode text line
  obtain ⟨r', hannounce, hsettings⟩ := r.announce_warning form
  have hlenient : r'.shouldDie "warning" .early = .ok false :=
    (Reporter.shouldDie_congr hsettings _ _).trans hr
  rw [hform, hannounce]
  refine ⟨?_, hsettings⟩
  simp only [Reporter.warn, Reporter.report, Reporter.reportAs, hform, hannounce, hlenient]

/-- A warning does not fail where warnings do not end the run. -/
theorem Reporter.Lenient.warn {r : Reporter} (hr : r.Lenient) (text : String)
    (line : Option LineRef) :
    ∃ r', r.warn text line = (.ok (), r') ∧ r'.Lenient := by
  obtain ⟨hwarn, hsettings⟩ := hr.warn_eq text line
  exact ⟨_, hwarn, (Reporter.shouldDie_congr hsettings _ _).trans hr⟩

/-! ## What reports fail with -/

/-- Writing fails only for text that the output cannot take. -/
theorem Reporter.write_eq_error {text : String} {r : Reporter} {e : Failure}
    (h : (r.write text).1 = .error e) : e = .notEncodable := by
  unfold Reporter.write at h
  split at h
  · cases h
    rfl
  · cases h

/-- Printing fails only for text that the output cannot take. -/
theorem Reporter.print_eq_error {report : Rendered} {r : Reporter} {e : Failure}
    (h : (r.print report).1 = .error e) : e = .notEncodable := by
  unfold Reporter.print at h
  split at h
  · cases h
  · exact Reporter.write_eq_error h

/-- The end of a run is no error of the markup. -/
theorem Reporter.exitNow_ne_compile (r : Reporter) (e : CompileError) :
    r.exitNow.1 ≠ .error (.compile e) := by
  intro h
  unfold Reporter.exitNow Reporter.failure at h
  split at h
  case h_1 => cases h
  case h_2 failure r' hfailure =>
    split at hfailure
    · cases hfailure
    · have herror := Reporter.print_eq_error (congrArg Prod.fst hfailure)
      subst herror
      cases h

/-- A warning fails with the end of the run or of the output, never with an error of the markup. -/
theorem Reporter.warn_ne_compile (r : Reporter) (text : String) (line : Option LineRef)
    (e : CompileError) : (r.warn text line).1 ≠ .error (.compile e) := by
  obtain ⟨form, hform⟩ := render_warning r.settings.printMode text line
  obtain ⟨r', hannounce, -⟩ := r.announce_warning form
  have hlevel : Level.ofName? "warning" = some .warning := by decide
  unfold Reporter.warn Reporter.report Reporter.reportAs
  rw [hform, hannounce]
  dsimp only
  split
  case h_1 => exact r'.exitNow_ne_compile e
  case h_2 => simp
  case h_3 failure hdie =>
    unfold Reporter.shouldDie at hdie
    rw [hlevel] at hdie
    split at hdie <;> cases hdie

/-! ## A reporter that has seen more -/

namespace Reporter

/-- The second reporter is like the first one, but has seen and printed more before that. -/
structure After (seen : List Rendered) (output : String) (r r' : Reporter) : Prop where
  settings_eq : r'.settings = r.settings
  asciiOutput_eq : r'.asciiOutput = r.asciiOutput
  seen_eq : r'.seen = r.seen ++ seen
  output_eq : r'.output = output ++ r.output

variable {seen : List Rendered} {output : String} {r r' : Reporter}

namespace After

/-- Writing has the same effect whatever else has been seen. -/
theorem write (h : After seen output r r') (text : String) :
    (r'.write text).1 = (r.write text).1 ∧
      After seen output (r.write text).2 (r'.write text).2 := by
  unfold Reporter.write
  rw [h.asciiOutput_eq]
  split
  · exact ⟨rfl, h⟩
  · refine ⟨rfl, h.settings_eq, rfl, h.seen_eq, ?_⟩
    simp [h.output_eq, String.append_assoc]

/-- Printing has the same effect whatever else has been seen. -/
theorem print (h : After seen output r r') (report : Rendered) :
    (r'.print report).1 = (r.print report).1 ∧
      After seen output (r.print report).2 (r'.print report).2 := by
  unfold Reporter.print
  rw [h.settings_eq]
  obtain ⟨hresult, hafter⟩ := h.write
    (if r.settings.asciiOnly = true then report.ascii else report.fancy)
  rcases hwrite : r.write (if r.settings.asciiOnly = true then report.ascii else report.fancy)
    with ⟨result, r₁⟩
  rcases hwrite' : r'.write (if r.settings.asciiOnly = true then report.ascii else report.fancy)
    with ⟨result', r₁'⟩
  rw [hwrite, hwrite'] at hresult hafter
  dsimp only at hresult
  subst hresult
  cases result' with
  | ok _ => exact ⟨rfl, hafter⟩
  | error e => exact hafter.write report.ascii

/-- A report is remembered beside what else has been seen. -/
theorem record (h : After seen output r r') (category : String) (report : Rendered) :
    After seen output (r.record category report) (r'.record category report) :=
  ⟨h.settings_eq, h.asciiOutput_eq, congrArg (report :: ·) h.seen_eq, h.output_eq⟩

/-- Announcing a report that is not among the others has the same effect. -/
theorem announce (h : After seen output r r') (category : String) {report : Rendered}
    (hnew : report ∉ seen) :
    (r'.announce category report).1 = (r.announce category report).1 ∧
      After seen output (r.announce category report).2 (r'.announce category report).2 := by
  have hseen : report ∈ r'.seen ↔ report ∈ r.seen := by
    rw [h.seen_eq, List.mem_append]
    exact or_iff_left hnew
  have hprint : (r'.record category report).shouldPrint category =
      (r.record category report).shouldPrint category := by
    unfold shouldPrint
    rw [(h.record category report).settings_eq]
  unfold Reporter.announce
  simp only [hseen, hprint]
  split
  · exact ⟨rfl, h⟩
  · split
    · exact (h.record category report).print report
    · exact ⟨rfl, h.record category report⟩
    · exact ⟨rfl, h.record category report⟩

/-- A warning that has not been seen before is reported alike. -/
theorem warn (h : After seen output r r') (hr : r.Lenient) (text : String)
    (line : Option LineRef) (hnew : render r.settings.printMode "warning" text line ∉ seen) :
    After seen output (r.warn text line).2 (r'.warn text line).2 := by
  have hr' : r'.Lenient := (shouldDie_congr h.settings_eq _ _).trans hr
  rw [(hr.warn_eq text line).1, (hr'.warn_eq text line).1, h.settings_eq]
  exact (h.announce "warning" hnew).2

end After

/-- Writing changes nothing but what is written. -/
theorem write_keeps (text : String) (r : Reporter) :
    (r.write text).2.seen = r.seen ∧ (r.write text).2.asciiOutput = r.asciiOutput := by
  unfold write
  split <;> exact ⟨rfl, rfl⟩

/-- Printing changes nothing but what is written. -/
theorem print_keeps (report : Rendered) (r : Reporter) :
    (r.print report).2.seen = r.seen ∧ (r.print report).2.asciiOutput = r.asciiOutput := by
  have hfirst := write_keeps (if r.settings.asciiOnly then report.ascii else report.fancy) r
  unfold print
  split
  · rename_i hwrite
    rw [hwrite] at hfirst
    exact hfirst
  · rename_i r₁ hwrite
    rw [hwrite] at hfirst
    obtain ⟨hseen, hascii⟩ := write_keeps report.ascii r₁
    exact ⟨hseen.trans hfirst.1, hascii.trans hfirst.2⟩

/-- A report is all that announcing it adds to what has been seen. -/
theorem announce_keeps (category : String) (report : Rendered) (r : Reporter) :
    (r.announce category report).2.asciiOutput = r.asciiOutput ∧
      ∀ other ∈ (r.announce category report).2.seen, other = report ∨ other ∈ r.seen := by
  unfold announce
  split
  · exact ⟨rfl, fun other hother => .inr hother⟩
  · dsimp only
    split
    · obtain ⟨hseen, hascii⟩ := print_keeps report (r.record category report)
      rw [hseen]
      exact ⟨hascii, fun other hother => List.mem_cons.mp hother⟩
    · exact ⟨rfl, fun other hother => List.mem_cons.mp hother⟩
    · exact ⟨rfl, fun other hother => List.mem_cons.mp hother⟩

end Reporter

/-! ## Delivery -/

/-- A lenient reporter lets all words through; notices only change what has been reported. -/
theorem deliverItems_of_lenient (failure : Option Failure) (items : List StreamItem)
    {r : Reporter} (hr : r.Lenient) :
    ∃ r', deliverItems failure items r =
      ⟨WordStream.words ⟨items, failure⟩, failure, r'⟩ := by
  induction items generalizing r with
  | nil => exact ⟨r, rfl⟩
  | cons item rest ih =>
    cases item with
    | word w =>
      obtain ⟨r', hrest⟩ := ih hr
      exact ⟨r', by simp [deliverItems, hrest, WordStream.words]⟩
    | notice n loc =>
      obtain ⟨r', hwarn, hr'⟩ := hr.warn n.message (some (.text loc))
      obtain ⟨r'', hrest⟩ := ih hr'
      exact ⟨r'', by simp [deliverItems, hwarn, hrest, WordStream.words]⟩
    | stray =>
      obtain ⟨r', hrest⟩ := ih hr
      exact ⟨r', by simp [deliverItems, hrest, WordStream.words]⟩

/-- Without notices nothing is reported, whatever the settings. -/
theorem deliverItems_of_notices_eq_nil (failure : Option Failure) (items : List StreamItem)
    (r : Reporter) (h : WordStream.notices ⟨items, failure⟩ = []) :
    deliverItems failure items r =
      ⟨WordStream.words ⟨items, failure⟩, failure, r⟩ := by
  induction items with
  | nil => rfl
  | cons item rest ih =>
    cases item with
    | word w =>
      have hrest := ih (by simpa [WordStream.notices] using h)
      simp [deliverItems, hrest, WordStream.words]
    | notice n loc => simp [WordStream.notices] at h
    | stray =>
      have hrest := ih (by simpa [WordStream.notices] using h)
      simp [deliverItems, hrest, WordStream.words]

/-- A report that ends the run leaves the words in front of it. -/
theorem words_prefix_deliverItems (failure : Option Failure) (items : List StreamItem)
    (r : Reporter) :
    (deliverItems failure items r).words <+: WordStream.words ⟨items, failure⟩ := by
  induction items generalizing r with
  | nil => exact List.prefix_rfl
  | cons item rest ih =>
    cases item with
    | word w => exact (List.prefix_cons_inj w).mpr (ih r)
    | stray => exact ih r
    | notice n loc =>
      rw [deliverItems]
      split
      · exact List.nil_prefix
      · exact ih _

/-- Where nothing fails, all words are let through, whatever the settings. -/
theorem words_of_deliverItems {failure : Option Failure} {items : List StreamItem}
    {r : Reporter} (h : (deliverItems failure items r).failure = none) :
    failure = none ∧
      (deliverItems failure items r).words = WordStream.words ⟨items, failure⟩ := by
  induction items generalizing r with
  | nil => exact ⟨h, rfl⟩
  | cons item rest ih =>
    cases item with
    | word w =>
      obtain ⟨hfailure, hwords⟩ := ih h
      exact ⟨hfailure, congrArg (w :: ·) hwords⟩
    | stray => exact ih h
    | notice n loc =>
      rw [deliverItems] at h ⊢
      split at h
      · cases h
      · exact ih h

/-- Words are parsed exactly if the reading of the source ends with them. -/
theorem parseWords_eq_ok_iff (s : Source) {r : Reporter} (hr : r.Lenient) (words : List Word) :
    (parseWords s r).1 = .ok words ↔ s.words.failure = none ∧ s.words.words = words := by
  obtain ⟨r', hdeliver⟩ := deliverItems_of_lenient s.words.failure s.words.items hr
  have hwords : WordStream.words ⟨s.words.items, s.words.failure⟩ = s.words.words := rfl
  simp only [parseWords, WordStream.deliver, hdeliver, hwords]
  cases s.words.failure <;> simp

/-- A reporter that lets all warnings pass lets the failure of the text pass as well. -/
theorem parseWords_eq_error_of_failure (s : Source) {r : Reporter} (hr : r.Lenient) {e : Failure}
    (hfailure : s.words.failure = some e) : (parseWords s r).1 = .error e := by
  obtain ⟨r', hdeliver⟩ := deliverItems_of_lenient s.words.failure s.words.items hr
  simp only [parseWords, WordStream.deliver, hdeliver]
  rw [hfailure]

/-- Where there is nothing to report, the reporter stays as it was. -/
theorem parseWords_of_notices_eq_nil (s : Source) (r : Reporter) (hfailure : s.words.failure = none)
    (hnotices : s.words.notices = []) : parseWords s r = (.ok s.words.words, r) := by
  have hdeliver := deliverItems_of_notices_eq_nil s.words.failure s.words.items r hnotices
  have hwords : WordStream.words ⟨s.words.items, s.words.failure⟩ = s.words.words := rfl
  simp only [parseWords, WordStream.deliver, hdeliver, hwords]
  rw [hfailure]

/-- Without notices a text that cannot be read is refused with what stopped the reading. -/
theorem parseWords_of_failure (s : Source) (r : Reporter) {e : Failure}
    (hfailure : s.words.failure = some e) (hnotices : s.words.notices = []) :
    parseWords s r = (.error e, r) := by
  have hdeliver := deliverItems_of_notices_eq_nil s.words.failure s.words.items r hnotices
  simp only [parseWords, WordStream.deliver, hdeliver]
  rw [hfailure]

/-! ## Delivery in two parts -/

/-- The report of a notice. -/
def noticeReport (mode : PrintMode) (n : Notice) (loc : String) : Rendered :=
  render mode "warning" n.message (some (.text loc))

/-- Behind some items a lenient reporter has its settings, and has seen only what it was told
of. -/
theorem deliverItems_reporter (items : List StreamItem) (failure : Option Failure)
    {r : Reporter} (hr : r.Lenient) :
    (deliverItems failure items r).reporter.settings = r.settings ∧
      (deliverItems failure items r).reporter.asciiOutput = r.asciiOutput ∧
      ∀ report ∈ (deliverItems failure items r).reporter.seen, report ∈ r.seen ∨
        ∃ n loc, .notice n loc ∈ items ∧ report = noticeReport r.settings.printMode n loc := by
  induction items generalizing r with
  | nil => exact ⟨rfl, rfl, fun report hreport => .inl hreport⟩
  | cons item rest ih =>
    have hbehind : ∀ r' : Reporter, r'.Lenient → r'.settings = r.settings →
        (deliverItems failure rest r').reporter.settings = r.settings ∧
        (deliverItems failure rest r').reporter.asciiOutput = r'.asciiOutput ∧
        ∀ report ∈ (deliverItems failure rest r').reporter.seen, report ∈ r'.seen ∨
          ∃ n loc, .notice n loc ∈ item :: rest ∧
            report = noticeReport r.settings.printMode n loc := by
      intro r' hr' hkept
      obtain ⟨hsettings, hascii, hseen⟩ := ih hr'
      rw [hkept] at hsettings hseen
      refine ⟨hsettings, hascii, ?_⟩
      intro report hreport
      rcases hseen report hreport with hold | ⟨n, loc, hmem, heq⟩
      · exact .inl hold
      · exact .inr ⟨n, loc, List.mem_cons_of_mem _ hmem, heq⟩
    cases item with
    | word w => exact hbehind r hr rfl
    | stray => exact hbehind r hr rfl
    | notice n loc =>
      obtain ⟨hwarn, hkept⟩ := hr.warn_eq n.message (some (.text loc))
      obtain ⟨hascii', hannounced⟩ := r.announce_keeps "warning"
        (render r.settings.printMode "warning" n.message (some (.text loc)))
      obtain ⟨hsettings, hascii, hseen⟩ :=
        hbehind _ ((Reporter.shouldDie_congr hkept _ _).trans hr) hkept
      rw [deliverItems, hwarn]
      refine ⟨hsettings, hascii.trans hascii', ?_⟩
      intro report hreport
      rcases hseen report hreport with hold | hnew
      · rcases hannounced report hold with heq | hold
        · exact .inr ⟨n, loc, by simp, heq⟩
        · exact .inl hold
      · exact .inr hnew

/-- Items behind others are delivered to the reporter that those have left. -/
theorem deliverItems_append (items more : List StreamItem) (failure : Option Failure)
    {r : Reporter} (hr : r.Lenient) :
    deliverItems failure (items ++ more) r =
      ⟨(deliverItems none items r).words ++
          (deliverItems failure more (deliverItems none items r).reporter).words,
        (deliverItems failure more (deliverItems none items r).reporter).failure,
        (deliverItems failure more (deliverItems none items r).reporter).reporter⟩ := by
  induction items generalizing r with
  | nil => rfl
  | cons item rest ih =>
    cases item with
    | word w => simp only [List.cons_append, deliverItems, ih hr]
    | stray => exact ih hr
    | notice n loc =>
      obtain ⟨r', hwarn, hr'⟩ := hr.warn n.message (some (.text loc))
      rw [List.cons_append, deliverItems, deliverItems, hwarn]
      exact ih hr'

/-- Reports that a reporter has seen before do not show in a delivery without them. -/
theorem deliverItems_after {seen : List Rendered} {output : String} (items : List StreamItem)
    (failure : Option Failure) {r r' : Reporter} (h : Reporter.After seen output r r')
    (hr : r.Lenient)
    (hnew : ∀ n loc, .notice n loc ∈ items → noticeReport r.settings.printMode n loc ∉ seen) :
    (deliverItems failure items r').words = (deliverItems failure items r).words ∧
      (deliverItems failure items r').failure = (deliverItems failure items r).failure ∧
      Reporter.After seen output (deliverItems failure items r).reporter
        (deliverItems failure items r').reporter := by
  induction items generalizing r r' with
  | nil => exact ⟨rfl, rfl, h⟩
  | cons item rest ih =>
    have hrest : ∀ n loc, .notice n loc ∈ rest →
        noticeReport r.settings.printMode n loc ∉ seen :=
      fun n loc hmem => hnew n loc (List.mem_cons_of_mem _ hmem)
    cases item with
    | word w =>
      obtain ⟨hwords, hfailure, hafter⟩ := ih h hr hrest
      exact ⟨congrArg (w :: ·) hwords, hfailure, hafter⟩
    | stray => exact ih h hr hrest
    | notice n loc =>
      have hr' : r'.Lenient := (Reporter.shouldDie_congr h.settings_eq _ _).trans hr
      have hafter := h.warn hr n.message (some (.text loc)) (hnew n loc (by simp))
      obtain ⟨hwarn, hkept⟩ := hr.warn_eq n.message (some (.text loc))
      obtain ⟨hwarn', -⟩ := hr'.warn_eq n.message (some (.text loc))
      rw [hwarn, hwarn'] at hafter
      rw [deliverItems, deliverItems, hwarn, hwarn']
      exact ih hafter ((Reporter.shouldDie_congr hkept _ _).trans hr) (by rw [hkept]; exact hrest)

end MarkupSpans
