import MarkupSpans.Proofs.Concatenating
import MarkupSpans.Proofs.Reporting

/-!
# Warnings that have not been seen before

A warning that a reporter has not seen is remembered, counted, and printed on a line of its own if
warnings are wanted (`Reporter.Lenient.warn_new`).  So notices of which no two are reported alike
print one line each, in their order (`deliverItems_of_distinct`).  Reports about different places
of a text are never alike (`Source.noticeReport_ne_of_left`).
-/

set_option autoImplicit false

namespace MarkupSpans

open Grammar Report

namespace Reporter

/-- A text in the form that is printed: with question marks beyond ASCII, if that is wanted or the
output does not take the text. -/
def shown (r : Reporter) (text : String) : String :=
  if r.settings.asciiOnly || (r.asciiOutput && !isAscii text) then toAscii text else text

/-- Warnings are printed. -/
def PrintsWarnings (r : Reporter) : Prop :=
  r.settings.silent = false ∧ r.settings.printOn.rank ≤ Level.warning.rank

instance (r : Reporter) : Decidable r.PrintsWarnings := inferInstanceAs (Decidable (_ ∧ _))

/-- What a warning adds to the output. -/
def warningLine (r : Reporter) (text : String) : String :=
  if r.PrintsWarnings then r.shown text ++ "\n" else ""

/-- A report of one form is printed as it is shown on the output. -/
theorem print_single_eq (text : String) (r : Reporter) :
    r.print (.single text) = (.ok (), r.followedBy (r.shown text ++ "\n")) := by
  have hascii : r.write (toAscii text) = (.ok (), r.followedBy (toAscii text ++ "\n")) := by
    simp [write, isAscii_toAscii, followedBy, String.append_assoc]
  unfold print shown
  simp only [Rendered.fancy, Rendered.ascii]
  cases honly : r.settings.asciiOnly with
  | true => simp only [if_true, hascii, Bool.true_or]
  | false =>
    simp only [Bool.false_eq_true, if_false, Bool.false_or]
    by_cases htaken : (r.asciiOutput && !isAscii text) = true
    · simp only [write, htaken, if_true] at hascii ⊢
      rw [hascii]
    · simp only [write, htaken]
      simp [followedBy, String.append_assoc]

/-- A report that has not been seen is remembered, and printed if its category is wanted. -/
theorem announce_new (c : Category) {r : Reporter} {text : String}
    (hnew : .single text ∉ r.seen) :
    r.announce c.name (.single text) =
      (.ok (), (r.record c.name (.single text)).followedBy
        (if r.settings.silent = false ∧ r.settings.printOn.rank ≤ c.level.rank then
          r.shown text ++ "\n" else "")) := by
  have hprint : (r.record c.name (.single text)).shouldPrint c.name =
      .ok (decide (r.settings.silent = false ∧ r.settings.printOn.rank ≤ c.level.rank)) :=
    shouldPrint_category _ c
  unfold announce
  rw [if_neg hnew]
  simp only [hprint]
  by_cases hwanted : r.settings.silent = false ∧ r.settings.printOn.rank ≤ c.level.rank
  · rw [decide_eq_true hwanted, if_pos hwanted]
    exact print_single_eq text _
  · rw [decide_eq_false hwanted, if_neg hwanted]
    simp [followedBy, record]

/-- A lenient reporter after a warning that it has not seen. -/
def afterWarning (report : Rendered) (r : Reporter) : Reporter :=
  (r.record "warning" report).followedBy (r.warningLine report.fancy)

/-- A warning that has not been seen is remembered and printed. -/
theorem Lenient.warn_new {r : Reporter} (hr : r.Lenient) {text : String} {line : Option LineRef}
    (hnew : render r.settings.printMode "warning" text line ∉ r.seen) :
    r.warn text line =
      (.ok (), r.afterWarning (render r.settings.printMode "warning" text line)) := by
  obtain ⟨hwarn, -⟩ := hr.warn_eq text line
  obtain ⟨form, hform⟩ := render_warning r.settings.printMode text line
  rw [hform] at hnew hwarn ⊢
  have hannounce : r.announce "warning" (.single form) = _ := announce_new .warning hnew
  rw [hwarn, hannounce]
  rfl

/-- A warning does not change what ends the run. -/
theorem Lenient.afterWarning {r : Reporter} (hr : r.Lenient) (report : Rendered) :
    (r.afterWarning report).Lenient :=
  (shouldDie_congr rfl _ _).trans hr

/-- What is added to the output does not depend on what was reported before. -/
theorem warningLine_afterWarning (r : Reporter) (report : Rendered) (text : String) :
    (r.afterWarning report).warningLine text = r.warningLine text := rfl

end Reporter

/-! ## Notices of which no two are alike -/

/-- The reports of the notices among some items. -/
def noticeReports (mode : PrintMode) (items : List StreamItem) : List Rendered :=
  items.filterMap fun
    | .notice n loc => some (noticeReport mode n loc)
    | _ => none

/-- Each notice adds its line; induction on the items, each of which is new to the reporter that
those in front of it have left. -/
theorem deliverItems_of_distinct (items : List StreamItem) (failure : Option Failure)
    {r : Reporter} (hr : r.Lenient)
    (hdistinct : (noticeReports r.settings.printMode items).Nodup)
    (hnew : ∀ report ∈ noticeReports r.settings.printMode items, report ∉ r.seen) :
    (deliverItems failure items r).reporter.output = r.output ++ String.join
      ((noticeReports r.settings.printMode items).map fun report =>
        r.warningLine report.fancy) := by
  induction items generalizing r with
  | nil => simp [deliverItems, noticeReports]
  | cons item rest ih =>
    cases item with
    | word w => exact ih hr hdistinct hnew
    | stray => exact ih hr hdistinct hnew
    | notice n loc =>
      have hreports : noticeReports r.settings.printMode (.notice n loc :: rest) =
          noticeReport r.settings.printMode n loc ::
            noticeReports r.settings.printMode rest := rfl
      rw [hreports] at hdistinct hnew ⊢
      obtain ⟨hfirst, hrest⟩ := List.nodup_cons.mp hdistinct
      have hwarn : r.warn n.message (some (.text loc)) =
          (.ok (), r.afterWarning (noticeReport r.settings.printMode n loc)) :=
        hr.warn_new (hnew (noticeReport r.settings.printMode n loc) List.mem_cons_self)
      have hnewer : ∀ report ∈ noticeReports r.settings.printMode rest,
          report ∉ (r.afterWarning (noticeReport r.settings.printMode n loc)).seen := by
        intro report hmem hseen
        rcases List.mem_cons.mp hseen with rfl | hseen
        · exact hfirst hmem
        · exact hnew report (by simp [hmem]) hseen
      have hbehind := ih (hr.afterWarning (noticeReport r.settings.printMode n loc)) hrest hnewer
      rw [deliverItems, hwarn]
      simp only [Reporter.warningLine_afterWarning] at hbehind
      refine hbehind.trans ?_
      rw [List.map_cons, String.join_cons, ← String.append_assoc]
      rfl

/-- Behind some items a lenient reporter does not depend on how the stream ends. -/
theorem reporter_deliverItems (items : List StreamItem) (failure : Option Failure)
    {r : Reporter} (hr : r.Lenient) :
    (deliverItems failure items r).reporter = (deliverItems none items r).reporter := by
  have happend := deliverItems_append items [] failure hr
  rw [List.append_nil] at happend
  rw [happend]
  rfl

/-! ## Places in one text -/

/-- Notices about different places of a text are reported differently. -/
theorem Source.noticeReport_ne_of_left (s : Source) (mode : PrintMode) (n n' : Notice)
    {left left' : Nat} (hleft : left ≤ s.size) (hleft' : left' ≤ s.size) (hne : left ≠ left') :
    noticeReport mode n (s.locOfLeft left) ≠ noticeReport mode n' (s.locOfLeft left') := by
  intro hreport
  rw [s.locOfLeft_eq hleft, s.locOfLeft_eq hleft'] at hreport
  obtain ⟨hline, hcolumn⟩ := render_warning_inj hreport
  have hindex := index_eq_of_place (by omega) (by omega) hline hcolumn
  omega

end MarkupSpans
