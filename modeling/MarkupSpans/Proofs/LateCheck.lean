import MarkupSpans.Proofs.Rendering
import MarkupSpans.Proofs.Reporting

/-!
# The late check

Which failures a check at the end of a run finds.  The check reads the categories that have been
counted, and a report is counted if none in front of it prints alike.  So a failure is found unless
a warning hides it, and a warning can do that in plain text only, where a report with a place does
not show its category (`render_fatal_eq_warning_iff`).
-/

set_option autoImplicit false

namespace MarkupSpans

open Report

/-- A failure that prints like a warning in front of it, where only failures are grave. -/
def Told.HiddenBehind (s : Settings) (before : List Told) (told : Told) : Prop :=
  s.printMode = .plain ∧ s.dieOn = .fatal ∧ told.category = .fatal ∧
    ∃ earlier ∈ before, earlier.category = .warning ∧
      ∃ ref ref', told.line = some ref ∧ earlier.line = some ref' ∧
        ref.plain ++ ": " ++ told.text = ref'.plain ++ ": " ++ earlier.text

/-- How grave a report is depends on its category only. -/
theorem Told.grave_of_category_eq {s : Settings} {told other : Told}
    (h : told.category = other.category) (hgrave : told.Grave s) : other.Grave s := by
  rw [Told.Grave, ← h]
  exact hgrave

namespace Reporter

/-! ## What the check reads -/

/-- The check ends the run if a category that it is given is grave enough, and else it passes. -/
theorem checkCategories_late {r : Reporter} (hlate : r.settings.dieWhen = .late)
    (names : List String) (hnames : ∀ name ∈ names, ∃ c : Category, c.name = name) :
    ((∃ c : Category, c.name ∈ names ∧ r.settings.dieOn.rank ≤ c.level.rank) →
        r.checkCategories .late names = r.exitNow) ∧
      ((∀ c : Category, c.name ∈ names → ¬ r.settings.dieOn.rank ≤ c.level.rank) →
        r.checkCategories .late names = (.ok (), r)) := by
  induction names with
  | nil => exact ⟨fun ⟨_, hmem, _⟩ => absurd hmem List.not_mem_nil, fun _ => rfl⟩
  | cons name rest ih =>
    obtain ⟨c, rfl⟩ := hnames name List.mem_cons_self
    obtain ⟨hexits, hpasses⟩ := ih fun other hother => hnames other (List.mem_cons_of_mem _ hother)
    rw [checkCategories, shouldDie_late hlate]
    by_cases hgrave : r.settings.dieOn.rank ≤ c.level.rank
    · rw [decide_eq_true hgrave]
      exact ⟨fun _ => rfl, fun hnone => absurd hgrave (hnone c List.mem_cons_self)⟩
    · rw [decide_eq_false hgrave]
      constructor
      · rintro ⟨other, hmem, hother⟩
        apply hexits
        refine ⟨other, ?_, hother⟩
        apply List.mem_of_ne_of_mem _ hmem
        intro heq
        rw [Category.name_inj heq] at hother
        exact hgrave hother
      · intro hnone
        exact hpasses fun other hother => hnone other (List.mem_cons_of_mem _ hother)

/-- The check ends the run exactly if a grave report has been counted. -/
theorem Behind.check_late {start r : Reporter} {calls : List ReportCall}
    (h : Behind start calls r) (hlate : start.settings.dieWhen = .late) :
    ((r.check .late).1 = .ok () ∨ (r.check .late).1 = .error (.exit 2)) ∧
      ((r.check .late).1 = .error (.exit 2) ↔
        ∃ c, Counted start.settings.printMode calls c ∧
          start.settings.dieOn.rank ≤ c.level.rank) := by
  have hsettings := h.settings_eq
  obtain ⟨hexits, hpasses⟩ := checkCategories_late (hsettings ▸ hlate) r.counts.names (by
    intro name hmem
    obtain ⟨c, hname, -⟩ := (h.mem_names_iff name).mp hmem
    exact ⟨c, hname⟩)
  rw [hsettings] at hexits hpasses
  by_cases hgrave : ∃ c, Counted start.settings.printMode calls c ∧
      start.settings.dieOn.rank ≤ c.level.rank
  · have hexit : (r.check .late).1 = .error (.exit 2) := by
      obtain ⟨c, hcounted, hrank⟩ := hgrave
      rw [check, hexits ⟨c, (h.mem_names_iff _).mpr ⟨c, rfl, hcounted⟩, hrank⟩]
      exact r.exitNow_fst
    exact ⟨.inr hexit, fun _ => hgrave, fun _ => hexit⟩
  · have hpass : (r.check .late).1 = .ok () := by
      rw [check, hpasses]
      intro c hmem hrank
      obtain ⟨c', hname, hcounted⟩ := (h.mem_names_iff _).mp hmem
      rw [Category.name_inj hname] at hcounted
      exact hgrave ⟨c, hcounted, hrank⟩
    refine ⟨.inl hpass, ?_, fun hcounted => absurd hcounted hgrave⟩
    intro hexit
    rw [hpass] at hexit
    cases hexit

/-- Where the check is late no report ends the run, on whatever output. -/
theorem Behind.performAll_late {start r : Reporter} {calls : List ReportCall}
    (h : Behind start calls r) (hlate : start.settings.dieWhen = .late) (more : List Told) :
    ∃ r', r.performAll (more.map .report) = (.ok (), r') ∧
      Behind start (calls ++ more.map .report) r' := by
  induction more generalizing calls r with
  | nil => exact ⟨r, rfl, by simpa using h⟩
  | cons told rest ih =>
    obtain ⟨mid, -, hmid, htell⟩ := h.tell_eq told
    have hharmless : ¬ (ReportCall.report told).Deadly start.settings := by
      rintro ⟨hearly, -⟩
      rw [hlate] at hearly
      cases hearly
    rw [if_neg hharmless] at htell
    obtain ⟨r', hall, hbehind⟩ := ih hmid
    refine ⟨r', ?_, by simpa using hbehind⟩
    rw [List.map_cons, Reporter.performAll, Reporter.perform, htell]
    exact hall

/-! ## What is counted -/

/-- The reports of calls that are all reports are all of them. -/
theorem reportsOf_map_report (mode : PrintMode) (calls : List Told) :
    reportsOf mode (calls.map .report) = calls.map (Told.rendered mode) := by
  rw [reportsOf, List.filterMap_map]
  exact List.filterMap_eq_map' (f := Told.rendered mode) ▸ rfl

/-- Among the reports that print like a given one there is a first one, and that one is counted. -/
theorem exists_first_rendered (mode : PrintMode) {calls : List Told} {told : Told}
    (h : told ∈ calls) : ∃ before first after, calls = before ++ first :: after ∧
      first.rendered mode = told.rendered mode ∧
      told.rendered mode ∉ before.map (Told.rendered mode) := by
  obtain ⟨shown, more, hsplit, hfirst⟩ :=
    List.eq_append_cons_of_mem (List.mem_map_of_mem (f := Told.rendered mode) h)
  obtain ⟨before, behind, rfl, rfl, hbehind⟩ := List.map_eq_append_iff.mp hsplit
  obtain ⟨first, after, rfl, hrendered, -⟩ := List.map_eq_cons_iff.mp hbehind
  exact ⟨before, first, after, rfl, hrendered, hfirst⟩

/-- Of two reports that print alike the first one is as grave, or it hides the second one. -/
theorem grave_or_hiddenBehind {s : Settings} {before : List Told} {first told : Told}
    (hmem : first = told ∨ first ∈ before)
    (hrendered : first.rendered s.printMode = told.rendered s.printMode)
    (hgrave : told.Grave s) : first.Grave s ∨ told.HiddenBehind s before := by
  by_cases hcategory : told.category = first.category
  · exact .inl (Told.grave_of_category_eq hcategory hgrave)
  rw [Told.rendered, Told.rendered] at hrendered
  cases hfirst : first.category with
  | fatal =>
    -- nothing that is reported is graver than a failure
    left
    unfold Told.Grave at hgrave ⊢
    apply hgrave.trans
    rw [hfirst]
    cases told.category <;> decide
  | warning =>
    have htold : told.category = .fatal := by
      cases h : told.category
      case warning => exact absurd (h.trans hfirst.symm) hcategory
      case fatal => rfl
    rw [hfirst, htold] at hrendered
    obtain ⟨hplain, ref, ref', hline, hline', htext⟩ :=
      (render_fatal_eq_warning_iff _ _ _ _ _).mp hrendered.symm
    unfold Told.Grave at hgrave ⊢
    rw [htold] at hgrave
    rw [hfirst]
    cases hdie : s.dieOn with
    | fatal =>
      right
      have hearlier : first ∈ before := by
        rcases hmem with rfl | hmem
        · exact absurd rfl hcategory
        · exact hmem
      exact ⟨hplain, hdie, htold, first, hearlier, hfirst, ref, ref', hline, hline', htext⟩
    | nothing =>
      rw [hdie] at hgrave
      exact absurd hgrave (by decide)
    | _ => exact .inl (by decide)

/-- A report that is hidden behind others looks like one of them. -/
theorem rendered_of_hiddenBehind {s : Settings} {before : List Told} {told : Told}
    (h : told.HiddenBehind s before) :
    told.rendered s.printMode ∈ before.map (Told.rendered s.printMode) := by
  obtain ⟨hplain, -, htold, earlier, hmem, hearlier, ref, ref', hline, hline', htext⟩ := h
  refine List.mem_map.mpr ⟨earlier, hmem, ?_⟩
  rw [Told.rendered, Told.rendered, hearlier, htold]
  exact ((render_fatal_eq_warning_iff _ _ _ _ _).mpr
    ⟨hplain, ref, ref', hline, hline', htext⟩).symm

/-- A grave report is counted exactly if some grave report is hidden behind none. -/
theorem exists_counted_grave_iff (s : Settings) (calls : List Told) :
    (∃ c, Counted s.printMode (calls.map .report) c ∧ s.dieOn.rank ≤ c.level.rank) ↔
      ∃ before told after, calls = before ++ told :: after ∧ told.Grave s ∧
        ¬ told.HiddenBehind s before := by
  constructor
  · rintro ⟨c, ⟨before, told, after, hcalls, rfl, hnew⟩, hgrave⟩
    obtain ⟨front, behind, rfl, rfl, hbehind⟩ := List.map_eq_append_iff.mp hcalls
    obtain ⟨told', rest, rfl, htold, -⟩ := List.map_eq_cons_iff.mp hbehind
    cases htold
    rw [reportsOf_map_report] at hnew
    exact ⟨front, told, rest, rfl, hgrave, fun hhidden => hnew (rendered_of_hiddenBehind hhidden)⟩
  · rintro ⟨before, told, after, rfl, hgrave, hvisible⟩
    have htold : told ∈ before ++ [told] := List.mem_concat_self
    obtain ⟨front, first, rest, hfront, hrendered, hnew⟩ :=
      exists_first_rendered s.printMode htold
    have hmem : first = told ∨ first ∈ before := by
      have hmem : first ∈ before ++ [told] := by
        rw [hfront]
        exact List.mem_append_cons_self
      simpa [or_comm] using hmem
    have hfirst : first.Grave s :=
      (grave_or_hiddenBehind hmem hrendered hgrave).resolve_right hvisible
    refine ⟨first.category, ⟨front.map .report, first, (rest ++ after).map .report, ?_, rfl, ?_⟩,
      hfirst⟩
    · rw [← List.singleton_append, ← List.append_assoc, hfront]
      simp
    · rw [reportsOf_map_report, hrendered]
      exact hnew

/-- After a run of reports the late check ends the run if and only if one of them was grave and not
hidden, and it is hidden only in plain text, behind a warning with a place. -/
theorem check_late_exits_iff (r : Reporter) (hclean : r.Clean)
    (hlate : r.settings.dieWhen = .late) (calls : List Told) :
    let run := r.performAll (calls.map .report)
    let checked := (run.2.check .late).1
    let nothingHidden := ∀ before told after, calls = before ++ told :: after →
      ¬ told.HiddenBehind r.settings before
    -- no report ends the run, and the check ends it with status 2 or not at all
    run.1 = .ok () ∧ (checked = .ok () ∨ checked = .error (.exit 2)) ∧
    (checked = .error (.exit 2) ↔
      ∃ before told after, calls = before ++ told :: after ∧ told.Grave r.settings ∧
        ¬ told.HiddenBehind r.settings before) ∧
    -- so no grave report is missed where nothing is hidden,
    (nothingHidden → (checked = .error (.exit 2) ↔ ∃ told ∈ calls, told.Grave r.settings)) ∧
    -- as in every other mode, and wherever it is not the failures alone that are grave
    (r.settings.printMode ≠ .plain ∨ r.settings.dieOn ≠ .fatal → nothingHidden) := by
  intro run checked nothingHidden
  obtain ⟨r', hall, hbehind⟩ := hclean.behind.performAll_late hlate calls
  obtain ⟨hends, hiff⟩ := hbehind.check_late hlate
  have hchecked : checked = (r'.check .late).1 := by
    simp only [checked, run, hall]
  rw [List.nil_append, exists_counted_grave_iff] at hiff
  rw [hchecked]
  refine ⟨congrArg Prod.fst hall, hends, hiff, ?_, ?_⟩
  · intro hvisible
    rw [hiff]
    constructor
    · rintro ⟨before, told, after, rfl, hgrave, -⟩
      exact ⟨told, List.mem_append_cons_self, hgrave⟩
    · rintro ⟨told, hmem, hgrave⟩
      obtain ⟨before, after, hsplit⟩ := List.append_of_mem hmem
      exact ⟨before, told, after, hsplit, hgrave, hvisible before told after hsplit⟩
  · rintro hsettings before told after - ⟨hplain, hfatal, -⟩
    exact hsettings.elim (absurd hplain) (absurd hfatal)

/-- A warning, and a failure that says the same of the same place. -/
def coveringCalls : List Told :=
  [⟨.warning, "x", some firstLine⟩, ⟨.fatal, "x", some firstLine⟩]

/-- A new reporter that prints for a console. -/
def consoleReporter : Reporter where
  settings := { printMode := .console }

/-- On a console the check finds the failure, and in plain text it would find the same failure
without the warning. -/
theorem check_late_coveringCalls :
    ((consoleReporter.performAll (coveringCalls.map .report)).2.check .late).1 =
        .error (.exit 2) ∧
      (((plainReporter .late).performAll ((coveringCalls.drop 1).map .report)).2.check .late).1 =
        .error (.exit 2) := by
  obtain ⟨-, -, -, hconsole, hvisible⟩ :=
    check_late_exits_iff consoleReporter ⟨rfl, rfl⟩ rfl coveringCalls
  obtain ⟨-, -, hplain, -⟩ :=
    check_late_exits_iff (plainReporter .late) ⟨rfl, rfl⟩ rfl (coveringCalls.drop 1)
  constructor
  · exact (hconsole (hvisible (.inl (by decide)))).mpr ⟨coveringCalls[1], by simp, by decide⟩
  · apply hplain.mpr
    refine ⟨[], coveringCalls[1], [], rfl, by decide, ?_⟩
    rintro ⟨-, -, -, earlier, hmem, -⟩
    cases hmem

/-- In plain text the warning hides the failure, and the check passes. -/
theorem coveringCalls_pass :
    (∃ told ∈ coveringCalls, told.Grave (plainReporter .late).settings) ∧
      (((plainReporter .late).performAll (coveringCalls.map .report)).2.check .late).1 =
        .ok () :=
  ⟨⟨coveringCalls[1], by simp, by decide⟩, by decide +kernel⟩

end Reporter

end MarkupSpans
