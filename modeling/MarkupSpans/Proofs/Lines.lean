import MarkupSpans.Source

/-!
# Lines by the row of line feeds

What the search in the row of line feeds finds, told by the characters alone: as many line feeds
as stand in front of an index are below it (`Source.lineIndex_eq`), so a line counts them, a
column is the distance from the last of them, and the next line begins behind the first one that
is not below the index.
-/

set_option autoImplicit false

namespace MarkupSpans

/-! ## Search by halves -/

/-- The search keeps the border between the entries below `x` and the others. -/
theorem bisectWithin_append {front back : List Nat} {x : Int} (hfront : ∀ y ∈ front, (y : Int) < x)
    (hback : ∀ y ∈ back, x ≤ y) {steps low high : Nat} (hlow : low ≤ front.length)
    (hhigh : front.length ≤ high) (hlength : high ≤ (front ++ back).length)
    (hsteps : high - low ≤ steps) :
    bisectWithin (front ++ back) x steps low high = front.length := by
  induction steps generalizing low high with
  | zero =>
    rw [bisectWithin]
    omega
  | succ steps ih =>
    rw [bisectWithin]
    split
    case isFalse hdone => omega
    case isTrue hopen =>
      have hmiddle : (low + high) / 2 < (front ++ back).length := by omega
      simp only [List.getD_eq_getElem?_getD, List.getElem?_eq_getElem hmiddle, Option.getD_some]
      rcases Nat.lt_or_ge ((low + high) / 2) front.length with hin | hout
      · have hbelow : ((front ++ back)[(low + high) / 2] : Int) < x := by
          rw [List.getElem_append_left hin]
          exact hfront _ (List.getElem_mem _)
        rw [if_pos hbelow]
        exact ih (by omega) hhigh hlength (by omega)
      · have habove : ¬ ((front ++ back)[(low + high) / 2] : Int) < x := by
          rw [List.getElem_append_right hout]
          exact Int.not_lt.mpr (hback _ (List.getElem_mem _))
        rw [if_neg habove]
        exact ih hlow hout (by omega) (by omega)

/-- The place that is searched for lies between the smaller and the other entries. -/
theorem bisect_append {front back : List Nat} {x : Int} (hfront : ∀ y ∈ front, (y : Int) < x)
    (hback : ∀ y ∈ back, x ≤ y) : bisect (front ++ back) x = front.length :=
  bisectWithin_append hfront hback (Nat.zero_le _) (by simp) (Nat.le_refl _) (by simp)

namespace Source

/-! ## The row of line feeds -/

/-- The line feeds of texts in a row follow one another. -/
theorem lineFeedsFrom_append (start : Nat) (cs more : List Char) :
    lineFeedsFrom start (cs ++ more) =
      lineFeedsFrom start cs ++ lineFeedsFrom (start + cs.length) more := by
  induction cs generalizing start with
  | nil => rfl
  | cons c cs ih =>
    have hlength : start + 1 + cs.length = start + (c :: cs).length := by
      rw [List.length_cons]
      omega
    rw [List.cons_append, lineFeedsFrom, lineFeedsFrom, ih, hlength]
    split <;> rfl

/-- There are as many places of line feeds as line feeds. -/
theorem length_lineFeedsFrom (start : Nat) (cs : List Char) :
    (lineFeedsFrom start cs).length = cs.count '\n' := by
  induction cs generalizing start with
  | nil => rfl
  | cons c cs ih =>
    rw [lineFeedsFrom]
    split
    case isTrue hfeed => rw [List.length_cons, ih, hfeed, List.count_cons_self]
    case isFalse hother => rw [ih, List.count_cons_of_ne hother]

/-- The place of a line feed lies inside its text. -/
theorem bounds_of_mem_lineFeedsFrom {start k : Nat} {cs : List Char}
    (h : k ∈ lineFeedsFrom start cs) : start ≤ k ∧ k < start + cs.length := by
  induction cs generalizing start with
  | nil => cases h
  | cons c cs ih =>
    have hrest : k ∈ lineFeedsFrom (start + 1) cs → start ≤ k ∧ k < start + (c :: cs).length := by
      intro hk
      have hbounds := ih hk
      rw [List.length_cons]
      omega
    rw [lineFeedsFrom] at h
    split at h
    case isTrue =>
      rcases List.mem_cons.mp h with rfl | hk
      · exact ⟨Nat.le_refl _, by simp⟩
      · exact hrest hk
    case isFalse => exact hrest h

/-- A text without line feeds has no places of them. -/
theorem lineFeedsFrom_eq_nil {start : Nat} {cs : List Char} (h : '\n' ∉ cs) :
    lineFeedsFrom start cs = [] := by
  rw [← List.length_eq_zero_iff, length_lineFeedsFrom]
  exact List.count_eq_zero.mpr h

/-- The first line feed of a text comes first in the row. -/
theorem lineFeedsFrom_run {start : Nat} {run rest : List Char} (hrun : '\n' ∉ run) :
    lineFeedsFrom start (run ++ '\n' :: rest) =
      (start + run.length) :: lineFeedsFrom (start + run.length + 1) rest := by
  rw [lineFeedsFrom_append, lineFeedsFrom_eq_nil hrun, List.nil_append, lineFeedsFrom, if_pos rfl]

/-- A text consists of what lies in front of an index and what lies behind it. -/
theorem before_append_drop (s : Source) (i : Int) : s.before i ++ s.chars.drop i.toNat = s.chars :=
  List.take_append_drop _ _

/-- The row is cut where the text is cut. -/
theorem lineFeeds_eq_append (s : Source) (i : Int) :
    s.lineFeeds = lineFeedsFrom 0 (s.before i) ++
      lineFeedsFrom (s.before i).length (s.chars.drop i.toNat) := by
  have hcut := lineFeedsFrom_append 0 (s.before i) (s.chars.drop i.toNat)
  rw [before_append_drop, Nat.zero_add] at hcut
  exact hcut

/-- The search finds how many line feeds stand in front of an index. -/
theorem lineIndex_eq (s : Source) (i : Int) : s.lineIndex i = (s.before i).count '\n' := by
  rw [lineIndex, s.lineFeeds_eq_append i, ← length_lineFeedsFrom 0 (s.before i)]
  have hlength : (s.before i).length = min i.toNat s.chars.length := List.length_take
  apply bisect_append
  · intro k hk
    have hbounds := bounds_of_mem_lineFeedsFrom hk
    omega
  · intro k hk
    have hbounds := bounds_of_mem_lineFeedsFrom hk
    rw [List.length_drop] at hbounds
    omega

/-! ## Lines and columns -/

/-- A line is the number of line feeds in front, counted from the first line. -/
theorem line_eq (s : Source) (i : Int) :
    s.line i = s.startLine + (s.before i).count '\n' := by
  rw [line, lineIndex_eq, Int.add_comm]

/-- Without a line feed in front a column is the distance from the beginning, counted from one. -/
theorem column_of_not_mem {s : Source} {i : Int} (h : '\n' ∉ s.before i) :
    s.column i = i + 1 := by
  rw [column, lineIndex_eq, List.count_eq_zero.mpr h]

/-- A column is the distance from the last line feed in front. -/
theorem column_of_before {s : Source} {i : Int} {front run : List Char}
    (hbefore : s.before i = front ++ '\n' :: run) (hrun : '\n' ∉ run) :
    s.column i = i - front.length := by
  have hindex : s.lineIndex i = front.count '\n' + 1 := by
    rw [lineIndex_eq, hbefore, List.count_append, List.count_cons_self,
      List.count_eq_zero.mpr hrun]
  have hfeed : s.lineFeeds.getD (front.count '\n') 0 = front.length := by
    have hback : lineFeedsFrom 0 (front ++ '\n' :: run) =
        lineFeedsFrom 0 front ++ [front.length] := by
      rw [lineFeedsFrom_append, lineFeedsFrom, if_pos rfl, lineFeedsFrom_eq_nil hrun,
        Nat.zero_add]
    rw [s.lineFeeds_eq_append i, hbefore, hback, ← length_lineFeedsFrom 0 front]
    simp
  rw [column, hindex]
  dsimp only
  rw [hfeed]

/-- A text with line feeds has a last one. -/
theorem exists_last_lineFeed {cs : List Char} (h : '\n' ∈ cs) :
    ∃ front run, cs = front ++ '\n' :: run ∧ '\n' ∉ run := by
  obtain ⟨run, front, hsplit, hrun⟩ := List.eq_append_cons_of_mem (List.mem_reverse.mpr h)
  refine ⟨front.reverse, run.reverse, ?_, by simpa using hrun⟩
  rw [← List.reverse_reverse cs, hsplit]
  simp

/-- A column depends on what stands in front. -/
theorem column_congr {s s' : Source} {i : Int} (h : s.before i = s'.before i) :
    s.column i = s'.column i := by
  by_cases hfeed : '\n' ∈ s.before i
  · obtain ⟨front, run, hsplit, hrun⟩ := exists_last_lineFeed hfeed
    rw [column_of_before hsplit hrun, column_of_before (h ▸ hsplit) hrun]
  · rw [column_of_not_mem hfeed, column_of_not_mem (h ▸ hfeed)]

/-! ## Ends of lines -/

/-- The next line begins behind the first line feed that is not in front. -/
theorem nextLineStart_of_drop {s : Source} {i : Int} {run rest : List Char}
    (hdrop : s.chars.drop i.toNat = run ++ '\n' :: rest) (hrun : '\n' ∉ run) :
    s.nextLineStart i = i.toNat + run.length + 1 := by
  have hlength : (s.before i).length = i.toNat := by
    have hleft := congrArg List.length hdrop
    simp only [List.length_drop, List.length_append, List.length_cons] at hleft
    rw [before, List.length_take]
    omega
  rw [nextLineStart, lineIndex_eq, s.lineFeeds_eq_append i, hdrop, lineFeedsFrom_run hrun, hlength,
    ← length_lineFeedsFrom 0 (s.before i)]
  simp

/-- Without a line feed behind an index there is no next line. -/
theorem nextLineStart_of_not_mem {s : Source} {i : Int} (h : '\n' ∉ s.chars.drop i.toNat) :
    s.nextLineStart i = s.size := by
  rw [nextLineStart, lineIndex_eq, s.lineFeeds_eq_append i, lineFeedsFrom_eq_nil h,
    ← length_lineFeedsFrom 0 (s.before i)]
  simp

end Source

end MarkupSpans
