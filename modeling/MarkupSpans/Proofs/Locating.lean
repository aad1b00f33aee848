import Mathlib.Data.Nat.Find
import MarkupSpans.Proofs.Place

/-!
# Places tell indices apart

The places of a text by its characters.  Along the text the places grow, first by line and then by
column (`Source.place_lt`), so two indices never share a place as it is written
(`Source.loc_inj`).  A line is over at the first line feed or at the end of the text
(`Source.EndsLine`), and the lines that follow each other from the beginning on make up the whole
text (`Source.flatten_lines`, `Source.exists_lineStart_eq_size`).
-/

set_option autoImplicit false

namespace MarkupSpans

open Grammar

namespace Source

variable {s : Source} {i j : Nat}

/-- A line feed stands at the index. -/
def IsLineFeed (s : Source) (k : Nat) : Prop := s.chars[k]? = some '\n'

/-! ## The last line feed in front -/

/-- The index of the last line feed in front of `i`, where -1 stands for none. -/
def LastLineFeed (s : Source) (i : Nat) (last : Int) : Prop :=
  (∃ k : Nat, last = k ∧ k < i ∧ s.IsLineFeed k ∧ ∀ m, k < m → m < i → ¬ s.IsLineFeed m) ∨
    (last = -1 ∧ ∀ m < i, ¬ s.IsLineFeed m)

/-- A line feed in front of an index can be seen in the text up to it. -/
theorem isLineFeed_iff_take {m : Nat} (hm : m < i) :
    s.IsLineFeed m ↔ (s.chars.take i)[m]? = some '\n' := by
  rw [IsLineFeed, List.getElem?_take_of_lt hm]

/-- A column is the distance from the last line feed in front. -/
theorem exists_lastLineFeed (hi : i ≤ s.size) :
    ∃ last, s.LastLineFeed i last ∧ s.column i = i - last := by
  by_cases hfeed : '\n' ∈ s.chars.take i
  · obtain ⟨front, run, hsplit, hrun⟩ := exists_last_lineFeed hfeed
    have hlength : front.length + (run.length + 1) = i := by
      rw [← List.length_cons (a := '\n'), ← List.length_append, ← hsplit, List.length_take]
      exact Nat.min_eq_left hi
    have hinside : front.length < i := by omega
    refine ⟨front.length, .inl ⟨front.length, rfl, hinside, ?_, ?_⟩,
      column_of_before ((s.before_natCast i).trans hsplit) hrun⟩
    · rw [isLineFeed_iff_take hinside, hsplit]
      simp
    · intro m hlow hhigh
      rw [isLineFeed_iff_take hhigh, hsplit, List.getElem?_append_right (by omega),
        List.getElem?_cons, if_neg (by omega)]
      exact fun hm => hrun (List.mem_of_getElem? hm)
  · refine ⟨-1, .inr ⟨rfl, ?_⟩, ?_⟩
    · intro m hm
      rw [isLineFeed_iff_take hm]
      exact fun h => hfeed (List.mem_of_getElem? h)
    · have hbefore : '\n' ∉ s.before i := hfeed
      rw [column_of_not_mem hbefore]
      omega

/-! ## Places grow -/

/-- Later indices lie on no earlier lines. -/
theorem line_le (hij : i ≤ j) : s.line i ≤ s.line j := by
  have hsublist : (s.chars.take i).Sublist (s.chars.take j) :=
    (List.take_prefix_take_left hij).sublist
  have hcount := hsublist.count_le '\n'
  rw [line_eq, line_eq, before_natCast, before_natCast]
  omega

/-- Along the text the places grow, first by line and then by column. -/
theorem place_lt (hij : i < j) (hj : j ≤ s.size) :
    s.line i < s.line j ∨ (s.line i = s.line j ∧ s.column i < s.column j) := by
  rcases Int.lt_or_eq_of_le (line_le (s := s) hij.le) with hline | hline
  · exact .inl hline
  · have hmoved := column_eq_of_line_eq hij.le hj hline
    exact .inr ⟨hline, by omega⟩

/-- Two indices never share a place as it is written. -/
theorem loc_inj (hi : i ≤ s.size) (hj : j ≤ s.size) (h : s.loc i = s.loc j) : i = j := by
  have hstops : Stops isNumeralChar s.contextText := by
    rw [← List.append_nil s.contextText]
    exact s.stops_contextText_append (stops_nil _)
  have hlist := congrArg String.toList h
  rw [loc_eq, loc_eq, toList_placeText, toList_placeText] at hlist
  obtain ⟨hline, hcolumn, -⟩ := place_append_inj hstops hstops hlist
  exact index_eq_of_place hi hj hline hcolumn

/-! ## Ends of lines -/

/-- The line of `i` is over at `j`: at the first line feed from `i` on, or else at the end of the
text. -/
structure EndsLine (s : Source) (i j : Nat) : Prop where
  le : i ≤ j
  le_size : j ≤ s.size
  run : ∀ m, i ≤ m → m < j → ¬ s.IsLineFeed m
  stop : s.IsLineFeed j ∨ j = s.size

open Classical in
/-- Every index has an end of its line. -/
theorem exists_endsLine (hi : i ≤ s.size) : ∃ j, s.EndsLine i j := by
  have hstop : ∃ j, i ≤ j ∧ (s.IsLineFeed j ∨ j = s.size) := ⟨s.size, hi, .inr rfl⟩
  refine ⟨Nat.find hstop, (Nat.find_spec hstop).1, Nat.find_min' hstop ⟨hi, .inr rfl⟩, ?_,
    (Nat.find_spec hstop).2⟩
  intro m him hm hfeed
  exact Nat.find_min hstop hm ⟨him, .inl hfeed⟩

namespace EndsLine

/-- No line feed stands between an index and the end of its line. -/
theorem not_mem (h : s.EndsLine i j) : '\n' ∉ (s.chars.take j).drop i := by
  intro hmem
  obtain ⟨k, hk⟩ := List.mem_iff_getElem?.mp hmem
  rw [List.getElem?_drop] at hk
  have hbelow : i + k < j := by
    have hinside := (List.getElem?_eq_some_iff.mp hk).1
    rw [List.length_take] at hinside
    omega
  exact h.run (i + k) (by omega) hbelow ((isLineFeed_iff_take hbelow).mpr hk)

/-- The text behind an index is the rest of its line and what follows. -/
theorem drop_eq (h : s.EndsLine i j) :
    s.chars.drop i = (s.chars.take j).drop i ++ s.chars.drop j := by
  have hle := h.le
  have hsize : j ≤ s.chars.length := h.le_size
  rw [← List.drop_append_of_le_length (by rw [List.length_take]; omega), List.take_append_drop]

/-- The rest of a line is as long as its end is away. -/
theorem length_run (h : s.EndsLine i j) : ((s.chars.take j).drop i).length = j - i := by
  have hsize : j ≤ s.chars.length := h.le_size
  rw [List.length_drop, List.length_take]
  omega

/-- The next line begins behind the line feed that ends the line. -/
theorem nextLineStart_eq (h : s.EndsLine i j) :
    (s.IsLineFeed j ∧ s.nextLineStart i = j + 1) ∨ (j = s.size ∧ s.nextLineStart i = s.size) := by
  rcases h.stop with hfeed | hend
  · obtain ⟨hinside, hchar⟩ := List.getElem?_eq_some_iff.mp hfeed
    have hdrop := h.drop_eq
    rw [List.drop_eq_getElem_cons hinside, hchar] at hdrop
    have hnext := nextLineStart_of_drop (i := i) hdrop h.not_mem
    have hle := h.le
    rw [Int.toNat_natCast, h.length_run] at hnext
    exact .inl ⟨hfeed, by omega⟩
  · have hdrop := h.drop_eq
    rw [hend, List.drop_eq_nil_of_le (i := s.size) (Nat.le_refl _), List.append_nil] at hdrop
    refine .inr ⟨hend, nextLineStart_of_not_mem ?_⟩
    rw [Int.toNat_natCast, hdrop]
    exact hend ▸ h.not_mem

/-- The rest of a line is what stands in front of its end. -/
theorem restOfLine_eq (h : s.EndsLine i j) : s.restOfLine i = (s.chars.take j).drop i := by
  have hslice : s.slice (some i) (some (s.nextLineStart i)) =
      (s.chars.take (s.nextLineStart i)).drop i := rfl
  have hkept : ((s.chars.take j).drop i).reverse.dropWhile (· == '\n') =
      ((s.chars.take j).drop i).reverse := by
    apply List.dropWhile_eq_self_iff.mpr
    intro hlength hfeed
    rw [beq_iff_eq] at hfeed
    exact h.not_mem (List.mem_reverse.mp (hfeed ▸ List.getElem_mem hlength))
  rcases h.nextLineStart_eq with ⟨hfeed, hnext⟩ | ⟨hend, hnext⟩
  · -- the slice goes over the line feed, which is cut off
    obtain ⟨hinside, hchar⟩ := List.getElem?_eq_some_iff.mp hfeed
    have htake : (s.chars.take (j + 1)).drop i = (s.chars.take j).drop i ++ ['\n'] := by
      have hle := h.le
      rw [List.take_add_one, hfeed, List.drop_append_of_le_length]
      · rfl
      · rw [List.length_take]
        omega
    rw [restOfLine, hslice, hnext, htake, List.reverse_append, List.reverse_singleton,
      List.singleton_append, List.dropWhile_cons_of_pos (by rfl), hkept, List.reverse_reverse]
  · rw [restOfLine, hslice, hnext, ← hend, hkept, List.reverse_reverse]

/-- The end of a line is found. -/
theorem lineEnd_eq (h : s.EndsLine i j) : s.lineEnd i = j := by
  have hle := h.le
  rw [lineEnd, h.restOfLine_eq, h.length_run]
  omega

/-- Up to its end the indices are on one line. -/
theorem line_eq (h : s.EndsLine i j) {m : Nat} (him : i ≤ m) (hmj : m ≤ j) :
    s.line m = s.line i := by
  have hsplit : s.chars.take m = s.chars.take i ++ (s.chars.take m).drop i := by
    have hcut := List.take_append_drop i (s.chars.take m)
    rwa [List.take_take, Nat.min_eq_left him, eq_comm] at hcut
  have hnone : '\n' ∉ (s.chars.take m).drop i := by
    have hsublist : ((s.chars.take m).drop i).Sublist ((s.chars.take j).drop i) :=
      (List.take_prefix_take_left hmj).sublist.drop i
    exact fun hmem => h.not_mem (hsublist.subset hmem)
  rw [Source.line_eq, Source.line_eq, before_natCast, before_natCast, hsplit, List.count_append,
    List.count_eq_zero.mpr hnone, Nat.add_zero]

end EndsLine

/-! ## The lines of a text -/

/-- The next line begins behind the index, unless the text ends there. -/
theorem nextLineStart_bounds (hi : i ≤ s.size) :
    i ≤ s.nextLineStart i ∧ s.nextLineStart i ≤ s.size ∧
      (i < s.size → i < s.nextLineStart i) := by
  obtain ⟨j, hends⟩ := exists_endsLine hi
  have hle := hends.le
  rcases hends.nextLineStart_eq with ⟨hfeed, hnext⟩ | ⟨hend, hnext⟩
  · have hinside : j < s.size := (List.getElem?_eq_some_iff.mp hfeed).1
    omega
  · omega

/-- Where the lines begin, from the beginning of the text on. -/
def lineStart (s : Source) : Nat → Nat
  | 0 => 0
  | n + 1 => s.nextLineStart (s.lineStart n)

/-- The first lines of a text, with their line feeds. -/
def lines (s : Source) (n : Nat) : List (List Char) :=
  (List.range n).map fun m => s.slice (some (s.lineStart m)) (some (s.lineStart (m + 1)))

/-- Lines begin inside the text. -/
theorem lineStart_le_size (s : Source) (n : Nat) : s.lineStart n ≤ s.size := by
  cases n with
  | zero => exact Nat.zero_le _
  | succ n =>
    induction n with
    | zero => exact (nextLineStart_bounds (Nat.zero_le _)).2.1
    | succ n ih => exact (nextLineStart_bounds ih).2.1

/-- The first lines are the text up to where the next one begins. -/
theorem flatten_lines (s : Source) (n : Nat) :
    (s.lines n).flatten = s.chars.take (s.lineStart n) := by
  induction n with
  | zero => rfl
  | succ n ih =>
    have hle : s.lineStart n ≤ s.lineStart (n + 1) :=
      (nextLineStart_bounds (s.lineStart_le_size n)).1
    have hslice : s.slice (some (s.lineStart n)) (some (s.lineStart (n + 1))) =
        (s.chars.take (s.lineStart (n + 1))).drop (s.lineStart n) := rfl
    have hfront : (s.chars.take (s.lineStart (n + 1))).take (s.lineStart n) =
        s.chars.take (s.lineStart n) := by
      rw [List.take_take, Nat.min_eq_left hle]
    rw [lines, List.range_succ, List.map_append, List.flatten_append, ← lines, ih,
      List.map_singleton, List.flatten_singleton, hslice, ← hfront, List.take_append_drop]

/-- Each line takes a character at least, so the end is reached. -/
theorem min_le_lineStart (s : Source) (n : Nat) : min n s.size ≤ s.lineStart n := by
  induction n with
  | zero => simp
  | succ n ih =>
    have hbounds := nextLineStart_bounds (s.lineStart_le_size n)
    rw [lineStart]
    omega

/-- Going from line to line one comes to the end, and moves on until then. -/
theorem exists_lineStart_eq_size (s : Source) :
    ∃ n ≤ s.size, s.lineStart n = s.size ∧ ∀ m < n, s.lineStart m < s.lineStart (m + 1) := by
  have hreached : ∃ n, s.lineStart n = s.size :=
    ⟨s.size, Nat.le_antisymm (s.lineStart_le_size _) (by simpa using s.min_le_lineStart s.size)⟩
  refine ⟨Nat.find hreached, ?_, Nat.find_spec hreached, ?_⟩
  · exact Nat.find_min' hreached
      (Nat.le_antisymm (s.lineStart_le_size _) (by simpa using s.min_le_lineStart s.size))
  · intro m hm
    have hle := s.lineStart_le_size m
    have hopen : s.lineStart m ≠ s.size := Nat.find_min hreached hm
    exact (nextLineStart_bounds hle).2.2 (by omega)

/-- Lines and columns count what stands in front of an index, so that different indices have
different places; and the lines, each up to its line feed, make up the text. -/
theorem places_and_lines (s : Source) :
    (∀ i : Nat, i ≤ s.size →
      s.line i = s.startLine + (s.chars.take i).count '\n' ∧
      (∃ last, s.LastLineFeed i last ∧ s.column i = i - last) ∧
      ∃ j : Nat, s.EndsLine i j ∧
        ((s.IsLineFeed j ∧ s.nextLineStart i = j + 1) ∨
          (j = s.size ∧ s.nextLineStart i = s.size)) ∧
        s.restOfLine i = (s.chars.take j).drop i ∧ s.lineEnd i = j ∧
        ∀ m : Nat, i ≤ m → m ≤ j → s.line m = s.line i) ∧
    (∀ i j : Nat, i < j → j ≤ s.size →
      (s.line i < s.line j ∨ (s.line i = s.line j ∧ s.column i < s.column j)) ∧
      s.loc i ≠ s.loc j) ∧
    ∃ n ≤ s.size, s.lineStart n = s.size ∧ (∀ m < n, s.lineStart m < s.lineStart (m + 1)) ∧
      (s.lines n).flatten = s.chars := by
  refine ⟨fun i hi => ⟨s.line_eq i, exists_lastLineFeed hi, ?_⟩, fun i j hij hj => ⟨?_, ?_⟩, ?_⟩
  · obtain ⟨j, hends⟩ := exists_endsLine hi
    exact ⟨j, hends, hends.nextLineStart_eq, hends.restOfLine_eq, hends.lineEnd_eq,
      fun m => hends.line_eq⟩
  · exact place_lt hij hj
  · intro hloc
    have hsame := loc_inj (hij.le.trans hj) hj hloc
    omega
  · obtain ⟨n, hn, hend, hgrow⟩ := s.exists_lineStart_eq_size
    refine ⟨n, hn, hend, hgrow, ?_⟩
    rw [flatten_lines, hend]
    exact List.take_length

/-- A listing with an empty line, numbered from 5. -/
def listing : Source :=
  { chars := "ab\n\nc".toList, startLine := 5, options := { context := some "listing" } }

/-- The places and the lines of the example. -/
theorem listing_places :
    (4 ≤ listing.size ∧ listing.line 4 = 7) ∧ listing.loc 2 ≠ listing.loc 3 ∧
      ∃ n ≤ 5, listing.lineStart n = 5 ∧ (listing.lines n).flatten = "ab\n\nc".toList := by
  obtain ⟨hplaces, hdiffer, n, hn, hend, -, hlines⟩ := places_and_lines listing
  have hline := (hplaces 4 (by decide)).1
  exact ⟨⟨by decide, hline⟩, (hdiffer 2 3 (by decide) (by decide)).2, n, hn, hend, hlines⟩

end Source

end MarkupSpans
