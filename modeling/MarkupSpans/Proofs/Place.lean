import MarkupSpans.Proofs.Grammar.Literal
import MarkupSpans.Proofs.Lines
import MarkupSpans.Report

/-!
# Places

What becomes of the lines and the columns of a text when another text is put in front of it
(`Source.loc_behind`), and why reports about two places of a text are never alike: an index is
determined by its line and column, these by the place as it is written, and that by the report
(`Source.render_warning_inj`).
-/

set_option autoImplicit false

namespace MarkupSpans

open Text Grammar Report

namespace Source

/-! ## Lines and columns -/

/-- The number of characters behind the last line feed. -/
def lastLineLength (cs : List Char) : Nat := (cs.reverse.takeWhile (· != '\n')).length

/-- The text with another one in front of it. -/
def behind (first : List Char) (s : Source) : Source := { s with chars := first ++ s.chars }

/-- The last line of two texts in a row begins in the second one if that has a line feed. -/
theorem lastLineLength_append (first cs : List Char) :
    lastLineLength (first ++ cs) =
      if '\n' ∈ cs then lastLineLength cs else lastLineLength first + cs.length := by
  unfold lastLineLength
  rw [List.reverse_append, List.takeWhile_append]
  by_cases hmem : '\n' ∈ cs
  · have hstop : (cs.reverse.takeWhile (· != '\n')).length ≠ cs.reverse.length := by
      intro hlength
      have hall := (List.takeWhile_sublist (l := cs.reverse) (· != '\n')).eq_of_length hlength
      have hfeed := List.mem_takeWhile_imp (hall ▸ List.mem_reverse.mpr hmem)
      simp at hfeed
    rw [if_neg hstop, if_pos hmem]
  · have hall : cs.reverse.takeWhile (· != '\n') = cs.reverse := by
      apply List.takeWhile_eq_self_iff.mpr
      intro c hc
      simp only [bne_iff_ne, ne_eq]
      rintro rfl
      exact hmem (List.mem_reverse.mp hc)
    rw [if_pos (by rw [hall]), if_neg hmem, List.length_append, List.length_reverse,
      Nat.add_comm]

/-- The last line is empty where there is no text or a line feed ends it. -/
theorem lastLineLength_eq_zero {cs : List Char} (h : cs = [] ∨ cs.getLast? = some '\n') :
    lastLineLength cs = 0 := by
  rcases h with rfl | hlast
  · rfl
  · obtain ⟨front, rfl⟩ := List.getLast?_eq_some_iff.mp hlast
    simp [lastLineLength]

/-- What is in front of an index are so many characters. -/
theorem before_natCast (s : Source) (j : Nat) : s.before j = s.chars.take j := rfl

/-- A column counts the characters of its line in front of it. -/
theorem column_eq (s : Source) {j : Nat} (hj : j ≤ s.size) :
    s.column j = lastLineLength (s.chars.take j) + 1 := by
  have hlength : (s.chars.take j).length = j := by
    rw [List.length_take]
    exact Nat.min_eq_left hj
  by_cases hfeed : '\n' ∈ s.chars.take j
  · obtain ⟨front, run, hsplit, hrun⟩ := exists_last_lineFeed hfeed
    have hfront : lastLineLength (front ++ ['\n']) = 0 := lastLineLength_eq_zero (.inr (by simp))
    have hline := lastLineLength_append (front ++ ['\n']) run
    rw [if_neg hrun, hfront, List.append_assoc, List.singleton_append] at hline
    rw [hsplit, List.length_append, List.length_cons] at hlength
    rw [column_of_before ((s.before_natCast j).trans hsplit) hrun, hsplit, hline]
    omega
  · have hline := lastLineLength_append [] (s.chars.take j)
    rw [List.nil_append, if_neg hfeed, lastLineLength_eq_zero (.inl rfl), hlength] at hline
    have hbefore : '\n' ∉ s.before j := hfeed
    rw [column_of_not_mem hbefore, hline]
    omega

/-- The text up to an index of the second part begins with the first part. -/
theorem take_behind (first : List Char) (s : Source) (j : Nat) :
    (s.behind first).chars.take (first.length + j) = first ++ s.chars.take j :=
  List.take_length_add_append j

/-- Text in front of a source moves its lines by the line feeds in it. -/
theorem line_behind (first : List Char) (s : Source) (j : Nat) :
    (s.behind first).line (first.length + j : Nat) = s.line j + first.count '\n' := by
  rw [line_eq, line_eq, before_natCast, before_natCast, take_behind, List.count_append]
  simp only [behind]
  omega

/-- A line is the first one if no line feed stands in front. -/
theorem line_eq_startLine_iff (s : Source) (j : Nat) :
    s.line j = s.startLine ↔ '\n' ∉ s.chars.take j := by
  rw [line_eq, before_natCast, ← List.count_eq_zero]
  omega

/-- Behind another text the columns of the first line are moved by what stands in front. -/
theorem column_behind (first : List Char) (s : Source) {j : Nat} (hj : j ≤ s.size) :
    (s.behind first).column (first.length + j : Nat) =
      s.column j + if s.line j = s.startLine then (lastLineLength first : Int) else 0 := by
  have hj' : first.length + j ≤ (s.behind first).size := by
    simp only [size, behind, List.length_append] at hj ⊢
    omega
  rw [column_eq _ hj', column_eq s hj, take_behind, lastLineLength_append]
  by_cases hfeed : '\n' ∈ s.chars.take j
  · have hline : ¬ s.line j = s.startLine := fun h => (s.line_eq_startLine_iff j).mp h hfeed
    rw [if_pos hfeed, if_neg hline, Int.add_zero]
  · have hline : s.line j = s.startLine := (s.line_eq_startLine_iff j).mpr hfeed
    have halone := lastLineLength_append [] (s.chars.take j)
    rw [List.nil_append, if_neg hfeed] at halone
    rw [if_neg hfeed, if_pos hline, halone]
    simp only [lastLineLength, List.reverse_nil, List.takeWhile_nil, List.length_nil]
    omega

/-- A line and a column as messages give them. -/
def placeText (s : Source) (line column : Int) : String :=
  let place := decimalOfInt line ++ ":" ++ decimalOfInt column
  match s.options.context with
  | none => place
  | some context => place ++ " of " ++ context

/-- The place of an index is written by its line and column. -/
theorem loc_eq (s : Source) (i : Int) : s.loc i = s.placeText (s.line i) (s.column i) := rfl

/-- A place behind another text: the line is moved by the line feeds of that text, and the columns
of the first line are moved by the length of its last line. -/
theorem loc_behind (first : List Char) (s : Source) {j : Nat} (hj : j ≤ s.size) :
    (s.behind first).loc (first.length + j : Nat) =
      s.placeText (s.line j + first.count '\n')
        (s.column j + if s.line j = s.startLine then (lastLineLength first : Int) else 0) := by
  rw [loc_eq, line_behind, column_behind first s hj]
  rfl

/-- Behind whole lines only the lines are moved. -/
theorem loc_behind_lines {first : List Char} (hfirst : first = [] ∨ first.getLast? = some '\n')
    (s : Source) {j : Nat} (hj : j ≤ s.size) :
    (s.behind first).loc (first.length + j : Nat) =
      ({ s with startLine := s.startLine + first.count '\n' } : Source).loc j := by
  rw [loc_behind first s hj, lastLineLength_eq_zero hfirst, loc_eq]
  have hline : ({ s with startLine := s.startLine + first.count '\n' } : Source).line j =
      s.line j + first.count '\n' := by
    rw [line_eq, line_eq]
    simp only [before]
    omega
  have hzero : (if s.line j = s.startLine then ((0 : Nat) : Int) else 0) = 0 := by
    split <;> rfl
  rw [hline, hzero, Int.add_zero]
  rfl

/-- What stands behind a place does not change it. -/
theorem loc_in_front (first : List Char) (s : Source) {i : Int} (hi : i ≤ first.length) :
    (s.behind first).loc i = ({ s with chars := first } : Source).loc i := by
  have hbefore : (s.behind first).before i = ({ s with chars := first } : Source).before i := by
    unfold before behind
    exact List.take_append_of_le_length (by omega)
  have hline : (s.behind first).line i = ({ s with chars := first } : Source).line i := by
    rw [line_eq, line_eq, hbefore]
    rfl
  have hcolumn : (s.behind first).column i = ({ s with chars := first } : Source).column i :=
    column_congr hbefore
  rw [loc_eq, loc_eq, hline, hcolumn]
  rfl

/-- On one line the columns grow with the index. -/
theorem column_eq_of_line_eq {s : Source} {i j : Nat} (hij : i ≤ j) (hj : j ≤ s.size)
    (hline : s.line i = s.line j) : s.column j = s.column i + (j - i : Nat) := by
  have hsplit : s.chars.take j = s.chars.take i ++ (s.chars.drop i).take (j - i) := by
    rw [← List.take_add, Nat.add_sub_cancel' hij]
  have hnone : '\n' ∉ (s.chars.drop i).take (j - i) := by
    rw [line_eq, line_eq, before_natCast, before_natCast, hsplit, List.count_append] at hline
    apply List.count_eq_zero.mp
    omega
  have hlength : ((s.chars.drop i).take (j - i)).length = j - i := by
    rw [List.length_take, List.length_drop]
    change j ≤ s.chars.length at hj
    omega
  rw [column_eq s hj, column_eq s (by omega), hsplit, lastLineLength_append, if_neg hnone,
    hlength]
  omega

/-- An index is determined by its line and column. -/
theorem index_eq_of_place {s : Source} {i j : Nat} (hi : i ≤ s.size) (hj : j ≤ s.size)
    (hline : s.line i = s.line j) (hcolumn : s.column i = s.column j) : i = j := by
  rcases Nat.le_total i j with hij | hji
  · have hmoved := column_eq_of_line_eq hij hj hline
    omega
  · have hmoved := column_eq_of_line_eq hji hi hline.symm
    omega

end Source

/-! ## Places in reports -/

/-- A character of a numeral with its sign. -/
def isNumeralChar (c : Char) : Bool := c == '-' || c.isDigit

/-- A numeral of a natural number is made of digits. -/
theorem isDigit_of_mem_decimalOfNat {n : Nat} {c : Char} (h : c ∈ (decimalOfNat n).toList) :
    c.isDigit = true := by
  rw [decimalOfNat, String.toList_ofList] at h
  exact Nat.isDigit_of_mem_toDigits (by decide) (by decide) h

/-- Natural numbers are told apart by their numerals. -/
theorem decimalOfNat_inj {m n : Nat} (h : decimalOfNat m = decimalOfNat n) : m = n := by
  have hdigits : Nat.toDigits 10 m = Nat.toDigits 10 n := String.ofList_inj.mp h
  rw [← Nat.ofDigitChars_ten_toDigits (n := m), hdigits, Nat.ofDigitChars_ten_toDigits]

/-- The numeral of an integer is a sign, if it is negative, and digits. -/
theorem toList_decimalOfInt (i : Int) :
    (decimalOfInt i).toList =
      (if i < 0 then ['-'] else []) ++ (decimalOfNat i.natAbs).toList := by
  unfold decimalOfInt
  split
  · rw [String.toList_append]
    rfl
  · rfl

/-- A numeral is made of digits and signs. -/
theorem isNumeralChar_of_mem_decimalOfInt {i : Int} {c : Char}
    (h : c ∈ (decimalOfInt i).toList) : isNumeralChar c = true := by
  rw [toList_decimalOfInt, List.mem_append] at h
  rcases h with h | h
  · split at h
    · rw [List.mem_singleton.mp h]
      rfl
    · cases h
  · simp [isNumeralChar, isDigit_of_mem_decimalOfNat h]

/-- Integers are told apart by their numerals. -/
theorem decimalOfInt_inj {i j : Int} (h : decimalOfInt i = decimalOfInt j) : i = j := by
  have hsign : ∀ (n : Nat) (tail : List Char), (decimalOfNat n).toList ≠ '-' :: tail := by
    intro n tail heq
    have hdigit := isDigit_of_mem_decimalOfNat (n := n) (c := '-') (by simp [heq])
    exact absurd hdigit (by decide)
  have hlist := congrArg String.toList h
  rw [toList_decimalOfInt, toList_decimalOfInt] at hlist
  by_cases hi : i < 0
  · by_cases hj : j < 0
    · rw [if_pos hi, if_pos hj] at hlist
      have habs := decimalOfNat_inj (String.toList_inj.mp (List.append_cancel_left hlist))
      omega
    · rw [if_pos hi, if_neg hj] at hlist
      exact absurd hlist.symm (hsign _ _)
  · by_cases hj : j < 0
    · rw [if_neg hi, if_pos hj] at hlist
      exact absurd hlist (hsign _ _)
    · rw [if_neg hi, if_neg hj] at hlist
      have habs := decimalOfNat_inj (String.toList_inj.mp (List.append_cancel_left hlist))
      omega

/-- A line and a column in front of what is no numeral can be read off. -/
theorem place_append_inj {line line' column column' : Int} {tail tail' : List Char}
    (htail : Stops isNumeralChar tail) (htail' : Stops isNumeralChar tail')
    (h : (decimalOfInt line).toList ++ ':' :: ((decimalOfInt column).toList ++ tail) =
      (decimalOfInt line').toList ++ ':' :: ((decimalOfInt column').toList ++ tail')) :
    line = line' ∧ column = column' ∧ tail = tail' := by
  -- the numerals end where they stop being numerals, so the texts are cut alike
  have hcolon : ∀ cs : List Char, Stops isNumeralChar (':' :: cs) := fun cs =>
    (stops_cons_iff _ _ _).mpr (by decide)
  have hnumeral : ∀ k : Int, ∀ c ∈ (decimalOfInt k).toList, isNumeralChar c = true :=
    fun k c hc => isNumeralChar_of_mem_decimalOfInt hc
  obtain ⟨hline, hrest⟩ := row_append_inj (hnumeral _) (hnumeral _) (hcolon _) (hcolon _) h
  obtain ⟨hcolumn, htails⟩ :=
    row_append_inj (hnumeral _) (hnumeral _) htail htail' (List.cons.inj hrest).2
  exact ⟨decimalOfInt_inj (String.toList_inj.mp hline),
    decimalOfInt_inj (String.toList_inj.mp hcolumn), htails⟩

namespace Source

/-- What a place says behind its line and column. -/
def contextText (s : Source) : List Char :=
  match s.options.context with
  | none => []
  | some context => " of ".toList ++ context.toList

/-- A place is written as a line, a colon, a column and the context. -/
theorem toList_placeText (s : Source) (line column : Int) :
    (s.placeText line column).toList = (decimalOfInt line).toList ++
      ':' :: ((decimalOfInt column).toList ++ s.contextText) := by
  unfold placeText contextText
  split <;> simp

/-- The context of a place begins with no digit. -/
theorem stops_contextText_append (s : Source) {cs : List Char} (hcs : Stops isNumeralChar cs) :
    Stops isNumeralChar (s.contextText ++ cs) := by
  unfold contextText
  split
  · exact hcs
  · exact (stops_cons_iff _ _ _).mpr (by decide)

end Source

/-- The characters of numerals are not escaped. -/
theorem escapeChar_of_isNumeralChar {c : Char} (h : isNumeralChar c = true) :
    Json.escapeChar c = [c] := by
  have hprintable : 0x20 ≤ c.toNat ∧ c.toNat < 0x7f ∧ c ≠ '\x22' ∧ c ≠ '\\' := by
    rcases Bool.or_eq_true_iff.mp h with hminus | hdigit
    · rw [beq_iff_eq.mp hminus]
      decide
    · have hbounds : 48 ≤ c.toNat ∧ c.toNat ≤ 57 := by
        simp only [Char.isDigit, ge_iff_le, Bool.and_eq_true, decide_eq_true_eq,
          UInt32.le_iff_toNat_le] at hdigit
        exact hdigit
      refine ⟨by omega, by omega, ?_, ?_⟩
      · rintro rfl
        exact absurd hdigit (by decide)
      · rintro rfl
        exact absurd hdigit (by decide)
  obtain ⟨hlow, hhigh, hquote, hslash⟩ := hprintable
  have hcontrol : ∀ d : Char, d.toNat < 0x20 → c ≠ d := by
    rintro d hd rfl
    omega
  unfold Json.escapeChar
  rw [if_neg (by simp [hquote, hslash]), if_neg (hcontrol '\n' (by decide)),
    if_neg (hcontrol '\r' (by decide)), if_neg (hcontrol '\t' (by decide)),
    if_neg (hcontrol '\x08' (by decide)), if_neg (hcontrol '\x0c' (by decide)),
    if_pos ⟨hlow, hhigh⟩]

/-- A numeral is not escaped. -/
theorem flatMap_escapeChar_decimalOfInt (i : Int) :
    (decimalOfInt i).toList.flatMap Json.escapeChar = (decimalOfInt i).toList := by
  have hall : ∀ cs : List Char, (∀ c ∈ cs, isNumeralChar c = true) →
      cs.flatMap Json.escapeChar = cs := by
    intro cs
    induction cs with
    | nil => exact fun _ => rfl
    | cons c rest ih =>
      intro hcs
      rw [List.flatMap_cons, escapeChar_of_isNumeralChar (hcs c (by simp)),
        ih fun d hd => hcs d (by simp [hd])]
      rfl
  exact hall _ fun c hc => isNumeralChar_of_mem_decimalOfInt hc

namespace Source

/-- The escaped context of a place begins with no digit. -/
theorem stops_escaped_contextText_append (s : Source) {cs : List Char}
    (hcs : Stops isNumeralChar cs) :
    Stops isNumeralChar (s.contextText.flatMap Json.escapeChar ++ cs) := by
  unfold contextText
  split
  · exact hcs
  · exact (stops_cons_iff _ _ _).mpr (by decide)

/-- A report about a place shows the line and the column behind some text that depends on the
print mode only. -/
theorem render_warning_eq (mode : PrintMode) : ∃ front : List Char,
    ∀ (s : Source) (line column : Int) (text : String), ∃ tail, Stops isNumeralChar tail ∧
      render mode "warning" text (some (.text (s.placeText line column))) =
        .single (String.ofList (front ++ ((decimalOfInt line).toList ++
          ':' :: ((decimalOfInt column).toList ++ tail)))) := by
  have hwarning : ¬ "warning" = "failure" := by decide
  -- in each mode the numerals are followed by a character that can be in none
  cases mode with
  | json =>
    refine ⟨"\x7b\"lineNum\": \"".toList, ?_⟩
    intro s line column text
    let more := (", " ++ (Json.string (.ofString "messageType") ++ ": " ++
      Json.string (.ofString "warning")) ++ ", " ++
      (Json.string (.ofString "text") ++ ": " ++ Json.string (.ofString text)) ++ "\x7d").toList
    refine ⟨s.contextText.flatMap Json.escapeChar ++ '\x22' :: more, ?_, ?_⟩
    · exact s.stops_escaped_contextText_append ((stops_cons_iff _ _ _).mpr (by decide))
    · have hplace : (Json.string (.ofString (s.placeText line column))).toList =
          '\x22' :: ((decimalOfInt line).toList ++ ':' :: ((decimalOfInt column).toList ++
            (s.contextText.flatMap Json.escapeChar ++ ['\x22']))) := by
        have hcolon : Json.escapeChar ':' = [':'] := by decide
        simp [Json.toList_string_ofString, toList_placeText, flatMap_escapeChar_decimalOfInt, hcolon]
      have hname : Json.string (.ofString "lineNum") = "\"lineNum\"" := by decide
      rw [render, if_pos rfl]
      refine congrArg Rendered.single (String.toList_inj.mp ?_)
      simp only [jsonReport, Json.object, Option.map_some, Option.getD_some, LineRef.json]
      simp [hname, hplace, more]
  | plain =>
    refine ⟨"LINE ".toList, ?_⟩
    intro s line column text
    refine ⟨s.contextText ++ (": ".toList ++ text.toList), ?_, ?_⟩
    · exact s.stops_contextText_append ((stops_cons_iff _ _ _).mpr (by decide))
    · rw [render, if_neg (by decide), if_neg hwarning]
      dsimp only
      refine congrArg Rendered.single (String.toList_inj.mp ?_)
      simp [highlight, heading, LineRef.plain, toList_placeText]
  | console =>
    refine ⟨"\x1b[1;96mLINE ".toList, ?_⟩
    intro s line column text
    refine ⟨s.contextText ++ (":\x1b[0m ".toList ++ text.toList), ?_, ?_⟩
    · exact s.stops_contextText_append ((stops_cons_iff _ _ _).mpr (by decide))
    · have hcodes : ";".intercalate ([boldCode, lightCyanCode].map decimalOfNat) = "1;96" := by
        decide
      rw [render, if_neg (by decide), if_neg hwarning]
      dsimp only
      refine congrArg Rendered.single (String.toList_inj.mp ?_)
      have hcolor : (if "warning" = "fatal" then redCode else lightCyanCode) = lightCyanCode := rfl
      rw [hcolor, highlight, if_pos rfl, withCodes, hcodes]
      simp [heading, LineRef.plain, toList_placeText]

/-- Reports about different places are different, whatever they say. -/
theorem render_warning_inj {mode : PrintMode} {s s' : Source} {i j : Int} {text text' : String}
    (h : render mode "warning" text (some (.text (s.loc i))) =
      render mode "warning" text' (some (.text (s'.loc j)))) :
    s.line i = s'.line j ∧ s.column i = s'.column j := by
  obtain ⟨front, hfront⟩ := render_warning_eq mode
  obtain ⟨tail, htail, hleft⟩ := hfront s (s.line i) (s.column i) text
  obtain ⟨tail', htail', hright⟩ := hfront s' (s'.line j) (s'.column j) text'
  rw [loc_eq, loc_eq, hleft, hright, Rendered.single.injEq] at h
  obtain ⟨hline, hcolumn, -⟩ :=
    place_append_inj htail htail' (List.append_cancel_left (String.ofList_inj.mp h))
  exact ⟨hline, hcolumn⟩

end Source

end MarkupSpans
