import MarkupSpans.Proofs.Faults
import MarkupSpans.Proofs.Grammar.Marks
import MarkupSpans.Source.Reading

/-!
# Which numbers survive printing

A number that was read is written as its shortest text.  That is a literal of the grammar if the
number is written with a point only; else it has an exponent or is no row of digits at all, and the
grammar has no literals like that.  So a word that was read is read back from its written form if
and only if all its numbers are written with a point only.
-/

set_option autoImplicit false

namespace MarkupSpans

open Grammar Text

/-! ## Literals -/

/-- An integer, or a floating-point number that is written with a point only. -/
def Number.Positional : Number → Prop
  | .truth _ => False
  | .int _ => True
  | .float x => x.Positional

/-- The value of a literal is an integer, or a number that rounding gave. -/
theorem Grammar.NumberLiteral.value_cases (n : NumberLiteral) :
    (∃ i, n.value = .int i) ∨ ∃ x, n.value = .float x ∧ x.Rounded := by
  unfold NumberLiteral.value
  split
  · exact .inl ⟨_, rfl⟩
  · exact .inr ⟨_, rfl, Binary64.rounded_ofDecimal _ _ _⟩

/-- A row of digits stands for a number that has no more digits. -/
theorem numberOfDigits_lt {digits : List Char} (h : ∀ c ∈ digits, isDecimalDigit c = true) :
    numberOfDigits digits < 10 ^ digits.length := by
  induction digits using List.reverseRecOn with
  | nil => exact Nat.one_pos
  | append_singleton front c ih =>
    obtain ⟨d, hd, hvalue⟩ := digitValue?_of_isDecimalDigit (h c (by simp))
    have hfront := ih fun other hother => h other (by simp [hother])
    have hlast : numberOfDigits (front ++ [c]) = 10 * numberOfDigits front + d := by
      simp [numberOfDigits, hvalue]
    rw [hlast, List.length_append, List.length_singleton, Nat.pow_succ]
    omega

/-- What is read from a literal that is not overlong can be written. -/
theorem Grammar.NumberLiteral.isWritable_value (n : NumberLiteral)
    (hwhole : ∀ c ∈ n.whole, isDecimalDigit c = true) (hshort : n.isOverlong = false) :
    n.value.isWritable = true := by
  unfold NumberLiteral.value
  split
  · rename_i hpoint
    have hlimit : n.whole.length ≤ digitLimit := by
      simpa [NumberLiteral.isOverlong, hpoint] using hshort
    have hdigits : (Nat.toDigits 10 (numberOfDigits n.whole)).length ≤ digitLimit := by
      rw [Nat.length_toDigits_le_iff (by decide) (by decide)]
      exact (numberOfDigits_lt hwhole).trans_le (Nat.pow_le_pow_right (by decide) hlimit)
    cases n.negative <;> exact decide_eq_true (by simpa using hdigits)
  · rfl

/-- A number of a literal that is not overlong is printable if it is written with a point only. -/
theorem Grammar.NumberLiteral.printable_value (n : NumberLiteral)
    (hwhole : ∀ c ∈ n.whole, isDecimalDigit c = true) (hshort : n.isOverlong = false)
    (h : n.value.Positional) : n.value.Printable := by
  obtain ⟨i, hi⟩ | ⟨x, hx, hrounded⟩ := n.value_cases
  · have hwritable := n.isWritable_value hwhole hshort
    rw [hi] at hwritable ⊢
    exact hwritable
  · rw [hx] at h ⊢
    exact Binary64.readsBack_of_positional hrounded h

namespace Source

/-- A number is the value of a literal that is not overlong. -/
theorem exists_of_numberAt {s : Source} {start stop : Int} {v : Number}
    (h : s.numberAt start = .matched v stop) :
    ∃ (n : NumberLiteral) (rest : List Char), v = n.value ∧ n.isOverlong = false ∧
      readNumberLiteral (s.suffix (max start 0)) = some (n, rest) ∧
      stop = max start 0 + ((s.suffix (max start 0)).length - rest.length : Nat) := by
  unfold numberAt numeralAt at h
  simp only at h
  split at h
  case h_1 n index hread =>
    split at hread
    case h_1 n' rest hliteral =>
      simp only [reading, Reading.matched.injEq] at hread
      obtain ⟨rfl, rfl⟩ := hread
      split at h
      · cases h
      · rename_i hshort
        cases h
        exact ⟨n', rest, rfl, Bool.eq_false_iff.mpr hshort, hliteral, rfl⟩
    case h_2 => cases hread
  case h_2 => cases h
  case h_3 => cases h

/-- From the beginning on there is all of the text. -/
theorem suffix_zero (s : Source) : s.suffix 0 = s.chars := by
  simp [suffix]

/-- A number that is read can be written. -/
theorem write_of_numberAt {s : Source} {start stop : Int} {v : Number}
    (h : s.numberAt start = .matched v stop) : v.write = .ok v.text := by
  obtain ⟨n, _, rfl, hshort, hliteral, -⟩ := exists_of_numberAt h
  exact if_pos (n.isWritable_value (readNumberLiteral_sound hliteral).2.2.1 hshort)

/-- The text of a number that a literal has is a literal if and only if the number is written with
a point only, and then its value is the number. -/
theorem numberAt_text {s : Source} {start stop : Int} {v : Number}
    (h : s.numberAt start = .matched v stop) {s' : Source} (hs' : s'.chars = v.text.toList) :
    (v.Positional → s'.numberAt 0 = .matched v s'.size) ∧
      ((∃ v', s'.numberAt 0 = .matched v' s'.size) → v.Positional) := by
  obtain ⟨n, _, rfl, hshort, hliteral, -⟩ := exists_of_numberAt h
  have hwhole := (readNumberLiteral_sound hliteral).2.2.1
  constructor
  · intro hpositional
    obtain ⟨literal, hwell, hchars, hvalue, hshort'⟩ :=
      exists_numberLiteral (n.printable_value hwhole hshort hpositional)
    have hnil : Delimited [] := by simp [Delimited]
    have hread := readNumberLiteral_append hwell hnil
    rw [List.append_nil, hchars, ← hs'] at hread
    simp [numberAt, numeralAt, suffix_zero, hread, reading, hvalue, hshort', size]
  · rintro ⟨v', hv'⟩
    obtain ⟨literal, rest, -, -, hread, hstop⟩ := exists_of_numberAt hv'
    rw [Int.max_self, suffix_zero] at hread hstop
    have hshorter := readNumberLiteral_length hread
    obtain rfl : rest = [] := by
      rw [size] at hstop
      exact List.length_eq_zero_iff.mp (by omega)
    obtain ⟨hchars, -, hdigits, hfraction⟩ := readNumberLiteral_sound hread
    rw [List.append_nil, hs'] at hchars
    obtain ⟨i, hi⟩ | ⟨x, hx, hrounded⟩ := n.value_cases
    · rw [hi]
      exact trivial
    · rw [hx] at hchars ⊢
      by_contra hbeyond
      have hclass := literal.isLiteralChar_of_mem hdigits hfraction
      rw [← hchars] at hclass
      rcases Binary64.letter_of_not_positional hrounded hbeyond with hmem | hmem
      · exact absurd (hclass 'e' hmem) (by decide)
      · exact absurd (hclass 'i' hmem) (by decide)

end Source

/-! ## Words -/

/-- The content of a string spares the quote that the string stands in. -/
theorem Grammar.StringTree.quotable (s : StringTree) : Quotable (String.ofList s.content) := by
  have hquote := s.isQuote_quote
  simp only [isQuote, Bool.or_eq_true, beq_iff_eq] at hquote
  have hnot := s.quote_notMem
  rw [Quotable, String.toList_ofList]
  rcases hquote with hquote | hquote
  · rw [hquote] at hnot
    exact .inl hnot
  · rw [hquote] at hnot
    exact .inr hnot

mutual

/-- The integers that a derivation denotes can be written if none is overlong. -/
theorem isWritable_expr : (t : ExprTree) → t.overlong? = none → t.expr.isWritable = true
  | .text _, _ => rfl
  | .number n hn, hshort => by
    rw [ExprTree.overlong?, ExprTree.numerals, firstOverlong_singleton] at hshort
    exact n.isWritable_value hn.isDecimalDigit_whole (by simpa using hshort)
  | .ref _ _, _ => rfl
  | .emptyCall _ _ _ _, _ => rfl
  | .call _ _ _ _ args, hshort => areWritable_exprs args hshort

/-- The integers that derived arguments denote can be written if none is overlong. -/
theorem areWritable_exprs : (t : ArgsTree) → t.overlong? = none →
    Expr.areWritable t.exprs = true
  | .last e _, hshort => by
    rw [ArgsTree.exprs, Expr.areWritable, isWritable_expr e hshort]
    rfl
  | .more e after before rest, hshort => by
    rw [ArgsTree.overlong?_more, Option.or_eq_none_iff] at hshort
    rw [ArgsTree.exprs, Expr.areWritable, isWritable_expr e hshort.1,
      areWritable_exprs rest hshort.2]
    rfl

end

mutual

/-- What a derivation denotes is printable if its numbers are written with points only and none of
its integers is overlong. -/
theorem printable_expr : (t : ExprTree) → t.overlong? = none →
    (∀ n ∈ t.expr.numbers, n.Positional) → t.expr.Printable
  | .text s, _, _ => s.quotable
  | .number n hn, hshort, h => by
    rw [ExprTree.overlong?, ExprTree.numerals, firstOverlong_singleton] at hshort
    exact n.printable_value hn.isDecimalDigit_whole (by simpa using hshort)
      (h n.value (by simp [ExprTree.expr, Expr.numbers]))
  | .ref name hname, _, _ => by simpa [ExprTree.expr, Expr.Printable] using hname
  | .emptyCall name hname _ _, _, _ => by
    simpa [ExprTree.expr, Expr.Printable, Expr.AllPrintable] using hname
  | .call name hname _ _ args, hshort, h => by
    have hargs := printable_exprs args hshort (by simpa [ExprTree.expr, Expr.numbers] using h)
    simpa [ExprTree.expr, Expr.Printable] using ⟨hname, hargs⟩

/-- The same of arguments. -/
theorem printable_exprs : (t : ArgsTree) → t.overlong? = none →
    (∀ n ∈ Expr.allNumbers t.exprs, n.Positional) → Expr.AllPrintable t.exprs
  | .last e _, hshort, h => by
    have he := printable_expr e hshort (by simpa [ArgsTree.exprs, Expr.allNumbers] using h)
    simpa [ArgsTree.exprs, Expr.AllPrintable] using he
  | .more e _ _ rest, hshort, h => by
    rw [ArgsTree.overlong?_more, Option.or_eq_none_iff] at hshort
    simp only [ArgsTree.exprs, Expr.allNumbers, List.mem_append] at h
    have he := printable_expr e hshort.1 fun n hn => h n (.inl hn)
    have hrest := printable_exprs rest hshort.2 fun n hn => h n (.inr hn)
    simpa [ArgsTree.exprs, Expr.AllPrintable] using ⟨he, hrest⟩

end

/-- The integers of a derived word can be written if none is overlong. -/
theorem isWritable_word {t : WordTree} (hshort : t.overlong? = none) :
    t.word.isWritable = true := by
  cases t with
  | text before s after => rfl
  | endTag name after => rfl
  | startTag name attributes after =>
    rw [WordTree.word, Word.isWritable, List.all_eq_true]
    intro entry hentry
    obtain ⟨a, ha, rfl⟩ := exists_of_mem_attributes hentry
    exact isWritable_expr a.2.value.tree (overlong?_of_mem_attributes hshort ha)

/-- A derived word is printable if its numbers are written with points only and none of its integers
is overlong. -/
theorem printable_word {t : WordTree} (hshort : t.overlong? = none)
    (h : ∀ n ∈ t.word.numbers, n.Positional) : t.word.Printable := by
  cases t with
  | text before s after => exact s.quotable
  | endTag name after => simpa [WordTree.word, Word.Printable] using name.property
  | startTag name attributes after =>
    refine ⟨by simpa using name.property, fun entry hentry => ?_⟩
    have hnumbers : ∀ e, entry.2 = .expr e → ∀ n ∈ e.numbers, n.Positional := by
      intro e he n hn
      apply h n
      simp only [WordTree.word, Word.numbers, List.mem_flatMap]
      exact ⟨entry, hentry, by simpa [entryNumbers, he] using hn⟩
    obtain ⟨a, ha, rfl⟩ := exists_of_mem_attributes hentry
    exact ⟨by simpa using a.2.name.property, a.2.value.expr, rfl,
      printable_expr a.2.value.tree (overlong?_of_mem_attributes hshort ha) (hnumbers _ rfl)⟩

/-- The place of a word does not matter for whether it is printable. -/
theorem Word.printable_withLoc (w : Word) (loc : Option String) :
    (w.withLoc loc).Printable ↔ w.Printable := by
  cases w <;> exact Iff.rfl

/-- A word that is read can be written. -/
theorem write_of_mem_words {s : Source} {w : Word} (hw : w ∈ s.words.words)
    (fired : List Identity) : w.write fired = .ok (w.print fired) := by
  obtain ⟨t, k, rfl, hshort⟩ := s.exists_wordTree_of_mem hw
  have hwritable : (t.word.withLoc (some (s.loc k))).isWritable = true := by
    have hword := isWritable_word hshort
    cases hcase : t.word <;> rw [hcase] at hword <;> exact hword
  exact if_pos hwritable

/-- The place of a word does not matter for its numbers. -/
theorem Word.numbers_withLoc (w : Word) (loc : Option String) :
    (w.withLoc loc).numbers = w.numbers := by
  cases w <;> rfl

/-! ## The numbers of a derivation -/

mutual

/-- The numbers that a derivation denotes are values of literals. -/
theorem exists_literal_of_mem {n : Number} : (t : ExprTree) → n ∈ t.expr.numbers →
    ∃ literal : NumberLiteral, n = literal.value
  | .text s, h => by simp [ExprTree.expr, Expr.numbers] at h
  | .number literal _, h => ⟨literal, by simpa [ExprTree.expr, Expr.numbers] using h⟩
  | .ref name _, h => by simp [ExprTree.expr, Expr.numbers] at h
  | .emptyCall name _ _ _, h => by simp [ExprTree.expr, Expr.numbers, Expr.allNumbers] at h
  | .call name _ _ _ args, h =>
    exists_literal_of_mem_args args (by simpa [ExprTree.expr, Expr.numbers] using h)

/-- The same of arguments. -/
theorem exists_literal_of_mem_args {n : Number} : (t : ArgsTree) → n ∈ Expr.allNumbers t.exprs →
    ∃ literal : NumberLiteral, n = literal.value
  | .last e _, h => exists_literal_of_mem e (by simpa [ArgsTree.exprs, Expr.allNumbers] using h)
  | .more e _ _ rest, h => by
    simp only [ArgsTree.exprs, Expr.allNumbers, List.mem_append] at h
    rcases h with h | h
    · exact exists_literal_of_mem e h
    · exact exists_literal_of_mem_args rest h

end

/-- The numbers of a derived word are values of literals. -/
theorem exists_literal_of_mem_word {t : WordTree} {n : Number} (h : n ∈ t.word.numbers) :
    ∃ literal : NumberLiteral, n = literal.value := by
  cases t with
  | text before s after => cases h
  | endTag name after => cases h
  | startTag name trees after =>
    obtain ⟨entry, hentry, hn⟩ := List.mem_flatMap.mp h
    obtain ⟨a, -, rfl⟩ := exists_of_mem_attributes hentry
    exact exists_literal_of_mem a.2.value.tree hn

/-- A number of a literal without the mark of an exponent and the name of infinity. -/
theorem positional_of_numbersInk {numbers : List Number}
    (hmarks : ∀ c, IsMark c → numbersInk c numbers = 0) (literal : NumberLiteral)
    (hmem : literal.value ∈ numbers) : literal.value.Positional := by
  have hnot : ∀ c, IsMark c → c ∉ literal.value.text.toList := by
    intro c hc
    have hzero := List.sum_eq_zero_iff.mp (hmarks c hc) _ (List.mem_map_of_mem hmem)
    exact List.count_eq_zero.mp hzero
  obtain ⟨i, hi⟩ | ⟨x, hx, hrounded⟩ := literal.value_cases
  · rw [hi]
    exact trivial
  · rw [hx] at hnot ⊢
    by_contra hbeyond
    rcases Binary64.letter_of_not_positional hrounded hbeyond with hletter | hletter
    · exact hnot 'e' (by simp [IsMark]) hletter
    · exact hnot 'i' (by simp [IsMark]) hletter

/-- A text that is read as one word has a derivation of that word. -/
theorem exists_of_parseWords {s : Source} (hstrict : s.options.trailingAllowed = false)
    {r : Reporter} {w : Word} (h : (parseWords s r).1 = .ok [w]) :
    ∃ (before : Space) (t : WordTree) (after : Space),
      s.chars = before.val ++ (t.chars ++ after.val) ∧ t.word = w.withLoc none := by
  obtain ⟨hdelivered, hwords⟩ :
      (s.words.deliver r).failure = none ∧ (s.words.deliver r).words = [w] := by
    unfold parseWords at h
    simp only at h
    split at h
    · exact ⟨‹_›, by simpa using h⟩
    · cases h
  obtain ⟨hfailure, hall⟩ := words_of_deliverItems hdelivered
  have hfault : (readTokens false s.chars).fault = none := by
    rw [Source.words_eq, hstrict] at hfailure
    exact Option.map_eq_none_iff.mp hfailure
  obtain ⟨⟨before, trees⟩, hchars, hshort⟩ := exists_of_readTokens hfault
  have hread : WordTrees.words s before.val.length trees = [w] :=
    (s.words_of_derivation _ hchars.symm hshort).2.1.symm.trans (hall.symm.trans hwords)
  cases trees with
  | nil => cases hread
  | cons pair more =>
    cases more with
    | cons pair' more' => cases hread
    | nil =>
      obtain ⟨t, after⟩ := pair
      refine ⟨before, t, after, ?_, ?_⟩
      · rw [hchars, MarkupTree.chars, WordTrees.chars_cons]
        simp [WordTrees.chars]
      · obtain rfl : t.word.withLoc _ = w := (List.cons.inj hread).1
        rw [Word.withLoc_withLoc, WordTree.withLoc_word]

/-! ## The main result -/

/-- The written form of a word of which all numbers are written with a point only is read back,
with nothing to report. -/
theorem parseWords_print_of_positional {s : Source} {w : Word} (hw : w ∈ s.words.words)
    (hnumbers : ∀ n ∈ w.numbers, n.Positional) (fired : List Identity) {s' : Source}
    (hs' : s'.chars = (w.print fired).toList) (r : Reporter) :
    ∃ w' : Word, parseWords s' r = (.ok [w'], r) ∧ w'.withLoc none = w.withLoc none := by
  obtain ⟨t, k, rfl, hshort⟩ := s.exists_wordTree_of_mem hw
  rw [Word.numbers_withLoc] at hnumbers
  have hprintable := printable_word hshort hnumbers
  rw [← Word.printable_withLoc _ (some (s.loc k))] at hprintable
  obtain ⟨written, hchars, hword, hread, hdistinct⟩ := exists_wordTree fired hprintable
  have hderivation : MarkupTree.chars ⟨⟨[], by simp⟩, [(written, ⟨[], by simp⟩)]⟩ = s'.chars := by
    simp [MarkupTree.chars, WordTrees.chars, hchars, hs']
  have hderived : MarkupTree.overlong? ⟨⟨[], by simp⟩, [(written, ⟨[], by simp⟩)]⟩ = none := by
    rw [MarkupTree.overlong?, WordTrees.overlong?_cons, hread]
    rfl
  have hdeliver := s'.deliver_of_derivation _ hderivation hderived (by simpa using hdistinct) r
  refine ⟨written.word.withLoc (some (s'.loc 0)), ?_, ?_⟩
  · simp only [parseWords, hdeliver]
    rfl
  · rw [Word.withLoc_withLoc, WordTree.withLoc_word, hword]

/-- A number that is read can be written, and it is read back from its written form if and only if
it is an integer, zero, or at least `1 / 10 ^ 4` and less than `10 ^ 16` in absolute value; and a
word that is read can be written, and is read back from its written form if and only if all its
numbers are so. -/
theorem reprint_iff_positional (s : Source) :
    (∀ (start : Int) (v : Number) (stop : Int), s.numberAt start = .matched v stop →
      v.write = .ok v.text ∧ ∀ s' : Source, s'.chars = v.text.toList →
        ((∃ v', s'.numberAt 0 = .matched v' s'.size) ↔ v.Positional) ∧
        (v.Positional → s'.numberAt 0 = .matched v s'.size)) ∧
    ∀ w ∈ s.words.words, ∀ fired : List Identity, w.write fired = .ok (w.print fired) ∧
      ∀ s' : Source, s'.chars = (w.print fired).toList → ∀ r : Reporter,
        (s'.options.trailingAllowed = false →
          ((∃ w' : Word, (parseWords s' r).1 = .ok [w'] ∧ w'.withLoc none = w.withLoc none) ↔
            ∀ n ∈ w.numbers, n.Positional)) ∧
        ((∀ n ∈ w.numbers, n.Positional) →
          ∃ w' : Word, parseWords s' r = (.ok [w'], r) ∧ w'.withLoc none = w.withLoc none) := by
  constructor
  · intro start v stop hread
    refine ⟨Source.write_of_numberAt hread, fun s' hs' => ?_⟩
    obtain ⟨hback, honly⟩ := Source.numberAt_text hread hs'
    exact ⟨⟨honly, fun h => ⟨v, hback h⟩⟩, hback⟩
  · intro w hw fired
    refine ⟨write_of_mem_words hw fired, fun s' hs' r => ?_⟩
    have hback := fun hnumbers => parseWords_print_of_positional hw hnumbers fired hs' r
    refine ⟨fun hstrict => ⟨?_, fun hnumbers => ?_⟩, hback⟩
    · rintro ⟨w', hread, heq⟩
      obtain ⟨before, t, after, hchars, hword⟩ := exists_of_parseWords hstrict hread
      obtain ⟨origin, k, rfl, -⟩ := s.exists_wordTree_of_mem hw
      have hmarks : ∀ c, IsMark c → numbersInk c
          (origin.word.withLoc (some (s.loc k))).numbers = 0 := fun c hc =>
        numbersInk_of_derivation (hs'.symm.trans hchars) (hword.trans heq) hc
      intro n hn
      obtain ⟨literal, rfl⟩ :=
        exists_literal_of_mem_word (t := origin) (by rwa [Word.numbers_withLoc] at hn)
      exact positional_of_numbersInk hmarks literal hn
    · obtain ⟨w', hread, heq⟩ := hback hnumbers
      exact ⟨w', congrArg Prod.fst hread, heq⟩

/-- A tag with an integer and, in a call, a number with a point. -/
def measuredSource : Source where
  chars := "<a n=-12 x=\x7bf(00.50)\x7d>".toList

/-- The integer is read back alone, and the tag as a whole. -/
theorem reprint_measuredSource :
    Source.numberAt { chars := "-12".toList } 0 = .matched (.int (-12)) 3 ∧
    measuredSource.words.words.map (Word.print []) = ["<a n=-12 x=\x7bf(0.5)\x7d>"] ∧
    ∀ w ∈ measuredSource.words.words, ∃ w' : Word,
      parseWords { chars := "<a n=-12 x=\x7bf(0.5)\x7d>".toList } { settings := {} } =
        (.ok [w'], { settings := {} }) ∧ w'.withLoc none = w.withLoc none := by
  have hprinted : measuredSource.words.words.map (Word.print []) =
      ["<a n=-12 x=\x7bf(0.5)\x7d>"] := by decide +kernel
  have hnumbers : measuredSource.words.words.map Word.numbers =
      [[.int (-12), .float (.finite false 4503599627370496 (-53))]] := by decide +kernel
  have hhalf : (Binary64.finite false 4503599627370496 (-53)).Positional := by
    refine ⟨1 / 2, ?_, .inr (by norm_num)⟩
    rw [Binary64.toRat?_finite]
    norm_num
  obtain ⟨hnumber, hwords⟩ := reprint_iff_positional measuredSource
  have hread : measuredSource.numberAt 5 = .matched (.int (-12)) 8 := by rfl
  refine ⟨((hnumber 5 _ 8 hread).2 _ rfl).2 trivial, hprinted, fun w hw => ?_⟩
  have hprint : w.print [] = "<a n=-12 x=\x7bf(0.5)\x7d>" := by
    have hmem := List.mem_map_of_mem (f := Word.print []) hw
    rw [hprinted] at hmem
    exact List.mem_singleton.mp hmem
  have hmem := List.mem_map_of_mem (f := Word.numbers) hw
  rw [hnumbers, List.mem_singleton] at hmem
  refine ((hwords w hw []).2 _ (by rw [hprint]) { settings := {} }).2 ?_
  rw [hmem]
  intro n hn
  simp only [List.mem_cons, List.not_mem_nil, or_false] at hn
  rcases hn with rfl | rfl
  · exact trivial
  · exact hhalf

/-- A hundred-thousandth is written with an exponent, where another number is read; and a tag with
it is written as a text in which no word can be read. -/
theorem hundredThousandth_not_reprinted :
    (∃ v : Number, Source.numberAt { chars := "0.00001".toList } 0 = .matched v 7 ∧
      v.text = "1e-05" ∧ Source.numberAt { chars := "1e-05".toList } 0 = .matched (.int 1) 1) ∧
    ∃ w : Word, (Source.words { chars := "<a x=0.00001>".toList }).words = [w] ∧
      w.print [] = "<a x=1e-05>" ∧ ∀ r : Reporter, ∃ e : CompileError,
        parseWords { chars := "<a x=1e-05>".toList } r = (.error (.compile e), r) := by
  refine ⟨⟨.float (.finite false 5902958103587057 (-69)), rfl, by decide +kernel, rfl⟩, ?_⟩
  have hprinted : (Source.words { chars := "<a x=0.00001>".toList }).words.map (Word.print []) =
      ["<a x=1e-05>"] := by decide +kernel
  obtain ⟨w, hw, hprint⟩ := List.map_eq_singleton_iff.mp hprinted
  refine ⟨w, hw, hprint, fun r => ?_⟩
  exact ⟨⟨.grammar, "Expected whitespace between the attributes of <a>. ( x=1e-05>...)",
    some "1:7"⟩, parseWords_of_failure _ r (by decide +kernel) (by decide +kernel)⟩

end MarkupSpans
