import Mathlib.Algebra.Group.Nat.Defs
import Mathlib.Data.List.Basic
import MarkupSpans.Proofs.Parsing

/-!
# Parsing undoes printing

The written form of a word has a derivation that denotes the word, provided that its names are
names, its strings spare one of the two quotes and its integers can be written.  So parsing the
written form of a row of words gives the row back, and there is nothing to report.  A row with an
integer of too many digits has no written form.
-/

set_option autoImplicit false

namespace MarkupSpans

open Grammar Text

/-! ## What can be written -/

/-- A text without double quotes or without single ones. -/
def Quotable (content : String) : Prop := '\x22' ∉ content.toList ∨ '\x27' ∉ content.toList

/-- The text of a floating-point number is that of a literal with a point, and reads back as the
number. -/
def Binary64.ReadsBack (x : Binary64) : Prop :=
  ∃ n : NumberLiteral, n.WellFormed ∧ x.text = String.ofList n.chars ∧ n.value = .float x

/-- An integer that can be written, or a floating-point number that reads back. -/
def Number.Printable : Number → Prop
  | .truth _ => False
  | .int i => Text.isWritable i = true
  | .float x => x.ReadsBack

mutual

/-- An expression of quotable texts, printable numbers and identifiers. -/
def Expr.Printable : Expr → Prop
  | .text content => Quotable content
  | .number n => n.Printable
  | .ref name => IsIdentifier name.toList
  | .call name args => IsIdentifier name.toList ∧ Expr.AllPrintable args

/-- Several printable expressions. -/
def Expr.AllPrintable : List Expr → Prop
  | [] => True
  | e :: rest => e.Printable ∧ Expr.AllPrintable rest

end

/-- A word of quotable texts, names, and printable expressions for attributes. -/
def Word.Printable : Word → Prop
  | .text content _ => Quotable content
  | .startTag tag attributes _ =>
    IsTagName tag.toList ∧ ∀ entry ∈ attributes.entries,
      IsAttributeName entry.1.toList ∧ ∃ e : Expr, entry.2 = .expr e ∧ e.Printable
  | .endTag tag _ => IsTagName tag.toList

mutual

/-- The integers of a printable expression can be written. -/
theorem Expr.Printable.isWritable : (e : Expr) → e.Printable → e.isWritable = true
  | .text _, _ => rfl
  | .number (.truth _), _ => rfl
  | .number (.int _), h => h
  | .number (.float _), _ => rfl
  | .ref _, _ => rfl
  | .call _ args, h => Expr.AllPrintable.areWritable args h.2

/-- The integers of printable expressions can be written. -/
theorem Expr.AllPrintable.areWritable : (args : List Expr) → Expr.AllPrintable args →
    Expr.areWritable args = true
  | [], _ => rfl
  | e :: rest, h => by
    rw [Expr.areWritable, Expr.Printable.isWritable e h.1,
      Expr.AllPrintable.areWritable rest h.2, Bool.and_true]

end

/-- The integers of a printable word can be written. -/
theorem Word.Printable.isWritable {w : Word} (h : w.Printable) : w.isWritable = true := by
  cases w with
  | text content loc => rfl
  | endTag tag loc => rfl
  | startTag tag attributes loc =>
    rw [Word.isWritable, List.all_eq_true]
    intro entry hentry
    obtain ⟨-, e, he, hprintable⟩ := h.2 entry hentry
    rw [he]
    exact Expr.Printable.isWritable e hprintable

/-- A row of words is written if all integers in it can be. -/
theorem Word.writeAll_eq_ok {fired : List Identity} {words : List Word}
    (h : ∀ w ∈ words, w.isWritable = true) :
    Word.writeAll fired words = .ok (Word.printAll fired words) := by
  rw [Word.writeAll, writtenIf, if_pos (List.all_eq_true.mpr h)]

/-- A row of words is not written if some integer in it cannot be. -/
theorem Word.writeAll_eq_error {fired : List Identity} {words : List Word} {w : Word}
    (hw : w ∈ words) (h : w.isWritable = false) :
    Word.writeAll fired words = .error .integerTooLong := by
  have hnot : words.all Word.isWritable ≠ true := by
    intro hall
    rw [List.all_eq_true.mp hall w hw] at h
    cases h
  rw [Word.writeAll, writtenIf, if_neg hnot]

/-! ## Literals -/

/-- A digit of ASCII is a decimal digit. -/
theorem isDecimalDigit_of_isDigit {c : Char} (h : c.isDigit = true) : isDecimalDigit c = true := by
  simp [isDecimalDigit, digitValue?_of_isDigit h]

/-- Digits of ASCII count as the standard library counts them. -/
theorem numberOfDigits_eq_ofDigitChars {digits : List Char}
    (h : ∀ c ∈ digits, c.isDigit = true) :
    numberOfDigits digits = Nat.ofDigitChars 10 digits 0 := by
  rw [numberOfDigits, Nat.ofDigitChars_eq_foldl]
  apply List.foldl_ext
  intro acc c hc
  simp [digitValue?_of_isDigit (h c hc)]

/-- The digits of a number in base ten stand for the number. -/
theorem numberOfDigits_toDigits (n : Nat) : numberOfDigits (Nat.toDigits 10 n) = n := by
  rw [numberOfDigits_eq_ofDigitChars fun c hc =>
    Nat.isDigit_of_mem_toDigits (by decide) (by decide) hc]
  exact Nat.ofDigitChars_ten_toDigits

/-- A literal with a point is never overlong. -/
theorem isOverlong_of_value_float {literal : NumberLiteral} {x : Binary64}
    (h : literal.value = .float x) : literal.isOverlong = false := by
  unfold NumberLiteral.value at h
  split at h
  · cases h
  · rename_i hpoint
    simp [NumberLiteral.isOverlong, hpoint]

/-- The text of a printable number is that of a literal with its value, which is not overlong. -/
theorem exists_numberLiteral {n : Number} (h : n.Printable) :
    ∃ literal : NumberLiteral, literal.WellFormed ∧ literal.chars = n.text.toList ∧
      literal.value = n ∧ literal.isOverlong = false := by
  cases n with
  | truth b => exact absurd h id
  | float x =>
    obtain ⟨literal, hwell, htext, hvalue⟩ := h
    exact ⟨literal, hwell, by simp [Number.text, htext], hvalue, isOverlong_of_value_float hvalue⟩
  | int i =>
    have hdigits : ∀ c ∈ Nat.toDigits 10 i.natAbs, c.isDigit = true := fun c hc =>
      Nat.isDigit_of_mem_toDigits (by decide) (by decide) hc
    have hlimit : (Nat.toDigits 10 i.natAbs).length ≤ digitLimit := of_decide_eq_true h
    refine ⟨⟨decide (i < 0), Nat.toDigits 10 i.natAbs, []⟩, ⟨?_, ?_, ?_, ?_⟩, ?_, ?_, ?_⟩
    · exact Nat.toDigits_ne_nil
    · exact fun c hc => isDecimalDigit_of_isDigit (hdigits c hc)
    · simp
    · exact .inr fun c hc => hdigits c (List.mem_of_mem_head? hc)
    · by_cases hi : i < 0 <;>
        simp [NumberLiteral.chars, Number.text, decimalOfInt, decimalOfNat, hi]
    · by_cases hi : i < 0
      · have habs : (i.natAbs : Int) = -i := Int.ofNat_natAbs_of_nonpos (by omega)
        simp only [NumberLiteral.value, numberOfDigits_toDigits, habs, hi, decide_true,
          List.isEmpty_nil, if_true, Int.neg_neg]
      · have habs : (i.natAbs : Int) = i := Int.natAbs_of_nonneg (by omega)
        simp only [NumberLiteral.value, numberOfDigits_toDigits, habs, hi, decide_false,
          List.isEmpty_nil, if_true, Bool.false_eq_true, if_false]
    · simpa [NumberLiteral.isOverlong] using hlimit

/-- A literal takes the quote that its content spares. -/
theorem exists_stringTree {content : String} (h : Quotable content) :
    ∃ s : StringTree, s.chars = (quoteLiteral content).toList ∧
      String.ofList s.content = content := by
  unfold quoteLiteral
  by_cases hdouble : '\x22' ∈ content.toList
  · have hsingle : '\x27' ∉ content.toList := h.resolve_left fun hnot => hnot hdouble
    refine ⟨⟨'\x27', content.toList, by decide, hsingle⟩, ?_, by simp⟩
    simp [StringTree.chars, hdouble]
  · refine ⟨⟨'\x22', content.toList, by decide, hdouble⟩, ?_, by simp⟩
    simp [StringTree.chars, hdouble]

/-! ## Expressions -/

mutual

/-- The written form of an expression has a derivation that denotes the expression and can be
read. -/
theorem exists_exprTree : (e : Expr) → e.Printable →
    ∃ t : ExprTree, t.chars = e.print.toList ∧ t.expr = e ∧ t.overlong? = none
  | .text content, h => by
    obtain ⟨s, hchars, hcontent⟩ := exists_stringTree h
    exact ⟨.text s, by simp [ExprTree.chars, Expr.print, hchars],
      by simp [ExprTree.expr, hcontent], rfl⟩
  | .number n, h => by
    obtain ⟨literal, hwell, hchars, hvalue, hshort⟩ := exists_numberLiteral h
    refine ⟨.number literal hwell, by simp [ExprTree.chars, Expr.print, hchars],
      by simp [ExprTree.expr, hvalue], ?_⟩
    rw [ExprTree.overlong?, ExprTree.numerals, firstOverlong_singleton, hshort]
    rfl
  | .ref name, h =>
    ⟨.ref name.toList h, by simp [ExprTree.chars, Expr.print], by simp [ExprTree.expr], rfl⟩
  | .call name args, h => by
    by_cases hargs : args = []
    · subst hargs
      refine ⟨.emptyCall name.toList h.1 ⟨[], by simp⟩ ⟨[], by simp⟩, ?_, by simp [ExprTree.expr],
        rfl⟩
      simp [ExprTree.chars, Expr.print, Expr.printAll]
    · obtain ⟨t, hchars, hexprs, hshort⟩ := exists_argsTree args hargs h.2
      refine ⟨.call name.toList h.1 ⟨[], by simp⟩ ⟨[], by simp⟩ t, ?_, ?_, hshort⟩
      · simp [ExprTree.chars, Expr.print, hchars]
      · simp [ExprTree.expr, hexprs]

/-- Written with commas and blanks between them, and a parenthesis behind them, arguments have a
derivation that can be read. -/
theorem exists_argsTree : (args : List Expr) → args ≠ [] → Expr.AllPrintable args →
    ∃ t : ArgsTree, t.chars = (", ".intercalate (Expr.printAll args)).toList ++ [')'] ∧
      t.exprs = args ∧ t.overlong? = none
  | [], hne, _ => absurd rfl hne
  | [e], _, h => by
    obtain ⟨t, hchars, hexpr, hshort⟩ := exists_exprTree e h.1
    refine ⟨.last t ⟨[], by simp⟩, ?_, by simp [ArgsTree.exprs, hexpr], hshort⟩
    simp [ArgsTree.chars, Expr.printAll, hchars]
  | e :: e' :: rest, _, h => by
    obtain ⟨t, hchars, hexpr, hshort⟩ := exists_exprTree e h.1
    obtain ⟨more, hmore, hexprs, hshort'⟩ := exists_argsTree (e' :: rest) (by simp) h.2
    refine ⟨.more t ⟨[], by simp⟩ (.of [' '] (by decide)) more, ?_, by
      simp [ArgsTree.exprs, hexpr, hexprs], ?_⟩
    · simp only [Expr.printAll] at hmore
      simp [ArgsTree.chars, Expr.printAll, hchars, hmore, String.intercalate_cons_cons]
    · rw [ArgsTree.overlong?_more, hshort, Option.none_or]
      exact hshort'

end

/-! ## Words -/

/-- What is derived as a call denotes one. -/
theorem expr_of_isCall {t : ExprTree} (h : t.isCall = true) :
    ∃ name args, t.expr = .call name args := by
  cases t with
  | emptyCall name => exact ⟨_, _, rfl⟩
  | call name => exact ⟨_, _, rfl⟩
  | _ => simp [ExprTree.isCall] at h

/-- Behind the equals sign names and calls stand in braces, and what stands there bare is no
call. -/
theorem exists_valueTree {e : Expr} (h : e.Printable) :
    ∃ v : ValueTree, v.chars = e.printAttribute.toList ∧ v.expr = e ∧ v.tree.overlong? = none := by
  obtain ⟨t, hchars, hexpr, hshort⟩ := exists_exprTree e h
  have hbraced : ∃ v : ValueTree, v.chars = '\x7b' :: (e.print.toList ++ ['\x7d']) ∧ v.expr = e ∧
      v.tree.overlong? = none :=
    ⟨.braced ⟨[], by simp⟩ t ⟨[], by simp⟩, by simp [ValueTree.chars, hchars], hexpr, hshort⟩
  have hbare : (∀ name args, e ≠ .call name args) →
      ∃ v : ValueTree, v.chars = e.print.toList ∧ v.expr = e ∧ v.tree.overlong? = none := by
    intro hnone
    have hcall : t.isCall = false := by
      apply Bool.eq_false_iff.mpr
      intro hcall
      obtain ⟨name, args, heq⟩ := expr_of_isCall hcall
      exact hnone name args (hexpr.symm.trans heq)
    exact ⟨.bare t hcall, hchars, hexpr, hshort⟩
  cases e with
  | text content => exact hbare (by simp)
  | number n => exact hbare (by simp)
  | ref name => simpa [Expr.printAttribute] using hbraced
  | call name args => simpa [Expr.printAttribute] using hbraced

/-- An attribute without space around its equals sign. -/
def tightAttribute {name : String} (hname : IsAttributeName name.toList) (v : ValueTree) :
    AttributeTree :=
  ⟨⟨name.toList, hname⟩, ⟨[], by simp⟩, ⟨[], by simp⟩, v⟩

/-- The written attributes of a tag, with one blank in front of each, derive its entries. -/
theorem exists_attributes (fired : List Identity) {entries : List (String × Value)}
    (h : ∀ entry ∈ entries,
      IsAttributeName entry.1.toList ∧ ∃ e : Expr, entry.2 = .expr e ∧ e.Printable) :
    ∃ attributes : List (Gap × AttributeTree),
      attributesChars attributes = (String.join
        (entries.map fun entry => Word.printAttribute fired entry.1 entry.2)).toList ∧
      (attributesPairs attributes).map (fun pair => (pair.1, .expr pair.2)) = entries ∧
      firstOverlong (attributesNumerals attributes) = none := by
  induction entries with
  | nil => exact ⟨[], by simp [attributesChars], rfl, rfl⟩
  | cons entry rest ih =>
    obtain ⟨name, value⟩ := entry
    obtain ⟨hname, e, rfl, he⟩ := h (name, value) (by simp)
    obtain ⟨v, hchars, hexpr, hshort⟩ := exists_valueTree he
    obtain ⟨attributes, hrest, hpairs, hshort'⟩ := ih fun other hother => h other (by simp [hother])
    have hfirst : ' ' :: (tightAttribute hname v).chars =
        (Word.printAttribute fired name (.expr e)).toList := by
      simp [AttributeTree.chars, tightAttribute, Word.printAttribute, hchars]
    refine ⟨(.of [' '] (by simp) (by decide), tightAttribute hname v) :: attributes, ?_, ?_, ?_⟩
    · simp only [attributesChars] at hrest
      simp only [attributesChars, List.flatMap_cons, hrest, List.map_cons, String.join_cons,
        String.toList_append, ← hfirst]
      rfl
    · simp only [attributesPairs] at hpairs
      simp [attributesPairs, tightAttribute, hexpr, hpairs]
    · rw [attributesNumerals_cons, hshort', Option.or_none]
      exact hshort

/-- The written form of a word has a derivation that denotes the word, can be read and repeats no
attribute. -/
theorem exists_wordTree (fired : List Identity) {w : Word} (h : w.Printable) :
    ∃ t : WordTree, t.chars = (w.print fired).toList ∧ t.word = w.withLoc none ∧
      t.overlong? = none ∧ t.attributeNames.Nodup := by
  cases w with
  | text content loc =>
    obtain ⟨s, hchars, hcontent⟩ := exists_stringTree h
    refine ⟨.text ⟨[], by simp⟩ s ⟨[], by simp⟩, ?_, ?_, rfl, List.nodup_nil⟩
    · simp [WordTree.chars, Word.print, hchars]
    · simp [WordTree.word, Word.withLoc, hcontent]
  | startTag tag attributes loc =>
    obtain ⟨htag, hentries⟩ := h
    obtain ⟨trees, hchars, hpairs, hshort⟩ := exists_attributes fired hentries
    refine ⟨.startTag ⟨tag.toList, htag⟩ trees ⟨[], by simp⟩, ?_, ?_, hshort, ?_⟩
    · simp [WordTree.chars, Word.print, hchars]
    · simp only [WordTree.word, Word.withLoc, hpairs, NameMap.ofList_entries,
        String.ofList_toList]
    · have hnames : (attributesPairs trees).map Prod.fst = attributes.entries.map Prod.fst := by
        rw [← hpairs]
        simp
      simp only [WordTree.attributeNames, hnames]
      exact attributes.nodup_names
  | endTag tag loc =>
    refine ⟨.endTag ⟨tag.toList, h⟩ ⟨[], by simp⟩, ?_, ?_, rfl, List.nodup_nil⟩
    · simp [WordTree.chars, Word.print, Word.printEndTag]
    · simp [WordTree.word, Word.withLoc]

/-- Written with blanks between them, words have a derivation that can be read. -/
theorem exists_wordTrees (fired : List Identity) {words : List Word}
    (h : ∀ w ∈ words, w.Printable) :
    ∃ trees : WordTrees, WordTrees.chars trees = (Word.printAll fired words).toList ∧
      trees.map (·.1.word) = words.map (Word.withLoc none) ∧ trees.overlong? = none ∧
      ∀ t ∈ trees, t.1.attributeNames.Nodup := by
  induction words with
  | nil => exact ⟨[], by simp [WordTrees.chars, Word.printAll], rfl, rfl, by simp⟩
  | cons w rest ih =>
    obtain ⟨t, hchars, hword, hshort, hnames⟩ := exists_wordTree fired (h w (by simp))
    obtain ⟨trees, hrest, hwords, hshort', hall⟩ := ih fun v hv => h v (by simp [hv])
    -- behind the last word there is no blank
    have hspace : ∃ after : Space, t.chars ++ (after.val ++ WordTrees.chars trees) =
        (Word.printAll fired (w :: rest)).toList := by
      cases rest with
      | nil =>
        refine ⟨⟨[], by simp⟩, ?_⟩
        rw [hrest]
        simp [Word.printAll, hchars]
      | cons v more =>
        refine ⟨.of [' '] (by decide), ?_⟩
        rw [hrest]
        simp [Word.printAll, hchars, String.intercalate_cons_cons]
    obtain ⟨after, hafter⟩ := hspace
    refine ⟨(t, after) :: trees, ?_, ?_, ?_, ?_⟩
    · rw [WordTrees.chars_cons, hafter]
    · simp [hword, hwords]
    · rw [WordTrees.overlong?_cons, hshort, Option.none_or]
      exact hshort'
    · intro u hu
      rcases List.mem_cons.mp hu with rfl | hu
      · exact hnames
      · exact hall u hu

/-! ## The round trip -/

/-- Of two places that a word is given the last one counts. -/
theorem Word.withLoc_withLoc (w : Word) (loc loc' : Option String) :
    (w.withLoc loc).withLoc loc' = w.withLoc loc' := by
  cases w <;> rfl

/-- The word of a derivation has no place. -/
theorem Grammar.WordTree.withLoc_word (t : WordTree) : t.word.withLoc none = t.word := by
  cases t <;> rfl

/-- The words of a derivation are those of its trees, in everything but their places. -/
theorem withLoc_words (s : Source) (start : Nat) (trees : WordTrees) :
    (WordTrees.words s start trees).map (Word.withLoc none) = trees.map (·.1.word) := by
  induction trees generalizing start with
  | nil => rfl
  | cons pair more ih =>
    obtain ⟨t, after⟩ := pair
    simp [WordTrees.words, Word.withLoc_withLoc, WordTree.withLoc_word, ih]

/-- Printable words have a written form, and it is parsed, with nothing reported and the reporter as
it was, into words that differ from the given ones in their places only.  Words of which an integer
has more digits than can be written have no written form. -/
theorem parseWords_writeAll (fired : List Identity) (words : List Word) :
    ((∀ w ∈ words, w.Printable) →
      Word.writeAll fired words = .ok (Word.printAll fired words) ∧
      ∀ s : Source, s.chars = (Word.printAll fired words).toList → ∀ r : Reporter,
        ∃ read : List Word, parseWords s r = (.ok read, r) ∧
          read.map (Word.withLoc none) = words.map (Word.withLoc none)) ∧
    ((∃ w ∈ words, w.isWritable = false) →
      Word.writeAll fired words = .error .integerTooLong) := by
  refine ⟨fun hwords => ⟨Word.writeAll_eq_ok fun w hw => (hwords w hw).isWritable, ?_⟩,
    fun ⟨w, hw, hnot⟩ => Word.writeAll_eq_error hw hnot⟩
  intro s hs r
  obtain ⟨trees, hchars, hmap, hshort, hdistinct⟩ := exists_wordTrees fired hwords
  have hderivation : MarkupTree.chars ⟨⟨[], by simp⟩, trees⟩ = s.chars := by
    simp [MarkupTree.chars, hchars, hs]
  obtain ⟨hfailure, hread, hnotices⟩ := s.words_of_derivation _ hderivation hshort
  have hparse := parseWords_of_notices_eq_nil s r hfailure (hnotices hdistinct)
  refine ⟨s.words.words, hparse, ?_⟩
  rw [hread, MarkupTree.words, withLoc_words, hmap]

/-- A tag with a string of one quote, both sorts of numbers, a reference and nested calls; a text
full of brackets; and an end tag. -/
def bracketedWords : List Word :=
  [.startTag "a-1" ⟨[("s", .expr (.text "\"")), ("-n", .expr (.number (.int (-12)))),
      ("x", .expr (.number (.float (.finite true 5629499534213120 (-51))))),
      ("r", .expr (.ref "p.q")), ("c", .expr (.call "f" [.call "g" [], .ref "p", .text "'"]))],
      by decide⟩ (some "7:7"),
    .text "it's \x7d\n</a-1>" none, .endTag "a-1" none]

/-- The written form of `bracketedWords`. -/
def bracketedSource : Source where
  chars := ("<a-1 s='\"' -n=-12 x=-2.5 r=\x7bp.q\x7d c=\x7bf(g(), p, \"'\")\x7d> " ++
    "\x7b\"it's \x7d\n</a-1>\"\x7d </a-1>").toList

/-- The words of the example are printable. -/
theorem printable_bracketedWords : ∀ w ∈ bracketedWords, w.Printable := by
  have htag : IsTagName ['a', '-', '1'] := ⟨'a', ['-', '1'], rfl, rfl, List.all_eq_true.mp rfl⟩
  have hp : IsIdentifier ['p'] := .part rfl (by simp)
  have hq : IsIdentifier ['q'] := .part rfl (by simp)
  have hpq : IsIdentifier ['p', '.', 'q'] :=
    @IsIdentifier.dot 'p' [] ['q'] rfl (by simp) hq
  have hf : IsIdentifier ['f'] := .part rfl (by simp)
  have hg : IsIdentifier ['g'] := .part rfl (by simp)
  have hfloat : Binary64.ReadsBack (.finite true 5629499534213120 (-51)) :=
    ⟨⟨true, ['2'], ['5']⟩,
      ⟨by simp, List.all_eq_true.mp rfl, List.all_eq_true.mp rfl, .inl rfl⟩, rfl, rfl⟩
  intro w hw
  simp only [bracketedWords, List.mem_cons, List.not_mem_nil, or_false] at hw
  rcases hw with rfl | rfl | rfl
  · refine ⟨htag, ?_⟩
    intro entry hentry
    simp only [List.mem_cons, List.not_mem_nil, or_false] at hentry
    rcases hentry with rfl | rfl | rfl | rfl | rfl
    · exact ⟨⟨by simp, List.all_eq_true.mp rfl⟩, _, rfl, .inr (by decide)⟩
    · exact ⟨⟨by simp, List.all_eq_true.mp rfl⟩, _, rfl, rfl⟩
    · exact ⟨⟨by simp, List.all_eq_true.mp rfl⟩, _, rfl, hfloat⟩
    · exact ⟨⟨by simp, List.all_eq_true.mp rfl⟩, _, rfl, hpq⟩
    · exact ⟨⟨by simp, List.all_eq_true.mp rfl⟩, _, rfl, hf, ⟨hg, trivial⟩, hp,
        .inl (by decide), trivial⟩
  · exact .inl (by decide)
  · exact htag

/-- The words are printable, and their written form is parsed back into them. -/
theorem parseWords_bracketedSource :
    (∀ w ∈ bracketedWords, w.Printable) ∧
    Word.writeAll [] bracketedWords = .ok (String.ofList bracketedSource.chars) ∧
    ∃ read : List Word,
      parseWords bracketedSource { settings := {} } = (.ok read, { settings := {} }) ∧
      read.map (Word.withLoc none) = bracketedWords.map (Word.withLoc none) := by
  have hs : bracketedSource.chars = (Word.printAll [] bracketedWords).toList := by rfl
  obtain ⟨hwritten, hparsed⟩ := (parseWords_writeAll [] bracketedWords).1 printable_bracketedWords
  refine ⟨printable_bracketedWords, ?_, hparsed bracketedSource hs { settings := {} }⟩
  rw [hs, String.ofList_toList]
  exact hwritten

/-- A tag with an integer of so many digits and one more. -/
def powerWord (exponent : Nat) : Word :=
  .startTag "a" ⟨[("x", .expr (.number (.int (10 ^ exponent : Nat))))], by simp⟩ none

/-- The first power of ten that has too many digits cannot be written. -/
theorem isWritable_power (exponent : Nat) (h : digitLimit ≤ exponent) :
    Text.isWritable (10 ^ exponent : Nat) = false := by
  have hlarge : ¬ (Nat.toDigits 10 (10 ^ exponent)).length ≤ digitLimit := by
    rw [Nat.length_toDigits_le_iff (by decide) (by decide), Nat.not_lt]
    exact Nat.pow_le_pow_right (by decide) h
  exact decide_eq_false hlarge

/-- A tag whose names are names and whose values are integers need not have a written form: the
power of ten of 4301 digits has none. -/
theorem powerWord_not_written :
    (∃ attributes, powerWord 4300 = .startTag "a" attributes none ∧ IsTagName ['a'] ∧
      ∀ entry ∈ attributes.entries,
        IsAttributeName entry.1.toList ∧ ∃ i : Int, entry.2 = .expr (.number (.int i))) ∧
    Word.writeAll [] [powerWord 4300] = .error .integerTooLong := by
  constructor
  · refine ⟨_, rfl, ⟨'a', [], rfl, rfl, by simp⟩, ?_⟩
    intro entry hentry
    obtain rfl := List.mem_singleton.mp hentry
    exact ⟨⟨by simp, List.all_eq_true.mp rfl⟩, _, rfl⟩
  · have hnot : (powerWord 4300).isWritable = false := by
      have hpower := isWritable_power 4300 (by decide)
      rw [powerWord, Word.isWritable, List.all_cons, Value.isWritable, Expr.isWritable,
        Number.isWritable, hpower, Bool.false_and]
    exact Word.writeAll_eq_error (List.mem_singleton_self _) hnot

end MarkupSpans
