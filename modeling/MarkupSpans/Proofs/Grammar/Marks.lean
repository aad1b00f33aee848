import MarkupSpans.Proofs.Number.Positional

/-!
# Marks in derivations and in written forms

The equals sign stands in a start tag once for each attribute and else in strings only, and the
letters of exponents and of infinity stand in names and in strings only.  So the characters that a
derivation of a word has hold as many of these marks as the word does, and more if the word repeats
an attribute; the written form of a word holds as many as the word and those of its numbers.

If the written form has a derivation of the same word, the equals signs allow no repeated attribute,
and then nothing is left for the letters of numbers (`numbersInk_of_derivation`).
-/

set_option autoImplicit false

namespace MarkupSpans

open Grammar Text

/-! ## Numbers and marks of a word -/

mutual

/-- The numbers in an expression. -/
def Expr.numbers : Expr → List Number
  | .number n => [n]
  | .call _ args => Expr.allNumbers args
  | _ => []

/-- The numbers in several expressions. -/
def Expr.allNumbers : List Expr → List Number
  | [] => []
  | e :: rest => e.numbers ++ Expr.allNumbers rest

end

/-- The numbers in an attribute. -/
def entryNumbers (entry : String × Value) : List Number :=
  match entry.2 with
  | .expr e => e.numbers
  | _ => []

/-- The numbers in the attributes of a word. -/
def Word.numbers : Word → List Number
  | .startTag _ attributes _ => attributes.entries.flatMap entryNumbers
  | _ => []

/-- A character of which literals, quotes, space and brackets are free. -/
def IsMark (c : Char) : Prop := c ∈ ['=', 'e', 'i']

mutual

/-- How often a character stands in the names and the strings of an expression. -/
def Expr.ink (c : Char) : Expr → Nat
  | .text content => content.toList.count c
  | .number _ => 0
  | .ref name => name.toList.count c
  | .call name args => name.toList.count c + Expr.allInk c args

/-- How often a character stands in the names and the strings of several expressions. -/
def Expr.allInk (c : Char) : List Expr → Nat
  | [] => 0
  | e :: rest => e.ink c + Expr.allInk c rest

end

/-- How often a character stands in numbers. -/
def numbersInk (c : Char) (numbers : List Number) : Nat :=
  (numbers.map fun n => n.text.toList.count c).sum

/-- The marks in two rows of numbers add up. -/
theorem numbersInk_append (c : Char) (front back : List Number) :
    numbersInk c (front ++ back) = numbersInk c front + numbersInk c back := by
  simp [numbersInk]

namespace IsMark

variable {c : Char}

/-- A mark occurs in no row of characters that keeps to a sort without marks. -/
theorem count_eq_zero (hc : IsMark c) {p : Char → Bool} {cs : List Char}
    (hcs : ∀ d ∈ cs, p d = true) (hp : ['=', 'e', 'i'].all (fun d => !p d) = true) :
    cs.count c = 0 := by
  apply List.count_eq_zero.mpr
  intro hmem
  have hnot := List.all_eq_true.mp hp c hc
  rw [hcs c hmem] at hnot
  cases hnot

/-- No mark is space. -/
theorem count_space (hc : IsMark c) (space : Space) : space.val.count c = 0 :=
  hc.count_eq_zero space.property (by decide)

/-- A character that can be no mark does not count. -/
theorem count_cons (hc : IsMark c) {d : Char} (hd : d ∉ ['=', 'e', 'i']) (cs : List Char) :
    (d :: cs).count c = cs.count c := by
  apply List.count_cons_of_ne
  rintro rfl
  exact hd hc

/-- The marks of a string are those of its content. -/
theorem count_string (hc : IsMark c) (s : StringTree) : s.chars.count c = s.content.count c := by
  have hquote : s.quote ∉ ['=', 'e', 'i'] := by
    have := s.isQuote_quote
    simp only [isQuote, Bool.or_eq_true, beq_iff_eq] at this
    rcases this with h | h <;> rw [h] <;> decide
  rw [StringTree.chars, hc.count_cons hquote, List.count_append, hc.count_cons hquote]
  simp

/-- No mark stands in a number that is read. -/
theorem count_literal (hc : IsMark c) {n : NumberLiteral} (h : n.WellFormed) :
    n.chars.count c = 0 :=
  hc.count_eq_zero
    (n.isLiteralChar_of_mem h.isDecimalDigit_whole h.isDecimalDigit_fraction) (by decide)

mutual

/-- The marks in the characters of an expression are those that it needs. -/
theorem count_expr (hc : IsMark c) : (t : ExprTree) → t.chars.count c = t.expr.ink c
  | .text s => by simp [ExprTree.chars, ExprTree.expr, Expr.ink, hc.count_string]
  | .number n h => by simp [ExprTree.chars, ExprTree.expr, Expr.ink, hc.count_literal h]
  | .ref name _ => by simp [ExprTree.chars, ExprTree.expr, Expr.ink]
  | .emptyCall name _ before inside => by
    simp only [ExprTree.chars, ExprTree.expr, Expr.ink, Expr.allInk, List.count_append,
      hc.count_space, hc.count_cons (d := '(') (by decide), hc.count_cons (d := ')') (by decide),
      List.count_nil, String.toList_ofList]
  | .call name _ before inside args => by
    simp only [ExprTree.chars, ExprTree.expr, Expr.ink, List.count_append, hc.count_space,
      hc.count_cons (d := '(') (by decide), String.toList_ofList, hc.count_args args]
    omega

/-- The marks in the characters of arguments are those that they need. -/
theorem count_args (hc : IsMark c) : (t : ArgsTree) → t.chars.count c = Expr.allInk c t.exprs
  | .last e after => by
    simp only [ArgsTree.chars, ArgsTree.exprs, Expr.allInk, List.count_append, hc.count_space,
      hc.count_cons (d := ')') (by decide), List.count_nil, hc.count_expr e]
  | .more e after before rest => by
    simp only [ArgsTree.chars, ArgsTree.exprs, Expr.allInk, List.count_append, hc.count_space,
      hc.count_cons (d := ',') (by decide), hc.count_expr e, hc.count_args rest, Nat.zero_add]

end

/-- The marks of a text between quotes are those of the text. -/
theorem count_quoteLiteral (hc : IsMark c) (content : String) :
    (quoteLiteral content).toList.count c = content.toList.count c := by
  unfold quoteLiteral
  split
  · simp [hc.count_cons (d := '\x27') (by decide)]
  · simp [hc.count_cons (d := '\x22') (by decide)]

mutual

/-- The marks of a printed expression are those that it needs and those of its numbers. -/
theorem count_print (hc : IsMark c) : (e : Expr) →
    e.print.toList.count c = e.ink c + numbersInk c e.numbers
  | .text content => by
    simp [Expr.print, Expr.ink, Expr.numbers, numbersInk, hc.count_quoteLiteral]
  | .number n => by simp [Expr.print, Expr.ink, Expr.numbers, numbersInk]
  | .ref name => by simp [Expr.print, Expr.ink, Expr.numbers, numbersInk]
  | .call name args => by
    have hargs := hc.count_printAll args
    simp only [Expr.print, Expr.ink, Expr.numbers, String.toList_append, List.count_append, hargs]
    have hopen := hc.count_cons (d := '(') (by decide) []
    have hclose := hc.count_cons (d := ')') (by decide) []
    rw [show "(".toList = ['('] from rfl, show ")".toList = [')'] from rfl, hopen, hclose,
      List.count_nil]
    omega

/-- The marks of printed arguments are those that they need and those of their numbers. -/
theorem count_printAll (hc : IsMark c) : (args : List Expr) →
    (", ".intercalate (Expr.printAll args)).toList.count c =
      Expr.allInk c args + numbersInk c (Expr.allNumbers args)
  | [] => by simp [Expr.printAll, Expr.allInk, Expr.allNumbers, numbersInk]
  | [e] => by
    simp only [Expr.printAll, Expr.allInk, Expr.allNumbers, String.intercalate_singleton,
      hc.count_print e, List.append_nil]
    omega
  | e :: e' :: rest => by
    have hrest := hc.count_printAll (e' :: rest)
    simp only [Expr.printAll] at hrest
    have hcomma : (", ".toList).count c = 0 := by
      rw [show ", ".toList = [',', ' '] from rfl, hc.count_cons (by decide),
        hc.count_cons (by decide), List.count_nil]
    rw [Expr.printAll, Expr.printAll, String.intercalate_cons_cons, String.toList_append,
      String.toList_append, List.count_append, List.count_append, hrest, hcomma, hc.count_print e]
    have hink : Expr.allInk c (e :: e' :: rest) = e.ink c + Expr.allInk c (e' :: rest) := rfl
    have hnumbers := numbersInk_append c e.numbers (Expr.allNumbers (e' :: rest))
    change numbersInk c (Expr.allNumbers (e :: e' :: rest)) = _ at hnumbers
    omega

end

end IsMark

/-- How often a character stands in an attribute, besides its numbers. -/
def entryInk (c : Char) (entry : String × Value) : Nat :=
  entry.1.toList.count c + ['='].count c +
    match entry.2 with
    | .expr e => e.ink c
    | _ => 0

namespace IsMark

variable {c : Char}

/-- The sign between name and value counts by itself. -/
theorem count_equals (cs : List Char) (c : Char) :
    ('=' :: cs).count c = ['='].count c + cs.count c := by
  rw [← List.singleton_append, List.count_append]

/-- The marks in the characters of a value are those that its expression needs. -/
theorem count_value (hc : IsMark c) (v : ValueTree) : v.chars.count c = v.expr.ink c := by
  cases v with
  | bare e h => exact hc.count_expr e
  | braced before e after =>
    simp only [ValueTree.chars, ValueTree.expr, ValueTree.tree, hc.count_cons (d := '\x7b') (by decide),
      hc.count_cons (d := '\x7d') (by decide), List.count_append, hc.count_space, hc.count_expr e,
      List.count_nil]
    omega

/-- The marks in the characters of an attribute are those that it needs. -/
theorem count_attribute (hc : IsMark c) (a : AttributeTree) :
    a.chars.count c = entryInk c (String.ofList a.name, .expr a.value.expr) := by
  rw [AttributeTree.chars, List.count_append, List.count_append, count_equals, List.count_append,
    hc.count_space, hc.count_space, hc.count_value]
  simp only [entryInk, String.toList_ofList]
  omega

/-- The marks in the characters of attributes are those that all of them need, repeated ones too. -/
theorem count_attributes (hc : IsMark c) (attributes : List (Gap × AttributeTree)) :
    (attributesChars attributes).count c = ((writtenEntries attributes).map (entryInk c)).sum := by
  induction attributes with
  | nil => rfl
  | cons a rest ih =>
    have hgap : a.1.val.count c = 0 := hc.count_space a.1.toSpace
    simp only [attributesChars, writtenEntries, attributesPairs] at ih ⊢
    simp only [List.flatMap_cons, List.count_append, ih, hgap, hc.count_attribute, List.map_cons,
      List.sum_cons, Nat.zero_add]

/-- The marks of a printed attribute are those that it needs and those of its numbers. -/
theorem count_printAttribute (hc : IsMark c) (fired : List Identity) (name : String) (e : Expr) :
    (Word.printAttribute fired name (.expr e)).toList.count c =
      entryInk c (name, .expr e) + numbersInk c e.numbers := by
  have hprint : e.printAttribute.toList.count c = e.print.toList.count c := by
    have hbraces : ("\x7b" ++ e.print ++ "\x7d").toList.count c = e.print.toList.count c := by
      have hopen := hc.count_cons (d := '\x7b') (by decide) []
      have hclose := hc.count_cons (d := '\x7d') (by decide) []
      rw [String.toList_append, String.toList_append, List.count_append, List.count_append,
        show "\x7b".toList = ['\x7b'] from rfl, show "\x7d".toList = ['\x7d'] from rfl, hopen,
        hclose]
      simp
    cases e with
    | text content => rfl
    | number n => rfl
    | ref name => exact hbraces
    | call name args => exact hbraces
  simp only [Word.printAttribute, String.toList_append, List.count_append, hprint, hc.count_print,
    entryInk]
  rw [show " ".toList = [' '] from rfl, hc.count_cons (d := ' ') (by decide),
    show "=".toList = ['='] from rfl, List.count_nil]
  omega

end IsMark

/-! ## No equals sign in a number -/

/-- A numeral holds no equals sign. -/
theorem equals_notMem_toDigits (n : Nat) : '=' ∉ Nat.toDigits 10 n := fun hmem =>
  absurd (Nat.isDigit_of_mem_toDigits (by decide) (by decide) hmem) (by decide)

/-- A float is written without an equals sign if its digits are. -/
theorem Binary64.equals_notMem_write {digits : List Char} (h : '=' ∉ digits) (exponent : Int) :
    '=' ∉ Layout.standard.write digits exponent := by
  have htake : ∀ n, '=' ∉ digits.take n := fun n hmem => h (List.mem_of_mem_take hmem)
  have hdrop : ∀ n, '=' ∉ digits.drop n := fun n hmem => h (List.mem_of_mem_drop hmem)
  simp only [Layout.write, padZeros]
  split_ifs <;>
    simp [h, htake, hdrop, equals_notMem_toDigits, List.mem_replicate, -List.drop_one]

/-- No number is written with an equals sign. -/
theorem Number.equals_notMem_text (n : Number) : '=' ∉ n.text.toList := by
  cases n with
  | truth b => cases b <;> decide
  | int i =>
    simp only [Number.text, decimalOfInt, decimalOfNat]
    split <;> simp [equals_notMem_toDigits]
  | float x =>
    cases x with
    | nan payload => simp [Number.text, Binary64.text]
    | infinite negative => cases negative <;> simp [Number.text, Binary64.text]
    | finite negative significand exponent =>
      by_cases hzero : significand = 0
      · cases negative <;> simp [Number.text, Binary64.text, hzero]
      · intro hmem
        rw [Number.text, Binary64.text_finite negative hzero] at hmem
        rcases List.mem_append.mp hmem with hsign | hmem
        · cases negative <;> simp at hsign
        · exact Binary64.equals_notMem_write (equals_notMem_toDigits _) _ hmem

/-- No number has an equals sign among its marks. -/
theorem numbersInk_equals (numbers : List Number) : numbersInk '=' numbers = 0 := by
  apply List.sum_eq_zero
  intro n hn
  obtain ⟨number, -, rfl⟩ := List.mem_map.mp hn
  exact List.count_eq_zero.mpr number.equals_notMem_text

/-! ## Tags whose written form is read -/

/-- The entries that a row of writes leaves are some of those written. -/
theorem NameMap.exists_perm_append {α : Type} (row : List (String × α)) :
    ∃ extra, row.Perm ((NameMap.ofList row).entries ++ extra) := by
  have hnodup : (NameMap.ofList row).entries.Nodup :=
    List.Nodup.of_map Prod.fst (NameMap.ofList row).nodup_names
  obtain ⟨part, hperm, hsub⟩ :=
    List.subperm_of_subset hnodup fun entry hentry => NameMap.mem_of_mem_ofList hentry
  obtain ⟨extra, hextra⟩ := hsub.exists_perm_append
  exact ⟨extra, hextra.trans (hperm.append_right extra)⟩

/-- The marks of printed attributes are those that they need and those of their numbers. -/
theorem IsMark.count_join {c : Char} (hc : IsMark c) (fired : List Identity)
    {entries : List (String × Value)} (h : ∀ entry ∈ entries, ∃ e, entry.2 = .expr e) :
    (String.join (entries.map fun entry =>
      Word.printAttribute fired entry.1 entry.2)).toList.count c =
      (entries.map (entryInk c)).sum + numbersInk c (entries.flatMap entryNumbers) := by
  induction entries with
  | nil => rfl
  | cons entry rest ih =>
    obtain ⟨name, value⟩ := entry
    obtain ⟨e, rfl⟩ := h (name, value) (by simp)
    have hrest := ih fun other hother => h other (by simp [hother])
    rw [List.map_cons, String.join_cons, String.toList_append, List.count_append, hrest,
      hc.count_printAttribute, List.flatMap_cons, numbersInk_append, List.map_cons, List.sum_cons]
    simp only [entryNumbers]
    omega

/-- The marks in the characters of a start tag are those of its name and those that its attributes
need. -/
theorem IsMark.count_startTag {c : Char} (hc : IsMark c) (name : {cs : List Char // IsTagName cs})
    (trees : List (Gap × AttributeTree)) (inside : Space) :
    (WordTree.startTag name trees inside).chars.count c =
      name.val.count c + ((writtenEntries trees).map (entryInk c)).sum := by
  simp only [WordTree.chars, List.count_append, hc.count_cons (d := '<') (by decide),
    hc.count_cons (d := '>') (by decide), hc.count_attributes, hc.count_space, List.count_nil]
  omega

/-- The marks of a printed start tag are those of its name, those that its attributes need and those
of their numbers. -/
theorem IsMark.count_printStartTag {c : Char} (hc : IsMark c) (fired : List Identity) (tag : String)
    {attributes : NameMap Value} (h : ∀ entry ∈ attributes.entries, ∃ e, entry.2 = .expr e)
    (loc : Option String) :
    ((Word.startTag tag attributes loc).print fired).toList.count c =
      tag.toList.count c + (attributes.entries.map (entryInk c)).sum +
        numbersInk c (attributes.entries.flatMap entryNumbers) := by
  simp only [Word.print, String.toList_append, List.count_append, hc.count_join fired h]
  rw [show "<".toList = ['<'] from rfl, show ">".toList = ['>'] from rfl,
    hc.count_cons (by decide), hc.count_cons (by decide), List.count_nil]
  omega

/-- If the written form of a word has a derivation that denotes the word, no mark stands in its
numbers: no attribute is repeated, as all equals signs are needed, and then all other marks are. -/
theorem numbersInk_of_derivation {fired : List Identity} {w : Word} {before after : Space}
    {t : WordTree} (hchars : (w.print fired).toList = before.val ++ (t.chars ++ after.val))
    (hword : t.word = w.withLoc none) {c : Char} (hc : IsMark c) : numbersInk c w.numbers = 0 := by
  cases w with
  | text content loc => rfl
  | endTag tag loc => rfl
  | startTag tag attributes loc =>
    cases t with
    | text inside s inside' => cases hword
    | endTag name inside => cases hword
    | startTag name trees inside =>
      obtain ⟨rfl, rfl⟩ : String.ofList name = tag ∧
          NameMap.ofList (writtenEntries trees) = attributes := by
        simpa [WordTree.word, Word.withLoc, writtenEntries] using hword
      obtain ⟨extra, hperm⟩ := NameMap.exists_perm_append (writtenEntries trees)
      have hextra : ∀ d, IsMark d → (extra.map (entryInk d)).sum = numbersInk d
          ((NameMap.ofList (writtenEntries trees)).entries.flatMap entryNumbers) := by
        intro d hd
        have hexprs : ∀ entry ∈ (NameMap.ofList (writtenEntries trees)).entries,
            ∃ e, entry.2 = .expr e := by
          intro entry hentry
          obtain ⟨⟨-, a⟩, -, rfl⟩ := exists_of_mem_attributes hentry
          exact ⟨_, rfl⟩
        have hsum := (hperm.map (entryInk d)).sum_eq
        rw [List.map_append, List.sum_append] at hsum
        have hcount := congrArg (List.count d) hchars
        rw [hd.count_printStartTag fired _ hexprs, String.toList_ofList, List.count_append,
          List.count_append, hd.count_space, hd.count_space, hd.count_startTag] at hcount
        omega
      -- there is an equals sign in every attribute
      have hnil : extra = [] := by
        have hequals := hextra '=' (by simp [IsMark])
        rw [numbersInk_equals] at hequals
        cases extra with
        | nil => rfl
        | cons entry rest =>
          have hone : ['='].count '=' = 1 := rfl
          rw [List.map_cons, List.sum_cons, entryInk, hone] at hequals
          omega
      have hmarks := hextra c hc
      rw [hnil] at hmarks
      exact hmarks.symm

end MarkupSpans
