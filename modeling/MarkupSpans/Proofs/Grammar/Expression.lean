import MarkupSpans.Proofs.Grammar.Literal

/-!
# Readers of expressions

Reading an expression off a text that it can end in front of gives what its derivation denotes
and leaves the rest (`readExpression_append`), unless an integer in it is too long
(`readExpression_overlong`); whatever is read has a derivation (`exists_of_readExpression`); and no
two derivations have the same characters (`ExprTree.append_inj`).  The last statement is about the
grammar alone, so it holds of expressions too that cannot be read.
-/

set_option autoImplicit false

namespace MarkupSpans.Grammar

open Text

/-! ## The first character of an expression -/

/-- The characters that an expression can begin with. -/
def isExpressionStart (c : Char) : Bool :=
  isQuote c || c == '-' || isDigit c || isIdentifierStart c

/-- Identifiers, strings and numbers are told apart by their first characters. -/
theorem identifierStart_disjoint {c : Char} (h : isIdentifierStart c = true) :
    isQuote c = false ∧ c ≠ '-' ∧ isDigit c = false := by
  refine ⟨isQuote_eq_false (by decide) h, ?_, ?_⟩
  · rintro rfl
    exact absurd h (by decide)
  · have hdigits : ∀ n < 58, 48 ≤ n → isIdentifierStart (Char.ofNat n) = false := by decide
    by_contra hdigit
    have hbounds : 48 ≤ c.toNat ∧ c.toNat ≤ 57 :=
      Char.isDigit_iff_toNat.mp (by simpa [isDigit] using hdigit)
    have hnot := hdigits c.toNat (by omega) hbounds.1
    rw [Char.ofNat_toNat, h] at hnot
    cases hnot

/-- No number begins with a quote. -/
theorem isQuote_eq_false_of_number {c : Char} (h : c = '-' ∨ isDigit c = true) :
    isQuote c = false := by
  have hnumber : (c == '-' || isDigit c) = true := by simpa using h
  exact isQuote_eq_false (p := fun c => c == '-' || isDigit c) (by decide) hnumber

/-- No expression begins with space or with a bracket. -/
theorem expressionStart_disjoint {c : Char} (h : isExpressionStart c = true) :
    isSpace c = false ∧ c ≠ ')' ∧ c ≠ '\x7b' := by
  refine ⟨isSpace_eq_false (by decide) h, ?_, ?_⟩
  · rintro rfl
    exact absurd h (by decide)
  · rintro rfl
    exact absurd h (by decide)

/-- A number begins with a minus sign or a digit. -/
theorem NumberLiteral.WellFormed.exists_cons {n : NumberLiteral} (hn : n.WellFormed) :
    ∃ c tail, n.chars = c :: tail ∧ (c = '-' ∨ isDigit c = true) := by
  obtain ⟨d, more, hdigits⟩ := List.exists_cons_of_ne_nil hn.whole_ne_nil
  cases hnegative : n.negative with
  | true => exact ⟨'-', _, by simp [NumberLiteral.chars, hnegative]; rfl, .inl rfl⟩
  | false =>
    refine ⟨d, _, by simp [NumberLiteral.chars, hnegative, hdigits]; rfl, .inr ?_⟩
    have hhead := hn.isDigit_head
    rw [hnegative, hdigits] at hhead
    simpa using hhead

/-- The sorts of expressions that the first character tells apart. -/
inductive ExpressionSort where
  | text
  | number
  /-- An identifier, called or not. -/
  | name

/-- The sort of an expression. -/
def ExprTree.sort : ExprTree → ExpressionSort
  | .text _ => .text
  | .number _ _ => .number
  | _ => .name

/-- The characters that expressions of a sort begin with. -/
def ExpressionSort.Begins (c : Char) : ExpressionSort → Prop
  | .text => isQuote c = true
  | .number => c = '-' ∨ isDigit c = true
  | .name => isIdentifierStart c = true

/-- No two sorts of expressions begin with the same character. -/
theorem ExpressionSort.eq_of_begins {c : Char} : {sort sort' : ExpressionSort} →
    sort.Begins c → sort'.Begins c → sort = sort'
  | .text, .text, _, _ => rfl
  | .number, .number, _, _ => rfl
  | .name, .name, _, _ => rfl
  | .text, .number, hquote, hnumber => by
    rw [ExpressionSort.Begins, isQuote_eq_false_of_number hnumber] at hquote
    cases hquote
  | .number, .text, hnumber, hquote => by
    rw [ExpressionSort.Begins, isQuote_eq_false_of_number hnumber] at hquote
    cases hquote
  | .text, .name, hquote, hname => by
    rw [ExpressionSort.Begins, (identifierStart_disjoint hname).1] at hquote
    cases hquote
  | .name, .text, hname, hquote => by
    rw [ExpressionSort.Begins, (identifierStart_disjoint hname).1] at hquote
    cases hquote
  | .number, .name, hnumber, hname => by
    obtain ⟨-, hminus, hdigit⟩ := identifierStart_disjoint hname
    exact (hnumber.elim hminus (by simp [hdigit])).elim
  | .name, .number, hname, hnumber => by
    obtain ⟨-, hminus, hdigit⟩ := identifierStart_disjoint hname
    exact (hnumber.elim hminus (by simp [hdigit])).elim

/-- An expression begins with a character of its sort. -/
theorem ExprTree.exists_begins (e : ExprTree) :
    ∃ c tail, e.chars = c :: tail ∧ e.sort.Begins c := by
  cases e with
  | text s => exact ⟨s.quote, _, rfl, s.isQuote_quote⟩
  | number n hn => exact hn.exists_cons
  | ref name h => exact h.exists_cons
  | emptyCall name h before inside =>
    obtain ⟨c, tail, rfl, hc⟩ := h.exists_cons
    exact ⟨c, _, rfl, hc⟩
  | call name h before inside args =>
    obtain ⟨c, tail, rfl, hc⟩ := h.exists_cons
    exact ⟨c, _, rfl, hc⟩

/-- Expressions that begin the same text are of one sort. -/
theorem ExprTree.sort_eq_of_append {e e' : ExprTree} {rest rest' : List Char}
    (h : e.chars ++ rest = e'.chars ++ rest') : e.sort = e'.sort := by
  obtain ⟨c, tail, hchars, hc⟩ := e.exists_begins
  obtain ⟨c', tail', hchars', hc'⟩ := e'.exists_begins
  rw [hchars, hchars'] at h
  obtain ⟨rfl, -⟩ := List.cons.inj h
  exact ExpressionSort.eq_of_begins hc hc'

/-- An expression begins with a character that expressions can begin with. -/
theorem ExprTree.exists_cons (e : ExprTree) :
    ∃ c tail, e.chars = c :: tail ∧ isExpressionStart c = true := by
  obtain ⟨c, tail, heq, hc⟩ := e.exists_begins
  refine ⟨c, tail, heq, ?_⟩
  generalize e.sort = sort at hc
  cases sort with
  | text =>
    rw [ExpressionSort.Begins] at hc
    simp [isExpressionStart, hc]
  | number =>
    rcases hc with rfl | hdigit
    · decide
    · simp [isExpressionStart, hdigit]
  | name =>
    rw [ExpressionSort.Begins] at hc
    simp [isExpressionStart, hc]

/-- Arguments begin as an expression does. -/
theorem ArgsTree.exists_cons (args : ArgsTree) :
    ∃ c tail, args.chars = c :: tail ∧ isExpressionStart c = true := by
  cases args with
  | last e after =>
    obtain ⟨c, tail, heq, hc⟩ := e.exists_cons
    exact ⟨c, _, by simp [ArgsTree.chars, heq]; rfl, hc⟩
  | more e after before rest =>
    obtain ⟨c, tail, heq, hc⟩ := e.exists_cons
    exact ⟨c, _, by simp [ArgsTree.chars, heq]; rfl, hc⟩

/-- An expression begins with no space. -/
theorem ExprTree.stops_space (e : ExprTree) (rest : List Char) :
    Stops isSpace (e.chars ++ rest) := by
  obtain ⟨c, tail, heq, hc⟩ := e.exists_cons
  rw [heq]
  exact (stops_cons_iff _ _ _).mpr (expressionStart_disjoint hc).1

/-- Arguments begin with no space, whatever stands behind them. -/
theorem ArgsTree.stops_space (args : ArgsTree) (rest : List Char) :
    Stops isSpace (args.chars ++ rest) := by
  obtain ⟨c, tail, heq, hc⟩ := args.exists_cons
  rw [heq]
  exact (stops_cons_iff _ _ _).mpr (expressionStart_disjoint hc).1

/-! ## Where an expression ends -/

/-- An expression can end in front of the text: it goes on with a delimiter, and, where calls are
allowed, not with an opening parenthesis behind space. -/
def Ends (callAllowed : Bool) (rest : List Char) : Prop :=
  Delimited rest ∧ (callAllowed = true → Stops (· == '(') (skipSpace rest))

/-- An expression can end in front of space and a closing delimiter. -/
theorem ends_space_append (callAllowed : Bool) (space : Space) {c : Char}
    (hc : c ∈ [',', ')', '}', '>']) (tail : List Char) :
    Ends callAllowed (space.val ++ c :: tail) := by
  have hfacts : isDelimiter c = true ∧ isSpace c = false ∧ (c == '(') = false := by
    simp only [List.mem_cons, List.not_mem_nil, or_false] at hc
    rcases hc with rfl | rfl | rfl | rfl <;> decide
  obtain ⟨hdelimiter, hspace, hopen⟩ := hfacts
  refine ⟨delimited_space_append space ((delimited_cons_iff _ _).mpr hdelimiter), fun _ => ?_⟩
  rw [skipSpace_append_cons space hspace]
  exact (stops_cons_iff _ _ _).mpr hopen

/-! ## Derivations are read -/

/-- A string is read as an expression. -/
theorem readExpression_text (callAllowed : Bool) (s : StringTree) (rest : List Char) :
    readExpression callAllowed (s.chars ++ rest) =
      .matched (.text (String.ofList s.content)) rest := by
  have hhead : (s.chars ++ rest).head? = some s.quote := rfl
  rw [readExpression_eq, hhead]
  simp only [s.isQuote_quote, if_true, readString_append, Outcome.map]

/-- Where a number can stand, an expression is what the reader of numbers says. -/
theorem readExpression_number (callAllowed : Bool) {n : NumberLiteral} (hn : n.WellFormed)
    (rest : List Char) :
    readExpression callAllowed (n.chars ++ rest) = (readNumber (n.chars ++ rest)).map .number := by
  obtain ⟨c, tail, heq, hc⟩ := hn.exists_cons
  have hhead : (n.chars ++ rest).head? = some c := by rw [heq]; rfl
  have hnumber : (c == '-' || isDigit c) = true := by simpa using hc
  rw [readExpression_eq, hhead]
  simp only [isQuote_eq_false_of_number hc, hnumber, if_true]
  simp

/-- Behind an identifier it is seen whether it is called. -/
theorem readExpression_identifier (callAllowed : Bool) {name : List Char}
    (hname : IsIdentifier name) {rest : List Char} (hrest : Delimited rest) :
    readExpression callAllowed (name ++ rest) =
      if callAllowed && (skipSpace rest).head? == some '(' then
        (readArguments (String.ofList name) (skipSpace rest)).map (.call (String.ofList name) ·)
      else .matched (.ref (String.ofList name)) rest := by
  have hread := readIdentifier_append hname hrest
  obtain ⟨c, tail, rfl, hc⟩ := hname.exists_cons
  obtain ⟨hquote, hminus, hdigit⟩ := identifierStart_disjoint hc
  have hhead : (c :: tail ++ rest).head? = some c := rfl
  have hnumber : (c == '-' || isDigit c) = false := by simp [hminus, hdigit]
  rw [readExpression_eq, hhead]
  simp only [hquote, hnumber, hread]
  simp

/-- An identifier with no arguments behind it is read as a reference. -/
theorem readExpression_ref {callAllowed : Bool} {name : List Char} (hname : IsIdentifier name)
    {rest : List Char} (hrest : Ends callAllowed rest) :
    readExpression callAllowed (name ++ rest) = .matched (.ref (String.ofList name)) rest := by
  rw [readExpression_identifier callAllowed hname hrest.1]
  apply if_neg
  intro hopen
  simp only [Bool.and_eq_true, beq_iff_eq] at hopen
  have hstop := hrest.2 hopen.1 '(' hopen.2
  simp at hstop

/-- An identifier with a parenthesis behind it is read as a call of what is read as arguments. -/
theorem readExpression_call {name : List Char} (hname : IsIdentifier name) (before : Space)
    (inside : List Char) :
    readExpression true (name ++ (before.val ++ '(' :: inside)) =
      (readArguments (String.ofList name) ('(' :: inside)).map
        (.call (String.ofList name) ·) := by
  have hdelimited : Delimited (before.val ++ '(' :: inside) :=
    delimited_space_append before ((delimited_cons_iff _ _).mpr (by decide))
  have hskip : skipSpace (before.val ++ '(' :: inside) = '(' :: inside :=
    skipSpace_append_cons before (by decide) _
  rw [readExpression_identifier true hname hdelimited, hskip]
  simp

/-- Parentheses with nothing between them are read as no arguments. -/
theorem readArguments_empty (function : String) (inside : Space) (rest : List Char) :
    readArguments function ('(' :: (inside.val ++ ')' :: rest)) = .matched [] rest := by
  have hskip : skipSpace (inside.val ++ ')' :: rest) = ')' :: rest :=
    skipSpace_append_cons inside (by decide) _
  simp [readArguments, hskip]

/-- Behind the parenthesis and space arguments are read one by one. -/
theorem readArguments_some (function : String) (inside : Space) (args : ArgsTree)
    (rest : List Char) :
    ∃ opened, readArguments function ('(' :: (inside.val ++ (args.chars ++ rest))) =
      readMoreArguments function opened (args.chars ++ rest) := by
  have hskip := skipSpace_append inside (args.stops_space rest)
  obtain ⟨c, tail, heq, hc⟩ := args.exists_cons
  have hclose : c ≠ ')' := (expressionStart_disjoint hc).2.1
  refine ⟨(inside.val ++ (args.chars ++ rest)).length + 1, ?_⟩
  simp only [readArguments, hskip]
  split
  case h_1 behind hbehind =>
    rw [heq] at hbehind
    simp only [List.cons_append, List.cons.injEq] at hbehind
    exact absurd hbehind.1 hclose
  case h_2 => rfl

/-- A single number in a row is the first overlong one, if it is overlong. -/
theorem firstOverlong_singleton (n : NumberLiteral) :
    firstOverlong [n] = if n.isOverlong then some n else none := by
  cases h : n.isOverlong <;> simp [firstOverlong, h]

/-- The first overlong integer of several arguments is that of the first one, or else that of the
others. -/
theorem ArgsTree.overlong?_more (e : ExprTree) (after before : Space) (rest : ArgsTree) :
    (ArgsTree.more e after before rest).overlong? = e.overlong?.or rest.overlong? :=
  firstOverlong_append e.numerals rest.numerals

mutual

/-- An expression is read off a text that it can end in front of. -/
theorem readExpression_append {callAllowed : Bool} : (e : ExprTree) →
    (callAllowed = true ∨ e.isCall = false) → e.overlong? = none → {rest : List Char} →
    Ends callAllowed rest → readExpression callAllowed (e.chars ++ rest) = .matched e.expr rest
  | .text s, _, _, rest, _ => readExpression_text callAllowed s rest
  | .number n hn, _, hshort, rest, hrest => by
    have hshort' : n.isOverlong = false := by
      simpa [ExprTree.overlong?, ExprTree.numerals, firstOverlong_singleton] using hshort
    simp only [ExprTree.chars, ExprTree.expr]
    rw [readExpression_number callAllowed hn, readNumber_append hn hrest.1 hshort', Outcome.map]
  | .ref _ hname, _, _, _, hrest => readExpression_ref hname hrest
  | .emptyCall name hname before inside, hcall, _, rest, _ => by
    have hallowed : callAllowed = true := by simpa [ExprTree.isCall] using hcall
    have hread := readExpression_call hname before (inside.val ++ ')' :: rest)
    rw [readArguments_empty] at hread
    simpa [ExprTree.chars, ExprTree.expr, hallowed, Outcome.map] using hread
  | .call name hname before inside args, hcall, hshort, rest, _ => by
    have hallowed : callAllowed = true := by simpa [ExprTree.isCall] using hcall
    have hread := readExpression_call hname before (inside.val ++ (args.chars ++ rest))
    obtain ⟨opened, hargs⟩ := readArguments_some (String.ofList name) inside args rest
    rw [hargs, readMoreArguments_append args hshort] at hread
    simpa [ExprTree.chars, ExprTree.expr, hallowed, Outcome.map] using hread

/-- Arguments are read up to their closing parenthesis, whatever comes behind. -/
theorem readMoreArguments_append {function : String} {opened : Nat} : (args : ArgsTree) →
    args.overlong? = none → {rest : List Char} →
    readMoreArguments function opened (args.chars ++ rest) = .matched args.exprs rest
  | .last e after, hshort, rest => by
    have hends := ends_space_append true after (c := ')') (by simp) rest
    have hskip : skipSpace (after.val ++ ')' :: rest) = ')' :: rest :=
      skipSpace_append_cons after (by decide) _
    have hread := readExpression_append e (.inl rfl) hshort hends
    simp only [ArgsTree.chars, ArgsTree.exprs, List.append_assoc, List.cons_append,
      List.nil_append]
    rw [readMoreArguments_eq, hread]
    simp [hskip]
  | .more e after before more, hshort, rest => by
    have hends := ends_space_append true after (c := ',') (by simp)
      (before.val ++ (more.chars ++ rest))
    have hskip : skipSpace (after.val ++ ',' :: (before.val ++ (more.chars ++ rest))) =
        ',' :: (before.val ++ (more.chars ++ rest)) :=
      skipSpace_append_cons after (by decide) _
    rw [ArgsTree.overlong?_more, Option.or_eq_none_iff] at hshort
    obtain ⟨hshort, hshort'⟩ := hshort
    have hread := readExpression_append e (.inl rfl) hshort hends
    have hmore : readMoreArguments function opened (more.chars ++ rest) =
        .matched more.exprs rest := readMoreArguments_append more hshort'
    simp only [ArgsTree.chars, ArgsTree.exprs, List.append_assoc, List.cons_append]
    rw [readMoreArguments_eq, hread]
    simp [hskip, skipSpace_append before (more.stops_space rest), hmore, Outcome.map]

end

mutual

/-- Reading an expression fails at its first overlong integer. -/
theorem readExpression_overlong {callAllowed : Bool} {n : NumberLiteral} : (e : ExprTree) →
    (callAllowed = true ∨ e.isCall = false) → e.overlong? = some n → {rest : List Char} →
    Ends callAllowed rest → ∃ left, readExpression callAllowed (e.chars ++ rest) =
      .faulty ⟨.numberTooLong n.whole.length, left⟩
  | .text s, _, hlong, _, _ => by cases hlong
  | .number m hm, _, hlong, rest, hrest => by
    have hboth : m.isOverlong = true ∧ m = n := by
      simpa [ExprTree.overlong?, ExprTree.numerals, firstOverlong_singleton] using hlong
    obtain ⟨hm', rfl⟩ := hboth
    obtain ⟨left, hread⟩ := readNumber_overlong hm hrest.1 hm'
    refine ⟨left, ?_⟩
    simp only [ExprTree.chars]
    rw [readExpression_number callAllowed hm, hread, Outcome.map]
  | .ref _ _, _, hlong, _, _ => by cases hlong
  | .emptyCall _ _ _ _, _, hlong, _, _ => by cases hlong
  | .call name hname before inside args, hcall, hlong, rest, _ => by
    have hallowed : callAllowed = true := by simpa [ExprTree.isCall] using hcall
    have hread := readExpression_call hname before (inside.val ++ (args.chars ++ rest))
    obtain ⟨opened, hargs⟩ := readArguments_some (String.ofList name) inside args rest
    obtain ⟨left, hfault⟩ :=
      readMoreArguments_overlong (String.ofList name) opened args hlong rest
    rw [hargs, hfault] at hread
    exact ⟨left, by simpa [ExprTree.chars, hallowed, Outcome.map] using hread⟩

/-- Reading arguments fails at their first overlong integer: those in front of it are read. -/
theorem readMoreArguments_overlong (function : String) (opened : Nat) {n : NumberLiteral} :
    (args : ArgsTree) → args.overlong? = some n → (rest : List Char) →
    ∃ left, readMoreArguments function opened (args.chars ++ rest) =
      .faulty ⟨.numberTooLong n.whole.length, left⟩
  | .last e after, hlong, rest => by
    have hends := ends_space_append true after (c := ')') (by simp) rest
    obtain ⟨left, hread⟩ := readExpression_overlong e (.inl rfl) hlong hends
    refine ⟨left, ?_⟩
    simp only [ArgsTree.chars, List.append_assoc, List.cons_append, List.nil_append]
    rw [readMoreArguments_eq, hread]
  | .more e after before more, hlong, rest => by
    have hends := ends_space_append true after (c := ',') (by simp)
      (before.val ++ (more.chars ++ rest))
    have hskip : skipSpace (after.val ++ ',' :: (before.val ++ (more.chars ++ rest))) =
        ',' :: (before.val ++ (more.chars ++ rest)) :=
      skipSpace_append_cons after (by decide) _
    simp only [ArgsTree.chars, List.append_assoc, List.cons_append]
    rw [readMoreArguments_eq]
    rw [ArgsTree.overlong?_more] at hlong
    cases hfirst : e.overlong? with
    | some m =>
      rw [hfirst, Option.some_or, Option.some.injEq] at hlong
      obtain ⟨left, hread⟩ := readExpression_overlong e (.inl rfl) (hlong ▸ hfirst) hends
      exact ⟨left, by rw [hread]⟩
    | none =>
      rw [hfirst, Option.none_or] at hlong
      obtain ⟨left, hfault⟩ := readMoreArguments_overlong function opened more hlong rest
      refine ⟨left, ?_⟩
      rw [readExpression_append e (.inl rfl) hfirst hends]
      simp [hskip, skipSpace_append before (more.stops_space rest), hfault, Outcome.map]

end

/-! ## What is read has a derivation -/

/-- One step of reading an expression, given that the arguments of a call have a derivation. -/
theorem exists_of_expressionStep {steps : Nat}
    (hargs : ∀ function opened cs args rest,
      argumentsWithin steps function opened cs = .matched args rest →
      ∃ t : ArgsTree, cs = t.chars ++ rest)
    {callAllowed : Bool} {cs rest : List Char} {e : Expr}
    (h : expressionWithin (steps + 1) callAllowed cs = .matched e rest) :
    ∃ t : ExprTree, (callAllowed = true ∨ t.isCall = false) ∧ cs = t.chars ++ rest := by
  unfold expressionWithin at h
  split at h
  case h_1 => simp at h
  case h_2 c hhead =>
    obtain ⟨tail, rfl⟩ : ∃ tail, cs = c :: tail := List.head?_eq_some_iff.mp hhead
    split at h
    case isTrue =>
      obtain ⟨content, hread, -⟩ := (Outcome.map_eq_matched_iff _ _ _ _).mp h
      obtain ⟨s, hs⟩ := exists_of_readString hread
      exact ⟨.text s, .inr rfl, hs⟩
    case isFalse =>
      split at h
      case isTrue hc =>
        obtain ⟨value, hread, -⟩ := (Outcome.map_eq_matched_iff _ _ _ _).mp h
        obtain ⟨n, hn, heq⟩ := exists_of_readNumber (by simpa using hc) hread
        exact ⟨.number n hn, .inr rfl, heq⟩
      case isFalse =>
        split at h
        case h_1 => simp at h
        case h_2 => simp at h
        case h_3 name behind hname =>
          obtain ⟨chars, hchars, heq⟩ := exists_of_readIdentifier hname
          have href : e = .ref name → rest = behind →
              ∃ t : ExprTree, (callAllowed = true ∨ t.isCall = false) ∧
                c :: tail = t.chars ++ rest := by
            rintro - rfl
            exact ⟨.ref chars hchars, .inr rfl, heq⟩
          split at h
          case isFalse =>
            simp only [Outcome.matched.injEq] at h
            exact href h.1.symm h.2.symm
          case isTrue hallowed =>
            obtain ⟨before, hbefore⟩ := exists_space behind
            split at h
            case h_2 =>
              simp only [Outcome.matched.injEq] at h
              exact href h.1.symm h.2.symm
            case h_1 inside hinside =>
              obtain ⟨space, hspace⟩ := exists_space inside
              rw [hinside] at hbefore
              split at h
              case h_1 closed hclosed =>
                simp only [Outcome.matched.injEq] at h
                obtain ⟨-, rfl⟩ := h
                rw [hclosed] at hspace
                refine ⟨.emptyCall chars hchars before space, .inl hallowed, ?_⟩
                rw [heq, hbefore, hspace]
                simp [ExprTree.chars]
              case h_2 =>
                obtain ⟨args, hread, -⟩ := (Outcome.map_eq_matched_iff _ _ _ _).mp h
                obtain ⟨t, ht⟩ := hargs _ _ _ _ _ hread
                refine ⟨.call chars hchars before space t, .inl hallowed, ?_⟩
                rw [heq, hbefore, hspace, ht]
                simp [ExprTree.chars]

/-- One step of reading arguments, given that expressions and the arguments behind a comma have
derivations. -/
theorem exists_of_argumentsStep {steps : Nat}
    (hexpr : ∀ callAllowed cs e rest, expressionWithin steps callAllowed cs = .matched e rest →
      ∃ t : ExprTree, (callAllowed = true ∨ t.isCall = false) ∧ cs = t.chars ++ rest)
    (hargs : ∀ function opened cs args rest,
      argumentsWithin steps function opened cs = .matched args rest →
      ∃ t : ArgsTree, cs = t.chars ++ rest)
    {function : String} {opened : Nat} {cs rest : List Char} {args : List Expr}
    (h : argumentsWithin (steps + 1) function opened cs = .matched args rest) :
    ∃ t : ArgsTree, cs = t.chars ++ rest := by
  unfold argumentsWithin at h
  split at h
  case h_1 => simp at h
  case h_2 => simp at h
  case h_3 argument behind hargument =>
    obtain ⟨e, -, he⟩ := hexpr _ _ _ _ hargument
    obtain ⟨after, hafter⟩ := exists_space behind
    split at h
    case h_1 closed hclosed =>
      simp only [Outcome.matched.injEq] at h
      obtain ⟨-, rfl⟩ := h
      rw [hclosed] at hafter
      refine ⟨.last e after, ?_⟩
      rw [he, hafter]
      simp [ArgsTree.chars]
    case h_2 more hmore =>
      obtain ⟨args', hread, -⟩ := (Outcome.map_eq_matched_iff _ _ _ _).mp h
      obtain ⟨before, hbefore⟩ := exists_space more
      obtain ⟨t, ht⟩ := hargs _ _ _ _ _ hread
      rw [hmore] at hafter
      refine ⟨.more e after before t, ?_⟩
      rw [he, hafter, hbefore, ht]
      simp [ArgsTree.chars]
    case h_3 => simp at h

/-- One induction on the steps gives the derivations of both rules, as each refers to the
other. -/
theorem exists_of_within (steps : Nat) :
    (∀ callAllowed cs e rest, expressionWithin steps callAllowed cs = .matched e rest →
      ∃ t : ExprTree, (callAllowed = true ∨ t.isCall = false) ∧ cs = t.chars ++ rest) ∧
    (∀ function opened cs args rest,
      argumentsWithin steps function opened cs = .matched args rest →
      ∃ t : ArgsTree, cs = t.chars ++ rest) := by
  induction steps with
  | zero => simp [expressionWithin, argumentsWithin]
  | succ steps ih =>
    constructor
    · intro callAllowed cs e rest h
      exact exists_of_expressionStep ih.2 h
    · intro function opened cs args rest h
      exact exists_of_argumentsStep ih.1 ih.2 h

/-- What is read as an expression has a derivation. -/
theorem exists_of_readExpression {callAllowed : Bool} {cs rest : List Char} {e : Expr}
    (h : readExpression callAllowed cs = .matched e rest) :
    ∃ t : ExprTree, (callAllowed = true ∨ t.isCall = false) ∧ cs = t.chars ++ rest :=
  (exists_of_within _).1 _ _ _ _ h

/-! ## Derivations are unique -/

/-- Arguments do not begin with the parenthesis that closes them. -/
theorem ArgsTree.append_ne (args : ArgsTree) (before before' : Space) (rest rest' : List Char) :
    before.val ++ ')' :: rest ≠ before'.val ++ (args.chars ++ rest') := by
  intro h
  obtain ⟨c, tail, hchars, hc⟩ := args.exists_cons
  obtain ⟨-, hclose⟩ := space_append_inj ((stops_cons_iff _ _ _).mpr (by decide))
    (args.stops_space rest') h
  rw [hchars] at hclose
  exact (expressionStart_disjoint hc).2.1 (List.cons.inj hclose).1.symm

/-- Where an expression can end, no call goes on. -/
theorem Ends.append_ne {rest : List Char} (h : Ends true rest) (before : Space)
    (inside : List Char) : rest ≠ before.val ++ '(' :: inside := by
  rintro rfl
  have hopen := h.2 rfl
  rw [skipSpace_append_cons before (by decide)] at hopen
  exact absurd ((stops_cons_iff _ _ _).mp hopen) (by decide)

/-- The parenthesis of a call, with the space in front of it, is a delimiter. -/
theorem delimited_parenthesis (before : Space) (inside : List Char) :
    Delimited (before.val ++ '(' :: inside) :=
  delimited_space_append before ((delimited_cons_iff _ _).mpr (by decide))

mutual

/-- An expression is told apart from what it can end in front of.  The first character tells
strings, numbers and names apart, and what follows a name tells how it is used. -/
theorem ExprTree.append_inj {callAllowed : Bool} : (e e' : ExprTree) →
    (callAllowed = true ∨ e.isCall = false) → (callAllowed = true ∨ e'.isCall = false) →
    {rest rest' : List Char} → Ends callAllowed rest → Ends callAllowed rest' →
    e.chars ++ rest = e'.chars ++ rest' → e = e' ∧ rest = rest'
  | .text s, e', _, _, rest, rest', _, _, h => by
    have hsort := ExprTree.sort_eq_of_append h
    cases e' with
    | text s' =>
      obtain ⟨rfl, hseam⟩ := StringTree.append_inj h
      exact ⟨rfl, hseam⟩
    | _ => cases hsort
  | .number n hn, e', _, _, rest, rest', hrest, hrest', h => by
    have hsort := ExprTree.sort_eq_of_append h
    cases e' with
    | number n' hn' =>
      obtain ⟨rfl, hseam⟩ := NumberLiteral.append_inj hn hn' hrest.1 hrest'.1 h
      exact ⟨rfl, hseam⟩
    | _ => cases hsort
  | .ref name hname, e', _, hcall', rest, rest', hrest, hrest', h => by
    have hsort := ExprTree.sort_eq_of_append h
    cases e' with
    | ref name' hname' =>
      obtain ⟨rfl, hseam⟩ := hname.append_inj hname' hrest.1 hrest'.1 h
      exact ⟨rfl, hseam⟩
    | emptyCall name' hname' before' inside' =>
      have hallowed : callAllowed = true := by simpa [ExprTree.isCall] using hcall'
      simp only [ExprTree.chars, List.append_assoc, List.cons_append] at h
      obtain ⟨-, hseam⟩ := hname.append_inj hname' hrest.1 (delimited_parenthesis before' _) h
      exact absurd hseam ((hallowed ▸ hrest).append_ne before' _)
    | call name' hname' before' inside' args' =>
      have hallowed : callAllowed = true := by simpa [ExprTree.isCall] using hcall'
      simp only [ExprTree.chars, List.append_assoc, List.cons_append] at h
      obtain ⟨-, hseam⟩ := hname.append_inj hname' hrest.1 (delimited_parenthesis before' _) h
      exact absurd hseam ((hallowed ▸ hrest).append_ne before' _)
    | _ => cases hsort
  | .emptyCall name hname before inside, e', hcall, _, rest, rest', _, hrest', h => by
    have hsort := ExprTree.sort_eq_of_append h
    have hallowed : callAllowed = true := by simpa [ExprTree.isCall] using hcall
    cases e' with
    | ref name' hname' =>
      simp only [ExprTree.chars, List.append_assoc, List.cons_append] at h
      obtain ⟨-, hseam⟩ := hname.append_inj hname' (delimited_parenthesis before _) hrest'.1 h
      exact absurd hseam.symm ((hallowed ▸ hrest').append_ne before _)
    | emptyCall name' hname' before' inside' =>
      simp only [ExprTree.chars, List.append_assoc, List.cons_append] at h
      obtain ⟨rfl, hcalled⟩ := hname.append_inj hname' (delimited_parenthesis before _)
        (delimited_parenthesis before' _) h
      obtain ⟨rfl, hinside⟩ := space_cons_inj (by decide) hcalled
      obtain ⟨rfl, hseam⟩ := space_cons_inj (by decide) hinside
      exact ⟨rfl, hseam⟩
    | call name' hname' before' inside' args' =>
      simp only [ExprTree.chars, List.append_assoc, List.cons_append] at h
      obtain ⟨rfl, hcalled⟩ := hname.append_inj hname' (delimited_parenthesis before _)
        (delimited_parenthesis before' _) h
      obtain ⟨-, hinside⟩ := space_cons_inj (by decide) hcalled
      exact absurd hinside (args'.append_ne inside inside' rest rest')
    | _ => cases hsort
  | .call name hname before inside args, e', hcall, _, rest, rest', _, hrest', h => by
    have hsort := ExprTree.sort_eq_of_append h
    have hallowed : callAllowed = true := by simpa [ExprTree.isCall] using hcall
    cases e' with
    | ref name' hname' =>
      simp only [ExprTree.chars, List.append_assoc, List.cons_append] at h
      obtain ⟨-, hseam⟩ := hname.append_inj hname' (delimited_parenthesis before _) hrest'.1 h
      exact absurd hseam.symm ((hallowed ▸ hrest').append_ne before _)
    | emptyCall name' hname' before' inside' =>
      simp only [ExprTree.chars, List.append_assoc, List.cons_append] at h
      obtain ⟨rfl, hcalled⟩ := hname.append_inj hname' (delimited_parenthesis before _)
        (delimited_parenthesis before' _) h
      obtain ⟨-, hinside⟩ := space_cons_inj (by decide) hcalled
      exact absurd hinside.symm (args.append_ne inside' inside rest' rest)
    | call name' hname' before' inside' args' =>
      simp only [ExprTree.chars, List.append_assoc, List.cons_append] at h
      obtain ⟨rfl, hcalled⟩ := hname.append_inj hname' (delimited_parenthesis before _)
        (delimited_parenthesis before' _) h
      obtain ⟨rfl, hinside⟩ := space_cons_inj (by decide) hcalled
      obtain ⟨rfl, hargs⟩ :=
        space_append_inj (args.stops_space rest) (args'.stops_space rest') hinside
      obtain ⟨rfl, hseam⟩ := ArgsTree.append_inj args args' hargs
      exact ⟨rfl, hseam⟩
    | _ => cases hsort

/-- Arguments are told apart from what follows their closing parenthesis. -/
theorem ArgsTree.append_inj : (args args' : ArgsTree) → {rest rest' : List Char} →
    args.chars ++ rest = args'.chars ++ rest' → args = args' ∧ rest = rest'
  | .last e after, args', rest, rest', h => by
    have hends := ends_space_append true after (c := ')') (by simp) rest
    cases args' with
    | last e' after' =>
      simp only [ArgsTree.chars, List.append_assoc, List.cons_append, List.nil_append] at h
      obtain ⟨rfl, hafter⟩ := ExprTree.append_inj e e' (.inl rfl) (.inl rfl) hends
        (ends_space_append true after' (by simp) rest') h
      obtain ⟨rfl, hseam⟩ := space_cons_inj (by decide) hafter
      exact ⟨rfl, hseam⟩
    | more e' after' before' more' =>
      simp only [ArgsTree.chars, List.append_assoc, List.cons_append, List.nil_append] at h
      obtain ⟨-, hafter⟩ := ExprTree.append_inj e e' (.inl rfl) (.inl rfl) hends
        (ends_space_append true after' (by simp) _) h
      exact absurd hafter (space_cons_ne after after' (by decide) (by decide) (by decide) _ _)
  | .more e after before more, args', rest, rest', h => by
    have hends := ends_space_append true after (c := ',') (by simp)
      (before.val ++ (more.chars ++ rest))
    cases args' with
    | last e' after' =>
      simp only [ArgsTree.chars, List.append_assoc, List.cons_append, List.nil_append] at h
      obtain ⟨-, hafter⟩ := ExprTree.append_inj e e' (.inl rfl) (.inl rfl) hends
        (ends_space_append true after' (by simp) _) h
      exact absurd hafter (space_cons_ne after after' (by decide) (by decide) (by decide) _ _)
    | more e' after' before' more' =>
      simp only [ArgsTree.chars, List.append_assoc, List.cons_append] at h
      obtain ⟨rfl, hafter⟩ := ExprTree.append_inj e e' (.inl rfl) (.inl rfl) hends
        (ends_space_append true after' (by simp) _) h
      obtain ⟨rfl, hcomma⟩ := space_cons_inj (by decide) hafter
      obtain ⟨rfl, hmore⟩ :=
        space_append_inj (more.stops_space rest) (more'.stops_space rest') hcomma
      obtain ⟨rfl, hseam⟩ := ArgsTree.append_inj more more' hmore
      exact ⟨rfl, hseam⟩

end

end MarkupSpans.Grammar
