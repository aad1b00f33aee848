import Mathlib.Data.List.Forall2
import MarkupSpans.Proofs.Grammar.Inside
import MarkupSpans.Proofs.Grammar.Literal
import MarkupSpans.Proofs.Parsing
import MarkupSpans.Proofs.Reporting
import MarkupSpans.Source.Reading

/-!
# Rules that advance

Every rule of the grammar, at whatever index it begins, matches at least one character and ends
inside the text, or misses and stays where it began, or finds an error of the grammar, or, if it
reads numbers, an integer of too many digits; the attributes of a tag are the one row that may be
empty (`Source.RulesAdvance`).  For this a match leaves fewer characters than the rule was given
(`Outcome.Shortens`).

So every loop goes on at a later place than it was at: from word to word, from attribute to
attribute, from argument to argument and from an expression to the arguments inside it
(`LoopsAdvance`).  A text of so many characters has at most as many words.
-/

set_option autoImplicit false

namespace MarkupSpans

open Grammar

/-! ## Rules that are given a text -/

namespace Grammar

open Text

variable {α : Type}

/-- A match leaves fewer than `n` characters, and a fault is an error of the grammar or the digits
of an integer that stand in `numerals`; without numerals it can only be the first. -/
structure Outcome.Shortens (numerals : List Char) (n : Nat) (o : Outcome α) : Prop where
  length (value : α) (rest : List Char) : o = .matched value rest → rest.length < n
  fits : o.FitsIn numerals

/-- A match shortens the text if fewer characters are left. -/
theorem shortens_matched {numerals : List Char} {n : Nat} {value : α} {rest : List Char}
    (h : rest.length < n) : (Outcome.matched value rest).Shortens numerals n := by
  refine ⟨fun other behind heq => ?_, (Outcome.inside_matched n value rest).fits⟩
  obtain ⟨-, rfl⟩ := Outcome.matched.inj heq
  exact h

/-- A miss leaves nothing to be shown. -/
theorem shortens_missed (numerals : List Char) (n : Nat) :
    (Outcome.missed : Outcome α).Shortens numerals n := by
  refine ⟨fun other behind heq => ?_, (Outcome.inside_missed n).fits⟩
  cases heq

/-- Space is at least one character. -/
theorem readSpace_shortens (cs : List Char) : (readSpace cs).Shortens [] cs.length := by
  unfold readSpace
  split
  case isTrue hspace =>
    apply shortens_matched
    cases cs with
    | nil => cases hspace
    | cons c tail =>
      have htail := skipSpace_length tail
      have hc : isSpace c = true := hspace
      rw [skipSpace, List.dropWhile_cons_of_pos hc, List.length_cons]
      exact Nat.lt_succ_of_le htail
  case isFalse => exact shortens_missed _ _

/-- Arguments that match leave fewer characters. -/
theorem readMoreArguments_length {function : String} {opened : Nat} {cs rest : List Char}
    {args : List Expr} (h : readMoreArguments function opened cs = .matched args rest) :
    rest.length < cs.length :=
  (length_within _).2 function opened cs args rest h

/-- Arguments are at least their parentheses. -/
theorem readArguments_shortens (function : String) (cs : List Char) :
    (readArguments function cs).Shortens cs cs.length := by
  unfold readArguments
  split
  case h_1 inside =>
    have hskip := skipSpace_length inside
    split
    case h_1 behind hbehind =>
      rw [hbehind, List.length_cons] at hskip
      apply shortens_matched
      rw [List.length_cons]
      omega
    case h_2 =>
      have hinside := (within_inside ((skipSpace inside).length + 2)).2 function
        (inside.length + 1) (skipSpace inside) (by omega)
      have hsuffix := (skipSpace_suffix inside).trans (List.suffix_cons '(' inside)
      refine ⟨fun value rest h => ?_, (hinside.mono (Nat.le_refl _) hsuffix.isInfix).fits⟩
      have hlength := readMoreArguments_length h
      rw [List.length_cons]
      omega
  case h_2 => exact shortens_missed _ _

/-- A string is at least its quotes. -/
theorem readString_shortens (cs : List Char) :
    (readString cs).Shortens [] cs.length :=
  ⟨fun _ _ => readString_length, (readString_inside cs).fits⟩

/-- A tag name is at least one character. -/
theorem readTagName_shortens (cs : List Char) :
    (readTagName cs).Shortens [] cs.length :=
  ⟨fun _ _ => readTagName_length, (readTagName_inside 0 cs).fits⟩

/-- An identifier is at least one character. -/
theorem readIdentifier_shortens (cs : List Char) :
    (readIdentifier cs).Shortens [] cs.length :=
  ⟨fun _ _ => readIdentifier_length, (readIdentifier_inside cs).fits⟩

/-- An expression is at least one character. -/
theorem readExpression_shortens (callAllowed : Bool) (cs : List Char) :
    (readExpression callAllowed cs).Shortens cs cs.length :=
  ⟨fun _ _ => readExpression_length, (readExpression_inside callAllowed cs).fits⟩

/-- An attribute is at least its name. -/
theorem readAttribute_shortens (cs : List Char) :
    (readAttribute cs).Shortens cs cs.length :=
  ⟨fun _ _ => readAttribute_length, (readAttribute_inside cs).fits⟩

/-- A text word is at least its braces. -/
theorem readText_shortens (cs : List Char) :
    (readText cs).Shortens [] cs.length :=
  ⟨fun _ _ => readText_length, (readText_inside cs).fits⟩

/-- An end tag is at least its brackets. -/
theorem readEndTag_shortens (cs : List Char) :
    (readEndTag cs).Shortens [] cs.length :=
  ⟨fun _ _ => readEndTag_length, (readEndTag_inside cs).fits⟩

/-- A start tag is at least its brackets. -/
theorem readStartTag_shortens (cs : List Char) :
    (readStartTag cs).2.Shortens cs cs.length :=
  ⟨fun _ _ => readStartTag_length, (readStartTag_inside cs).2.fits⟩

/-- A word is at least its brackets. -/
theorem readWord_shortens (cs : List Char) :
    (readWord cs).2.Shortens cs cs.length :=
  ⟨fun _ _ => readWord_length, (readWord_inside cs).2.fits⟩

end Grammar

/-! ## Rules at an index -/

/-- What stops a rule: an error of the grammar, or an integer of too many digits, which stand in
`numerals` side by side. -/
inductive Failure.StopsRule (numerals : List Char) : Failure → Prop
  | grammar {e : CompileError} (hkind : e.kind = .grammar) : StopsRule numerals (.compile e)
  | overlong {digits : Nat} (hlong : Text.digitLimit < digits)
      (hdigits : HasDigits digits numerals) : StopsRule numerals (.value (.numeralTooLong digits))

/-- A rule that reads no numbers is stopped by errors of the grammar only. -/
theorem Failure.stopsRule_nil_iff (e : Failure) :
    e.StopsRule [] ↔ ∃ error : CompileError, e = .compile error ∧ error.kind = .grammar := by
  constructor
  · rintro (⟨hkind⟩ | ⟨hlong, row, hrow, hlength, -⟩)
    · exact ⟨_, rfl, hkind⟩
    · rw [List.infix_nil.mp hrow, List.length_nil] at hlength
      omega
  · rintro ⟨error, rfl, hkind⟩
    exact .grammar hkind

/-- A fault inside a word stops a rule. -/
theorem Grammar.SyntaxFault.FitsIn.stopsRule {numerals : List Char} {fault : SyntaxFault}
    (h : fault.FitsIn numerals) (loc : String) : (fault.failure loc).StopsRule numerals := by
  rcases h.failure_eq loc with hgrammar | ⟨digits, hlong, hdigits, hvalue⟩
  · rw [hgrammar]
    exact .grammar rfl
  · rw [hvalue]
    exact .overlong hlong hdigits

namespace Reading

variable {α : Type}

/-- A rule that began at `start` has matched at least one character and ended inside the text, or
has missed and stayed where it was, or has been stopped, be it by the digits of an integer in
`numerals`. -/
def Advances (s : Source) (start : Int) (numerals : List Char) : Reading α → Prop
  | .matched _ index => start < index ∧ index ≤ s.size
  | .missed index => index = start
  | .faulty e => e.StopsRule numerals

/-- A rule that began at `start` has matched no character or more, inside the text, or has been
stopped, be it by the digits of an integer in `numerals`. -/
def GoesOn (s : Source) (start : Int) (numerals : List Char) : Reading α → Prop
  | .matched _ index => start ≤ index ∧ index ≤ max start s.size
  | .missed _ => False
  | .faulty e => e.StopsRule numerals

end Reading

namespace Source

variable {α : Type} {s : Source} {start : Int} {numerals : List Char}

/-- How many characters there are from an index on. -/
theorem suffix_length (hstart : 0 ≤ start) :
    ((s.suffix start).length : Int) = max 0 (s.size - start) := by
  rw [suffix, if_neg (by omega), List.length_drop, size]
  omega

/-- A rule that shortens the text advances. -/
theorem advances_reading (hstart : 0 ≤ start) {o : Outcome α}
    (h : o.Shortens numerals (s.suffix start).length) :
    (s.reading start o).Advances s start numerals := by
  have hsuffix := suffix_length (s := s) hstart
  cases o with
  | matched value rest =>
    have hlength := h.length value rest rfl
    change start < start + ((s.suffix start).length - rest.length : Nat) ∧
      start + ((s.suffix start).length - rest.length : Nat) ≤ s.size
    omega
  | missed => rfl
  | faulty fault => exact (h.fits fault rfl).stopsRule _

/-- The place of a word does not change where it ends. -/
theorem advances_placeWord {reading : Reading Word} (h : reading.Advances s start numerals) :
    (s.placeWord start reading).Advances s start numerals := by
  cases reading <;> exact h

/-- A number advances, unless it is an integer of too many digits. -/
theorem advances_numberAt (hstart : 0 ≤ start) :
    (s.numberAt start).Advances s start (s.suffix start) := by
  have hfirst : max start 0 = start := by omega
  rw [numberAt, numeralAt, hfirst]
  cases hread : readNumberLiteral (s.suffix start) with
  | none => rfl
  | some found =>
    obtain ⟨literal, rest⟩ := found
    dsimp only [Source.reading]
    split
    · rename_i hlong
      rw [NumberLiteral.isOverlong, Bool.and_eq_true, decide_eq_true_eq] at hlong
      exact .overlong hlong.2 (hasDigits_of_readNumberLiteral hread)
    · have hshortens : (Outcome.matched literal.value rest).Shortens (s.suffix start)
          (s.suffix start).length :=
        shortens_matched (readNumberLiteral_length hread)
      exact advances_reading hstart hshortens

/-- The attributes of a tag may be none, and then nothing but space is read. -/
theorem goesOn_attributesAt (tag : String) (hstart : 0 ≤ start) :
    (s.attributesAt tag start).2.GoesOn s start (s.suffix start) := by
  have hsuffix := suffix_length (s := s) hstart
  rw [attributesAt, if_neg (by omega)]
  dsimp only
  cases hending : (readAttributes tag (s.suffix start)).ending with
  | error fault => exact ((attributesFrom_inside tag _ _).2 fault hending).2.stopsRule _
  | ok rest =>
    have hlength : rest.length ≤ (s.suffix start).length := attributesFrom_length hending
    change start ≤ start + ((s.suffix start).length - rest.length : Nat) ∧
      start + ((s.suffix start).length - rest.length : Nat) ≤ max start s.size
    omega

end Source

/-! ## Loops -/

/-- Places that a loop comes to, told by how many characters are left there: each is behind the
one in front of it, and between `low` and `high` characters are left. -/
structure Onward (low high : Nat) (lefts : List Nat) : Prop where
  pairwise : lefts.Pairwise (· > ·)
  bounds : ∀ left ∈ lefts, low ≤ left ∧ left ≤ high

namespace Onward

variable {low high high' left : Nat} {lefts : List Nat}

/-- A loop may come to no place. -/
theorem nil (low high : Nat) : Onward low high [] :=
  ⟨List.Pairwise.nil, fun _ h => absurd h List.not_mem_nil⟩

/-- More characters may be left than at the first place. -/
theorem mono (h : Onward low high lefts) (hle : high ≤ high') : Onward low high' lefts :=
  ⟨h.pairwise, fun left hleft => ⟨(h.bounds left hleft).1, (h.bounds left hleft).2.trans hle⟩⟩

/-- A place in front of all others. -/
theorem cons (h : Onward low high lefts) (hlow : low ≤ left) (hleft : high < left) :
    Onward low left (left :: lefts) where
  pairwise := List.pairwise_cons.mpr
    ⟨fun other hother => Nat.lt_of_le_of_lt (h.bounds other hother).2 hleft, h.pairwise⟩
  bounds := by
    intro other hother
    rcases List.mem_cons.mp hother with rfl | hother
    · exact ⟨hlow, Nat.le_refl _⟩
    · obtain ⟨hfirst, hlast⟩ := h.bounds other hother
      exact ⟨hfirst, by omega⟩

/-- A loop comes to no more places than there are. -/
theorem length_le (h : Onward low high lefts) (hlow : low ≤ high + 1) :
    lefts.length + low ≤ high + 1 := by
  induction lefts generalizing high with
  | nil => simpa using hlow
  | cons left rest ih =>
    have hpairwise := List.pairwise_cons.mp h.pairwise
    obtain ⟨hfirst, hlast⟩ := h.bounds left List.mem_cons_self
    have hrest : ∀ other ∈ rest, low ≤ other ∧ other ≤ left - 1 := by
      intro other hother
      have hbehind := hpairwise.1 other hother
      exact ⟨(h.bounds other (List.mem_cons_of_mem _ hother)).1, by omega⟩
    rw [List.length_cons]
    rcases Nat.eq_zero_or_pos left with hzero | hpos
    · -- nothing is behind the end
      have hnone : rest = [] := by
        rw [List.eq_nil_iff_forall_not_mem]
        intro other hother
        have hbehind := hpairwise.1 other hother
        omega
      rw [hnone, List.length_nil]
      omega
    · have hih := ih ⟨hpairwise.2, hrest⟩ (by omega)
      omega

end Onward

namespace Grammar

open Text

/-- How many characters are left where a word begins. -/
def wordLeft? (token : Placed Token) : Option Nat :=
  match token.item with
  | .word _ => some token.left
  | .notice _ => none

/-- The words of a text, told by how many characters are left where each begins. -/
def wordLefts (tokens : Tokens) : List Nat := tokens.read.filterMap wordLeft?

/-- The texts from each of the arguments on that are read one after the other, the last one
included even if it is missing. -/
def argumentRounds (cs : List Char) : List (List Char) :=
  match _h : readExpression true cs with
  | .matched _ rest =>
    match _hrest : skipSpace rest with
    | ',' :: more => cs :: argumentRounds (skipSpace more)
    | _ => [cs]
  | _ => [cs]
termination_by cs.length
decreasing_by
  have hargument := readExpression_length _h
  have hskip := skipSpace_length rest
  have hskip' := skipSpace_length more
  rw [_hrest, List.length_cons] at hskip
  omega

/-- Notices in front do not count as words. -/
theorem wordLefts_withNotices (notices : List (Placed Notice)) (tokens : Tokens) :
    wordLefts (tokens.withNotices notices) = wordLefts tokens := by
  have hnone : (notices.map fun n => (⟨.notice n.item, n.left⟩ : Placed Token)).filterMap
      wordLeft? = [] := by
    rw [List.filterMap_map]
    exact List.filterMap_eq_nil_iff.mpr fun _ _ => rfl
  rw [wordLefts, Tokens.withNotices, List.filterMap_append, hnone]
  rfl

/-- The words stand one behind the other, none of them at the end. -/
theorem onward_wordLefts (allowed : Bool) (cs : List Char) :
    Onward 1 cs.length (wordLefts (readTokens allowed cs)) := by
  fun_induction readTokens allowed cs with
  | case1 cs here hempty => exact .nil _ _
  | case2 cs here hempty notices hmissed =>
    unfold readTrailing
    split <;> exact .nil _ _
  | case3 cs here hempty notices fault hfaulty =>
    rw [wordLefts_withNotices]
    exact .nil _ _
  | case4 cs here hempty notices w rest hmatched more ih =>
    have hskip : here.length ≤ cs.length := skipSpace_length cs
    have hlength : rest.length < here.length := readWord_length (congrArg Prod.snd hmatched)
    rw [wordLefts_withNotices]
    exact (ih.cons (by omega) hlength).mono hskip

/-- The attributes of a tag stand one behind the other, none of them at the end. -/
theorem onward_attributesFrom (tag : String) (whole cs : List Char) :
    Onward 1 cs.length ((attributesFrom tag whole cs).read.map (·.left)) := by
  fun_induction attributesFrom tag whole cs with
  | case1 cs here hend => exact .nil _ _
  | case2 cs here hend hspace near => exact .nil _ _
  | case3 cs here hend hspace hmissed => exact .nil _ _
  | case4 cs here hend hspace fault hfaulty => exact .nil _ _
  | case5 cs here hend hspace name value rest hread more ih =>
    have hskip : here.length ≤ cs.length := skipSpace_length cs
    have hlength : rest.length < here.length := readAttribute_length hread
    exact (ih.cons (by omega) hlength).mono hskip

/-- The arguments stand one behind the other. -/
theorem onward_argumentRounds (cs : List Char) :
    Onward 0 cs.length ((argumentRounds cs).map List.length) := by
  have hlast : ∀ cs : List Char, Onward 0 cs.length ([cs].map List.length) := fun cs =>
    ⟨List.pairwise_singleton _ _, by simp⟩
  fun_induction argumentRounds cs with
  | case1 cs argument rest hargument more hmore ih =>
    have hlength := readExpression_length hargument
    have hskip := skipSpace_length rest
    have hskip' := skipSpace_length more
    rw [hmore, List.length_cons] at hskip
    exact ih.cons (Nat.zero_le _) (by omega)
  | case2 cs argument rest hargument hother => exact hlast cs
  | case3 cs hother => exact hlast cs

/-- Arguments that match are the expressions at which the rounds begin. -/
theorem argumentRounds_of_matched {function : String} {opened : Nat} {cs rest : List Char}
    {args : List Expr} (h : readMoreArguments function opened cs = .matched args rest) :
    List.Forall₂ (fun round arg => ∃ behind, readExpression true round = .matched arg behind)
      (argumentRounds cs) args := by
  -- by induction on the rounds, of which the row of arguments follows each
  fun_induction argumentRounds cs generalizing args with
  | case1 cs argument behind hargument more hmore ih =>
    rw [readMoreArguments_eq, hargument] at h
    dsimp only at h
    rw [hmore] at h
    obtain ⟨others, hothers, rfl⟩ := (Outcome.map_eq_matched_iff _ _ _ _).mp h
    exact .cons ⟨behind, hargument⟩ (ih hothers)
  | case2 cs argument behind hargument hother =>
    rw [readMoreArguments_eq, hargument] at h
    dsimp only at h
    split at h
    · obtain ⟨rfl, -⟩ := Outcome.matched.inj h
      exact .cons ⟨behind, hargument⟩ .nil
    · next more hmore => exact absurd hmore (hother more)
    · cases h
  | case3 cs hother =>
    rw [readMoreArguments_eq] at h
    split at h
    · cases h
    · cases h
    · next argument behind hargument => exact absurd hargument (hother argument behind)

/-- What is read as space is space, at least one character. -/
theorem exists_of_readSpace {cs rest : List Char} (h : readSpace cs = .matched () rest) :
    ∃ gap : Gap, cs = gap.val ++ rest := by
  unfold readSpace at h
  split at h
  case isTrue hspace =>
    obtain ⟨-, rfl⟩ := Outcome.matched.inj h
    have hspaces : ∀ c ∈ cs.takeWhile isSpace, isSpace c = true := fun _ => List.mem_takeWhile_imp
    have hne : cs.takeWhile isSpace ≠ [] := by
      cases cs with
      | nil => cases hspace
      | cons c tail =>
        have hc : isSpace c = true := hspace
        rw [List.takeWhile_cons_of_pos hc]
        exact List.cons_ne_nil _ _
    exact ⟨⟨cs.takeWhile isSpace, hne, hspaces⟩, List.takeWhile_append_dropWhile.symm⟩
  case isFalse => cases h

/-- Where the loops and the recursion of the rules come to in a text: each time to a later place
than before.  Rows of characters are read character by character, so for them it is said which
characters are read. -/
structure LoopsAdvance (cs : List Char) : Prop where
  words (allowed : Bool) : Onward 1 cs.length (wordLefts (readTokens allowed cs))
  attributes (tag : String) : Onward 1 cs.length ((readAttributes tag cs).read.map (·.left))
  arguments : Onward 0 cs.length ((argumentRounds cs).map List.length)
  arguments_read (function : String) (opened : Nat) (args : List Expr) (rest : List Char) :
    readMoreArguments function opened cs = .matched args rest →
      List.Forall₂ (fun round arg => ∃ behind, readExpression true round = .matched arg behind)
        (argumentRounds cs) args
  /-- The arguments of a call are read behind the place where the call begins. -/
  nested (name : String) (rest inside : List Char) :
    readIdentifier cs = .matched name rest → skipSpace rest = '(' :: inside →
      ∀ round ∈ argumentRounds (skipSpace inside), round.length < cs.length
  /-- The bound on the steps of the recursion does not show. -/
  expression_steps (steps : Nat) (callAllowed : Bool) : cs.length < steps →
    expressionWithin steps callAllowed cs = readExpression callAllowed cs
  argument_steps (steps : Nat) (function : String) (opened : Nat) : cs.length + 1 < steps →
    argumentsWithin steps function opened cs = readMoreArguments function opened cs
  identifier (name : String) (rest : List Char) : readIdentifier cs = .matched name rest →
    ∃ chars, IsIdentifier chars ∧ cs = chars ++ rest
  tagName (name : String) (rest : List Char) : readTagName cs = .matched name rest →
    ∃ chars, IsTagName chars ∧ cs = chars ++ rest
  number (literal : NumberLiteral) (rest : List Char) :
    readNumberLiteral cs = some (literal, rest) → cs = literal.chars ++ rest
  string (content : String) (rest : List Char) : readString cs = .matched content rest →
    ∃ tree : StringTree, cs = tree.chars ++ rest
  space (rest : List Char) : readSpace cs = .matched () rest → ∃ gap : Gap, cs = gap.val ++ rest

/-- In every text the loops and the recursion come to later and later places. -/
theorem loopsAdvance (cs : List Char) : LoopsAdvance cs where
  words allowed := onward_wordLefts allowed cs
  attributes tag := onward_attributesFrom tag cs cs
  arguments := onward_argumentRounds cs
  arguments_read _ _ _ _ := argumentRounds_of_matched
  nested name rest inside hname hparen round hround := by
    have hlength := readIdentifier_length hname
    have hskip := skipSpace_length rest
    have hskip' := skipSpace_length inside
    rw [hparen, List.length_cons] at hskip
    have hbounds := (onward_argumentRounds (skipSpace inside)).bounds round.length
      (List.mem_map_of_mem hround)
    omega
  expression_steps steps callAllowed h :=
    (within_eq_within steps).1 (cs.length + 1) callAllowed cs h (Nat.lt_succ_self _)
  argument_steps steps function opened h :=
    (within_eq_within steps).2 (cs.length + 2) function opened cs h (Nat.lt_succ_self _)
  identifier _ _ := exists_of_readIdentifier
  tagName _ _ := exists_of_readTagName
  number _ _ h := (readNumberLiteral_sound h).1
  string _ _ := exists_of_readString
  space _ := exists_of_readSpace

end Grammar

/-! ## All rules at an index -/

namespace Source

/-- What the rules do at an index: each advances, and the attributes of a tag go on.  Of the rules
that read no numbers all faults are errors of the grammar. -/
structure RulesAdvance (s : Source) (start : Int) : Prop where
  wordAt : (s.wordAt start).2.Advances s start (s.suffix start)
  textAt : (s.textAt start).Advances s start []
  startTagAt : (s.startTagAt start).2.Advances s start (s.suffix start)
  endTagAt : (s.endTagAt start).Advances s start []
  tagNameAt : (s.tagNameAt start).Advances s start []
  attributeAt : (s.attributeAt start).Advances s start (s.suffix start)
  expressionAt (callAllowed : Bool) :
    (s.expressionAt callAllowed start).Advances s start (s.suffix start)
  argumentsAt (function : String) :
    (s.argumentsAt function start).Advances s start (s.suffix start)
  identifierAt : (s.identifierAt start).Advances s start []
  numberAt : (s.numberAt start).Advances s start (s.suffix start)
  stringAt : (s.stringAt start).Advances s start []
  spaceAt : (s.spaceAt start).Advances s start []
  attributesAt (tag : String) : (s.attributesAt tag start).2.GoesOn s start (s.suffix start)

/-- From an index on that is not in front of the text, all rules advance. -/
theorem rulesAdvance (s : Source) {start : Int} (hstart : 0 ≤ start) : s.RulesAdvance start where
  wordAt := advances_placeWord (advances_reading hstart (readWord_shortens _))
  textAt := advances_placeWord (advances_reading hstart (readText_shortens _))
  startTagAt := advances_placeWord (advances_reading hstart (readStartTag_shortens _))
  endTagAt := advances_placeWord (advances_reading hstart (readEndTag_shortens _))
  tagNameAt := advances_reading hstart (readTagName_shortens _)
  attributeAt := advances_reading hstart (readAttribute_shortens _)
  expressionAt callAllowed := advances_reading hstart (readExpression_shortens callAllowed _)
  argumentsAt function := advances_reading hstart (readArguments_shortens function _)
  identifierAt := advances_reading hstart (readIdentifier_shortens _)
  numberAt := advances_numberAt hstart
  stringAt := advances_reading hstart (readString_shortens _)
  spaceAt := advances_reading hstart (readSpace_shortens _)
  attributesAt tag := goesOn_attributesAt tag hstart

/-- The words that a source gives are those that are read. -/
theorem words_streamOf_length (s : Source) (tokens : Tokens) :
    (s.streamOf tokens).words.length = (wordLefts tokens).length := by
  obtain ⟨read, fault⟩ := tokens
  change ((read.map s.itemOf).filterMap _).length = (read.filterMap wordLeft?).length
  induction read with
  | nil => rfl
  | cons token rest ih =>
    obtain ⟨item, left⟩ := token
    cases item with
    | word w => exact congrArg (· + 1) ih
    | notice n => exact ih

/-- A text has no more words than characters. -/
theorem words_wordsFrom_length (s : Source) {start : Int} (hstart : 0 ≤ start) :
    (s.wordsFrom start).words.length ≤ s.size := by
  have honward := (onward_wordLefts s.options.trailingAllowed (s.suffix start)).length_le (by omega)
  have hsuffix := suffix_length (s := s) hstart
  rw [wordsFrom, if_neg (by omega), words_streamOf_length]
  omega

end Source

/-! ## Notices on the way -/

namespace Reporter

/-- Where warnings do not end the run, neither do several of them. -/
theorem Lenient.warnAll {r : Reporter} (hr : r.Lenient) (notices : List (Notice × String)) :
    (r.warnAll notices).1 = .ok () := by
  induction notices generalizing r with
  | nil => rfl
  | cons notice rest ih =>
    obtain ⟨r', hwarn, hr'⟩ := hr.warn notice.1.message (some (.text notice.2))
    rw [Reporter.warnAll, hwarn]
    exact ih hr'

/-- A warning ends the run, or nothing fails. -/
theorem warn_fst (r : Reporter) (text : String) (line : Option Report.LineRef) :
    (r.warn text line).1 = .ok () ∨ (r.warn text line).1 = .error (.exit 2) := by
  obtain ⟨form, hform⟩ := render_warning r.settings.printMode text line
  obtain ⟨r', hannounce, -⟩ := r.announce_warning form
  have hdie : r'.shouldDie "warning" .early = _ := r'.shouldDie_early .warning
  rw [warn, report, reportAs, hform, hannounce]
  dsimp only
  rw [hdie]
  cases decide (r'.settings.dieWhen = .early ∧
      r'.settings.dieOn.rank ≤ Report.Category.warning.level.rank) with
  | true => exact .inr r'.exitNow_fst
  | false => exact .inl rfl

/-- Several warnings end the run, or nothing fails. -/
theorem warnAll_fst (r : Reporter) (notices : List (Notice × String)) :
    (r.warnAll notices).1 = .ok () ∨ (r.warnAll notices).1 = .error (.exit 2) := by
  induction notices generalizing r with
  | nil => exact .inl rfl
  | cons notice rest ih =>
    have hwarn := r.warn_fst notice.1.message (some (.text notice.2))
    rw [Reporter.warnAll]
    split
    case h_1 e r' heq =>
      rw [heq] at hwarn
      exact .inr (hwarn.resolve_left (by simp))
    case h_2 r' heq => exact ih r'

end Reporter

/-! ## All rules and all loops -/

/-- Every rule ends and advances, and so does every loop.

From any index on that is not in front of the text, be it behind the text, a rule matches at least
one character and ends inside the text, or it misses and stays where it began, or it finds an error
of the grammar or, if it reads numbers, an integer of too many digits; the attributes of a tag may be
none.  Notices on the way end the run or nothing, and nothing unless warnings end the run, which
they do not by default.  The loops of the rules and the recursion into arguments come to later and
later places, and the words of a text are no more than its characters, whatever is reported. -/
theorem Source.rules_and_loops_advance (s : Source) (start : Int) (hstart : 0 ≤ start) :
    s.RulesAdvance start ∧
      (∀ (r : Reporter) (notices : List (Notice × String)),
        (r.warnAll notices).1 = .ok () ∨
          (r.warnAll notices).1 = .error (.exit 2) ∧ ¬ r.Lenient) ∧
      ({ settings := {} } : Reporter).Lenient ∧
      LoopsAdvance (s.suffix start) ∧
      (s.wordsFrom start).words.length ≤ s.size ∧
      ∀ r : Reporter, ((s.wordsFrom start).deliver r).words.length ≤ s.size := by
  have hwords := s.words_wordsFrom_length hstart
  refine ⟨s.rulesAdvance hstart, fun r notices => ?_, rfl, loopsAdvance _, hwords, fun r => ?_⟩
  · by_cases hr : r.Lenient
    · exact .inl (hr.warnAll notices)
    · exact (r.warnAll_fst notices).imp_right fun hexit => ⟨hexit, hr⟩
  · have hprefix := words_prefix_deliverItems (s.wordsFrom start).failure
      (s.wordsFrom start).items r
    exact hprefix.length_le.trans hwords

/-- A tag with a call of a call among its attributes, and a text word behind it. -/
def nestedCallSource : Source := ⟨"<b c=\x7bf(1, g(-2.5, 'x'))\x7d d=e.e>\x7b'y'\x7d".toList, 1, {}⟩

/-- Rules advance at the beginning of the text, at its call, and behind the text. -/
theorem rules_and_loops_advance_nestedCallSource :
    (∀ start ∈ ([0, 6, 99] : List Int), 0 ≤ start) ∧
      (∀ start ∈ ([0, 6, 99] : List Int), nestedCallSource.RulesAdvance start) ∧
      (nestedCallSource.wordsFrom 0).words.length ≤ 37 := by
  have hstarts : ∀ start ∈ ([0, 6, 99] : List Int), 0 ≤ start := by decide
  have hsize : nestedCallSource.size = 37 := by decide
  refine ⟨hstarts, fun start hmem => ?_, ?_⟩
  · exact (nestedCallSource.rules_and_loops_advance start (hstarts start hmem)).1
  · rw [← hsize]
    exact (nestedCallSource.rules_and_loops_advance 0 (by decide)).2.2.2.2.1

/-- A row of more ones than an integer may have digits is no number. -/
theorem Source.numberAt_ones (digits : Nat) (hlong : Text.digitLimit < digits) :
    ({ chars := List.replicate digits '1' } : Source).numberAt 0 =
      .faulty (.value (.numeralTooLong digits)) := by
  have hnil : Delimited [] := by simp [Delimited]
  have hne : digits ≠ 0 := by omega
  have hread := readNumberLiteral_append (wellFormed_onesLiteral hne) hnil
  have hchars : (onesLiteral digits).chars = List.replicate digits '1' := by
    simp [onesLiteral, NumberLiteral.chars]
  have hoverlong : (onesLiteral digits).isOverlong = true := by
    simpa [onesLiteral, NumberLiteral.isOverlong] using hlong
  have hlength : (onesLiteral digits).whole.length = digits := List.length_replicate
  rw [List.append_nil, hchars] at hread
  have hsuffix : ({ chars := List.replicate digits '1' } : Source).suffix (max 0 0) =
      List.replicate digits '1' := by
    simp [suffix]
  simp only [numberAt, numeralAt, hsuffix, hread, Source.reading, hoverlong, hlength, if_true]

/-- A rule that neither matches nor misses need not have found an error of the grammar: it may have
come upon an integer of 4301 digits. -/
theorem numberAt_stops_otherwise :
    ∃ s : Source, s.chars = List.replicate 4301 '1' ∧
      s.numberAt 0 = .faulty (.value (.numeralTooLong 4301)) ∧
      ∀ e : CompileError, s.numberAt 0 ≠ .faulty (.compile e) := by
  have hnumber := Source.numberAt_ones 4301 (by decide)
  refine ⟨_, rfl, hnumber, ?_⟩
  intro e he
  rw [hnumber] at he
  cases he

end MarkupSpans
