import MarkupSpans.Grammar.Fault
import MarkupSpans.Number
import MarkupSpans.Text.CharClass

/-!
# Space, names, strings and numbers

The rules of the grammar that refer to no other rule.  Each reads from the front of a list of
characters and leaves the rest; a match leaves fewer characters than it was given
(`readString_length` and its like).
-/

set_option autoImplicit false

namespace MarkupSpans.Grammar

open Text

/-- The text behind the space in front. -/
def skipSpace (cs : List Char) : List Char := cs.dropWhile isSpace

/-- Space in front, at least one character of it. -/
def readSpace (cs : List Char) : Outcome Unit :=
  if cs.head?.any isSpace then .matched () (skipSpace cs) else .missed

/-- The text before the first `stop`, and the text behind that character. -/
def cutAt (stop : Char) : List Char → Option (List Char × List Char)
  | [] => none
  | c :: rest =>
    if c = stop then some ([], rest)
    else (cutAt stop rest).map fun (before, behind) => (c :: before, behind)

/-- A string literal: any characters between two equal quotes, verbatim. -/
def readString : List Char → Outcome String
  | [] => .missed
  | quote :: rest =>
    if isQuote quote then
      match cutAt quote rest with
      | some (content, behind) => .matched (String.ofList content) behind
      | none => .faulty ⟨.stringNotClosed, rest.length + 1⟩
    else .missed

/-- A tag name: a letter, then letters, digits, hyphens and underscores. -/
def readTagName : List Char → Outcome String
  | [] => .missed
  | c :: rest =>
    if isLetter c then
      .matched (String.ofList (c :: rest.takeWhile isTagNameChar)) (rest.dropWhile isTagNameChar)
    else .missed

/-- Whether a character belongs to a name that has begun, or can begin one. -/
def isNamePart (inName : Bool) (c : Char) : Bool :=
  if inName then isIdentifierChar c else isIdentifierStart c

/-- The longest row of names and dots in front, and what follows.  Between two dots, and before
the first one, stands a name; `inName` says whether one has begun. -/
def dotted (inName : Bool) : List Char → List Char × List Char
  | [] => ([], [])
  | c :: rest =>
    if isNamePart inName c then
      let (read, behind) := dotted true rest
      (c :: read, behind)
    else if inName && c == '.' then
      let (read, behind) := dotted false rest
      (c :: read, behind)
    else ([], c :: rest)

/-- An identifier: names with single dots between them. -/
def readIdentifier (cs : List Char) : Outcome String :=
  match dotted false cs with
  | ([], _) => .missed
  | (c :: read, behind) =>
    if (c :: read).getLast? = some '.' then
      .faulty ⟨.partMissing (String.ofList (c :: read)), cs.length⟩
    else .matched (String.ofList (c :: read)) behind

/-- A number as the text writes it. -/
structure NumberLiteral where
  negative : Bool
  whole : List Char
  /-- The digits behind the point; none if there is no point. -/
  fraction : List Char
  deriving DecidableEq

namespace NumberLiteral

/-- The characters of a number. -/
def chars (literal : NumberLiteral) : List Char :=
  (if literal.negative then ['-'] else []) ++ literal.whole ++
    (if literal.fraction.isEmpty then [] else '.' :: literal.fraction)

/-- Whether a number is an integer of too many digits to be read. -/
def isOverlong (literal : NumberLiteral) : Bool :=
  literal.fraction.isEmpty && decide (digitLimit < literal.whole.length)

/-- The number that the digits stand for: an integer, unless there is a point.  An overlong one
stands for an integer too, but is never taken for it. -/
def value (literal : NumberLiteral) : Number :=
  if literal.fraction.isEmpty then
    let magnitude : Int := numberOfDigits literal.whole
    .int (if literal.negative then -magnitude else magnitude)
  else
    .float (Binary64.ofDecimal literal.negative
      (numberOfDigits (literal.whole ++ literal.fraction)) (-(literal.fraction.length : Int)))

end NumberLiteral

/-- The digits behind a point, and what follows them; a point without digits is left alone. -/
def readFraction : List Char → List Char × List Char
  | '.' :: rest =>
    let fraction := rest.takeWhile isDecimalDigit
    if fraction.isEmpty then ([], '.' :: rest) else (fraction, rest.dropWhile isDecimalDigit)
  | cs => ([], cs)

/-- A number in front: a minus sign or none, digits of any script, and perhaps a point with more
digits. -/
def readNumberLiteral (cs : List Char) : Option (NumberLiteral × List Char) :=
  let negative := cs.head? == some '-'
  let unsigned := if negative then cs.drop 1 else cs
  let whole := unsigned.takeWhile isDecimalDigit
  if whole.isEmpty then none
  else
    let (fraction, rest) := readFraction (unsigned.dropWhile isDecimalDigit)
    some (⟨negative, whole, fraction⟩, rest)

/-- A number; integers of too many digits are refused. -/
def readNumber (cs : List Char) : Outcome Number :=
  match readNumberLiteral cs with
  | some (literal, rest) =>
    if literal.isOverlong then .faulty ⟨.numberTooLong literal.whole.length, cs.length⟩
    else .matched literal.value rest
  | none => .missed

/-! ## A match leaves fewer characters -/

/-- Skipping space does not lengthen a text. -/
theorem skipSpace_length (cs : List Char) : (skipSpace cs).length ≤ cs.length :=
  (List.dropWhile_sublist isSpace).length_le

/-- What stands behind a cut is shorter than the whole. -/
theorem cutAt_length {stop : Char} {cs before behind : List Char}
    (h : cutAt stop cs = some (before, behind)) : behind.length < cs.length := by
  induction cs generalizing before with
  | nil => simp [cutAt] at h
  | cons c rest ih =>
    simp only [cutAt] at h
    split at h
    · simp only [Option.some.injEq, Prod.mk.injEq] at h
      simp [← h.2]
    · simp only [Option.map_eq_some_iff, Prod.mk.injEq, Prod.exists] at h
      obtain ⟨a, b, hcut, _, hb⟩ := h
      subst hb
      have := ih hcut
      simp only [List.length_cons]
      omega

/-- A string takes up at least one character, its opening quote. -/
theorem readString_length {cs rest : List Char} {content : String}
    (h : readString cs = .matched content rest) : rest.length < cs.length := by
  cases cs with
  | nil => simp [readString] at h
  | cons quote tail =>
    simp only [readString] at h
    split at h
    · split at h
      · rename_i content' behind hcut
        simp only [Outcome.matched.injEq] at h
        have := cutAt_length hcut
        simp only [← h.2, List.length_cons]
        omega
      · simp at h
    · simp at h

/-- A tag name takes up at least one character. -/
theorem readTagName_length {cs rest : List Char} {name : String}
    (h : readTagName cs = .matched name rest) : rest.length < cs.length := by
  cases cs with
  | nil => simp [readTagName] at h
  | cons c tail =>
    simp only [readTagName] at h
    split at h
    · simp only [Outcome.matched.injEq] at h
      have := (List.dropWhile_sublist isTagNameChar (l := tail)).length_le
      simp only [← h.2, List.length_cons]
      omega
    · simp at h

/-- A row of names and dots is cut off the front of the text. -/
theorem dotted_append (inName : Bool) (cs : List Char) :
    (dotted inName cs).1 ++ (dotted inName cs).2 = cs := by
  induction cs generalizing inName with
  | nil => rfl
  | cons c rest ih =>
    by_cases hpart : isNamePart inName c = true
    · simp [dotted, hpart, ih]
    · by_cases hdot : (inName && c == '.') = true
      · simp only [dotted, hpart, hdot]
        simp [ih]
      · simp only [dotted, hpart, hdot]
        simp

/-- An identifier takes up at least one character. -/
theorem readIdentifier_length {cs rest : List Char} {name : String}
    (h : readIdentifier cs = .matched name rest) : rest.length < cs.length := by
  have happend := dotted_append false cs
  unfold readIdentifier at h
  split at h
  · simp at h
  · rename_i c read behind hdotted
    split at h
    · simp at h
    · simp only [Outcome.matched.injEq] at h
      rw [hdotted] at happend
      rw [← happend, ← h.2]
      simp only [List.length_append, List.length_cons]
      omega

/-- A fraction is cut off the front of the text. -/
theorem readFraction_length (cs : List Char) : (readFraction cs).2.length ≤ cs.length := by
  unfold readFraction
  split
  · rename_i rest
    have := (List.dropWhile_sublist isDecimalDigit (l := rest)).length_le
    simp only
    split
    · simp
    · simp only [List.length_cons]
      omega
  · simp

/-- A numeral takes up at least one character. -/
theorem readNumberLiteral_length {cs rest : List Char} {literal : NumberLiteral}
    (h : readNumberLiteral cs = some (literal, rest)) : rest.length < cs.length := by
  unfold readNumberLiteral at h
  simp only at h
  generalize hu : (if (cs.head? == some '-') = true then cs.drop 1 else cs) = unsigned at h
  have hle : unsigned.length ≤ cs.length := by
    rw [← hu]
    split
    · simp
    · exact Nat.le_refl _
  split at h
  · simp at h
  · rename_i hne
    simp only [Option.some.injEq, Prod.mk.injEq] at h
    have hsplit := List.takeWhile_append_dropWhile (p := isDecimalDigit) (l := unsigned)
    have hlen := congrArg List.length hsplit
    simp only [List.length_append] at hlen
    have hpos : 0 < (unsigned.takeWhile isDecimalDigit).length := by
      cases hw : unsigned.takeWhile isDecimalDigit with
      | nil => simp [hw] at hne
      | cons _ _ => simp
    have hrest := readFraction_length (unsigned.dropWhile isDecimalDigit)
    rw [h.2] at hrest
    omega

/-- A number takes up at least one character. -/
theorem readNumber_length {cs rest : List Char} {n : Number}
    (h : readNumber cs = .matched n rest) : rest.length < cs.length := by
  unfold readNumber at h
  split at h
  · rename_i literal behind hread
    split at h
    · simp at h
    · simp only [Outcome.matched.injEq] at h
      rw [← h.2]
      exact readNumberLiteral_length hread
  · simp at h

end MarkupSpans.Grammar
