import Mathlib.Data.List.TakeWhile
import MarkupSpans.Proofs.Grammar.Derivation

/-!
# Readers of space, names, strings and numbers

For each lexical item two statements: the reader takes exactly the item off the front of a text
that goes on with a character that cannot belong to it (`_append`), and what the reader takes off
is such an item (`exists_of_read`).
-/

set_option autoImplicit false

namespace MarkupSpans.Grammar

open Text

/-! ## Where a row of characters stops -/

/-- The text does not go on with a character of a class. -/
def Stops (p : Char → Bool) (cs : List Char) : Prop := ∀ c ∈ cs.head?, p c = false

/-- Every row of characters may stand at the end of the text. -/
theorem stops_nil (p : Char → Bool) : Stops p [] := by
  intro c hc
  simp at hc

/-- Only the next character matters to where a row of characters stops. -/
theorem stops_cons_iff (p : Char → Bool) (c : Char) (cs : List Char) :
    Stops p (c :: cs) ↔ p c = false := by
  simp [Stops]

/-- A row of characters is taken as a whole up to where it stops. -/
theorem takeWhile_append_of_stops {p : Char → Bool} {row rest : List Char}
    (hrow : ∀ c ∈ row, p c = true) (hrest : Stops p rest) : (row ++ rest).takeWhile p = row := by
  rw [List.takeWhile_append_of_pos hrow]
  cases rest with
  | nil => simp
  | cons c tail =>
    have hc := (stops_cons_iff p c tail).mp hrest
    simp [hc]

/-- A row of characters is passed over as a whole up to where it stops. -/
theorem dropWhile_append_of_stops {p : Char → Bool} {row rest : List Char}
    (hrow : ∀ c ∈ row, p c = true) (hrest : Stops p rest) : (row ++ rest).dropWhile p = rest := by
  rw [List.dropWhile_append_of_pos hrow]
  cases rest with
  | nil => rfl
  | cons c tail =>
    have hc := (stops_cons_iff p c tail).mp hrest
    simp [hc]

/-- A row that stops is told apart from what follows it. -/
theorem row_append_inj {p : Char → Bool} {row row' rest rest' : List Char}
    (hrow : ∀ c ∈ row, p c = true) (hrow' : ∀ c ∈ row', p c = true) (hrest : Stops p rest)
    (hrest' : Stops p rest') (h : row ++ rest = row' ++ rest') : row = row' ∧ rest = rest' := by
  constructor
  · rw [← takeWhile_append_of_stops hrow hrest, h, takeWhile_append_of_stops hrow' hrest']
  · rw [← dropWhile_append_of_stops hrow hrest, h, dropWhile_append_of_stops hrow' hrest']

/-- Space is passed over as a whole. -/
theorem skipSpace_append (space : Space) {rest : List Char} (hrest : Stops isSpace rest) :
    skipSpace (space.val ++ rest) = rest :=
  dropWhile_append_of_stops space.property hrest

/-- Space in front of another character is passed over as a whole. -/
theorem skipSpace_append_cons (space : Space) {c : Char} (hc : isSpace c = false)
    (rest : List Char) : skipSpace (space.val ++ c :: rest) = c :: rest :=
  skipSpace_append space ((stops_cons_iff isSpace c rest).mpr hc)

/-- Where no space stands, nothing is passed over. -/
theorem skipSpace_of_stops {cs : List Char} (h : Stops isSpace cs) : skipSpace cs = cs := by
  have hnone : ∀ c ∈ ([] : List Char), isSpace c = true := by simp
  exact dropWhile_append_of_stops hnone h

/-- What skipping space skips is space. -/
theorem exists_space (cs : List Char) : ∃ space : Space, cs = space.val ++ skipSpace cs :=
  ⟨⟨cs.takeWhile isSpace, fun _ hc => List.mem_takeWhile_imp hc⟩,
    List.takeWhile_append_dropWhile.symm⟩

/-- Space can be told from what stands behind it. -/
theorem space_append_inj {space space' : Space} {rest rest' : List Char}
    (hrest : Stops isSpace rest) (hrest' : Stops isSpace rest')
    (h : space.val ++ rest = space'.val ++ rest') : space = space' ∧ rest = rest' := by
  obtain ⟨hspace, heq⟩ := row_append_inj space.property space'.property hrest hrest' h
  exact ⟨Subtype.ext hspace, heq⟩

/-- Space is told apart from a character behind it that is none. -/
theorem space_cons_inj {space space' : Space} {c : Char} (hc : isSpace c = false)
    {rest rest' : List Char} (h : space.val ++ c :: rest = space'.val ++ c :: rest') :
    space = space' ∧ rest = rest' := by
  have hstops : ∀ tail, Stops isSpace (c :: tail) := fun tail => (stops_cons_iff _ c tail).mpr hc
  obtain ⟨hspace, heq⟩ := space_append_inj (hstops rest) (hstops rest') h
  exact ⟨hspace, (List.cons.inj heq).2⟩

/-- Behind two runs of space stand the same characters, unless the texts differ. -/
theorem space_cons_ne (space space' : Space) {c c' : Char} (hc : isSpace c = false)
    (hc' : isSpace c' = false) (hne : c ≠ c') (rest rest' : List Char) :
    space.val ++ c :: rest ≠ space'.val ++ c' :: rest' := by
  intro h
  obtain ⟨-, heq⟩ :=
    space_append_inj ((stops_cons_iff _ c rest).mpr hc) ((stops_cons_iff _ c' rest').mpr hc') h
  exact hne (List.cons.inj heq).1

/-! ## Classes without space or quotes -/

/-- A sort of characters to which the five blanks do not belong has no space in it. -/
theorem isSpace_eq_false {p : Char → Bool}
    (hp : [' ', '\t', '\n', '\r', '\x0c'].all (fun c => !p c) = true) {c : Char}
    (h : p c = true) : isSpace c = false := by
  by_contra hspace
  rw [Bool.not_eq_false] at hspace
  have hmem : c ∈ [' ', '\t', '\n', '\r', '\x0c'] := by
    simpa [isSpace, or_assoc] using hspace
  have hnot := List.all_eq_true.mp hp c hmem
  simp [h] at hnot

/-- A sort of characters to which the two quotes do not belong has no quote in it. -/
theorem isQuote_eq_false {p : Char → Bool}
    (hp : ['\x22', '\x27'].all (fun c => !p c) = true) {c : Char} (h : p c = true) :
    isQuote c = false := by
  by_contra hquote
  rw [Bool.not_eq_false] at hquote
  have hmem : c ∈ ['\x22', '\x27'] := by simpa [isQuote] using hquote
  have hnot := List.all_eq_true.mp hp c hmem
  simp [h] at hnot

/-- A class without space in it does not go on where space or the end of the row stands. -/
theorem stops_space_append {p : Char → Bool}
    (hp : [' ', '\t', '\n', '\r', '\x0c'].all (fun c => !p c) = true) (space : Space)
    {rest : List Char} (hrest : Stops p rest) : Stops p (space.val ++ rest) := by
  obtain ⟨cs, hcs⟩ := space
  cases cs with
  | nil => exact hrest
  | cons c tail =>
    apply (stops_cons_iff p c _).mpr
    by_contra hpart
    have hspace := isSpace_eq_false hp (Bool.not_eq_false _ ▸ hpart)
    simp [hcs c (by simp)] at hspace

/-- Space of at least one character, as space. -/
def Gap.toSpace (gap : Gap) : Space := ⟨gap.val, gap.property.2⟩

/-- A row of characters without blanks stops in front of a gap. -/
theorem stops_gap_append {p : Char → Bool}
    (hp : [' ', '\t', '\n', '\r', '\x0c'].all (fun c => !p c) = true) (gap : Gap)
    (rest : List Char) : Stops p (gap.val ++ rest) := by
  have h := stops_space_append hp gap.toSpace (stops_nil p)
  obtain ⟨cs, hne, hcs⟩ := gap
  obtain ⟨c, tail, rfl⟩ := List.exists_cons_of_ne_nil hne
  simp only [Gap.toSpace, List.append_nil, List.cons_append] at h ⊢
  exact (stops_cons_iff p c _).mpr ((stops_cons_iff p c _).mp h)

/-! ## Delimiters -/

/-- The characters that can stand behind an expression. -/
def isDelimiter (c : Char) : Bool :=
  isSpace c || c == ',' || c == '(' || c == ')' || c == '}' || c == '>'

/-- The text goes on with a delimiter, or not at all. -/
def Delimited (cs : List Char) : Prop := ∀ c ∈ cs.head?, isDelimiter c = true

/-- Only the next character matters to whether something is delimited. -/
theorem delimited_cons_iff (c : Char) (cs : List Char) :
    Delimited (c :: cs) ↔ isDelimiter c = true := by
  simp [Delimited]

/-- Space in front of what delimits delimits too. -/
theorem delimited_space_append (space : Space) {rest : List Char} (h : Delimited rest) :
    Delimited (space.val ++ rest) := by
  obtain ⟨cs, hcs⟩ := space
  cases cs with
  | nil => exact h
  | cons c tail =>
    apply (delimited_cons_iff c _).mpr
    simp [isDelimiter, hcs c (by simp)]

/-- A gap delimits, whatever stands behind it. -/
theorem delimited_gap_append (gap : Gap) (rest : List Char) : Delimited (gap.val ++ rest) := by
  obtain ⟨cs, hne, hcs⟩ := gap
  obtain ⟨c, tail, rfl⟩ := List.exists_cons_of_ne_nil hne
  apply (delimited_cons_iff c _).mpr
  simp [isDelimiter, hcs c (by simp)]

/-- The delimiters are the blanks, the comma and the closing and opening signs. -/
theorem delimiter_cases {c : Char} (h : isDelimiter c = true) :
    c ∈ [' ', '\t', '\n', '\r', '\x0c', ',', '(', ')', '}', '>'] := by
  simp only [isDelimiter, isSpace, Bool.or_eq_true, beq_iff_eq] at h
  simpa only [List.mem_cons, List.not_mem_nil, or_false, or_assoc] using h

/-- A class without a delimiter in it does not go on where a delimiter stands. -/
theorem Delimited.stops {cs : List Char} (h : Delimited cs) {p : Char → Bool}
    (hp : [' ', '\t', '\n', '\r', '\x0c', ',', '(', ')', '}', '>'].all (fun c => !p c) = true) :
    Stops p cs := by
  intro c hc
  have hmem := delimiter_cases (h c hc)
  have hnot := List.all_eq_true.mp hp c hmem
  simpa using hnot

/-- An identifier stops where it is delimited. -/
theorem Delimited.stops_identifierChar {cs : List Char} (h : Delimited cs) :
    Stops isIdentifierChar cs :=
  h.stops (by decide)

/-- A row of digits stops where it is delimited. -/
theorem Delimited.stops_decimalDigit {cs : List Char} (h : Delimited cs) :
    Stops isDecimalDigit cs :=
  h.stops (by decide)

/-- No dot delimits. -/
theorem Delimited.stops_dot {cs : List Char} (h : Delimited cs) : Stops (· == '.') cs :=
  h.stops (by decide)

/-! ## Seams -/

/-- Where reading finds the seams of two texts, equal texts have equal readings and seams. -/
theorem eq_of_readings {α : Type} (read : List Char → Outcome α) {cs cs' rest rest' : List Char}
    {value value' : α} (hread : read (cs ++ rest) = .matched value rest)
    (hread' : read (cs' ++ rest') = .matched value' rest') (h : cs ++ rest = cs' ++ rest') :
    value = value' ∧ cs = cs' ∧ rest = rest' := by
  rw [h, hread'] at hread
  simp only [Outcome.matched.injEq] at hread
  obtain ⟨rfl, rfl⟩ := hread
  exact ⟨rfl, List.append_cancel_right h, rfl⟩

/-! ## Strings -/

/-- A text is cut at the first stop. -/
theorem cutAt_append {stop : Char} {before : List Char} (h : stop ∉ before)
    (behind : List Char) : cutAt stop (before ++ stop :: behind) = some (before, behind) := by
  induction before with
  | nil => simp [cutAt]
  | cons c rest ih =>
    simp only [List.mem_cons, not_or] at h
    have hc : c ≠ stop := fun heq => h.1 heq.symm
    simp [cutAt, hc, ih h.2]

/-- A text that has been cut consists of what is in front of the first stop, the stop and what is
behind it. -/
theorem eq_append_of_cutAt {stop : Char} {cs before behind : List Char}
    (h : cutAt stop cs = some (before, behind)) :
    cs = before ++ stop :: behind ∧ stop ∉ before := by
  induction cs generalizing before with
  | nil => simp [cutAt] at h
  | cons c rest ih =>
    simp only [cutAt] at h
    split at h
    case isTrue hc =>
      simp only [Option.some.injEq, Prod.mk.injEq] at h
      obtain ⟨rfl, rfl⟩ := h
      simp [hc]
    case isFalse hc =>
      simp only [Option.map_eq_some_iff, Prod.mk.injEq, Prod.exists] at h
      obtain ⟨a, b, hcut, rfl, rfl⟩ := h
      obtain ⟨heq, hnot⟩ := ih hcut
      have hc' : stop ≠ c := fun he => hc he.symm
      exact ⟨by simp [heq], by simp [hc', hnot]⟩

/-- The content of a string ends at the first quote of its own kind, whatever comes behind. -/
theorem readString_append (s : StringTree) (rest : List Char) :
    readString (s.chars ++ rest) = .matched (String.ofList s.content) rest := by
  have hcut := cutAt_append s.quote_notMem rest
  simp [StringTree.chars, readString, s.isQuote_quote, hcut]

/-- What is read as a string has a derivation. -/
theorem exists_of_readString {cs rest : List Char} {content : String}
    (h : readString cs = .matched content rest) :
    ∃ s : StringTree, cs = s.chars ++ rest := by
  cases cs with
  | nil => simp [readString] at h
  | cons quote tail =>
    simp only [readString] at h
    split at h
    case isTrue hquote =>
      split at h
      case h_1 before behind hcut =>
        simp only [Outcome.matched.injEq] at h
        obtain ⟨-, rfl⟩ := h
        obtain ⟨heq, hnot⟩ := eq_append_of_cutAt hcut
        exact ⟨⟨quote, before, hquote, hnot⟩, by simp [StringTree.chars, heq]⟩
      case h_2 => simp at h
    case isFalse => simp at h

/-- A string is told apart from what follows it, as it ends at its own quote. -/
theorem StringTree.append_inj {s t : StringTree} {rest rest' : List Char}
    (h : s.chars ++ rest = t.chars ++ rest') : s = t ∧ rest = rest' := by
  obtain ⟨-, hchars, hseam⟩ :=
    eq_of_readings readString (readString_append s rest) (readString_append t rest') h
  refine ⟨?_, hseam⟩
  obtain ⟨quote, content, _, _⟩ := s
  obtain ⟨quote', content', _, _⟩ := t
  simp only [StringTree.chars, List.cons.injEq] at hchars
  obtain ⟨rfl, hchars⟩ := hchars
  have hcontent := List.append_cancel_right hchars
  subst hcontent
  rfl

/-! ## Names -/

/-- A tag name is read as a whole. -/
theorem readTagName_append {name : List Char} (hname : IsTagName name) {rest : List Char}
    (hrest : Stops isTagNameChar rest) :
    readTagName (name ++ rest) = .matched (String.ofList name) rest := by
  obtain ⟨c, tail, rfl, hc, htail⟩ := hname
  simp [readTagName, hc, takeWhile_append_of_stops htail hrest,
    dropWhile_append_of_stops htail hrest]

/-- What is read as a tag name is one. -/
theorem exists_of_readTagName {cs rest : List Char} {name : String}
    (h : readTagName cs = .matched name rest) :
    ∃ chars, IsTagName chars ∧ cs = chars ++ rest := by
  cases cs with
  | nil => simp [readTagName] at h
  | cons c tail =>
    simp only [readTagName] at h
    split at h
    case isTrue hc =>
      simp only [Outcome.matched.injEq] at h
      obtain ⟨-, rfl⟩ := h
      refine ⟨c :: tail.takeWhile isTagNameChar, ⟨c, _, rfl, hc, ?_⟩, ?_⟩
      · exact fun d hd => List.mem_takeWhile_imp hd
      · simp
    case isFalse => simp at h

/-! ## Identifiers -/

/-- Behind the characters of a name that has begun, the row goes on as it would without them. -/
theorem dotted_append_row {row : List Char} (hrow : ∀ c ∈ row, isIdentifierChar c = true)
    (cs : List Char) :
    dotted true (row ++ cs) = (row ++ (dotted true cs).1, (dotted true cs).2) := by
  induction row with
  | nil => rfl
  | cons c tail ih =>
    have hc : isNamePart true c = true := hrow c (by simp)
    have htail := ih fun d hd => hrow d (by simp [hd])
    simp [dotted, hc, htail]

/-- At the beginning of a part a letter is taken. -/
theorem dotted_of_isIdentifierStart {c : Char} (hc : isIdentifierStart c = true)
    (cs : List Char) : dotted false (c :: cs) = (c :: (dotted true cs).1, (dotted true cs).2) := by
  have hpart : isNamePart false c = true := hc
  simp [dotted, hpart]

/-- Behind a character of a part a dot is taken, and a part begins anew. -/
theorem dotted_dot (cs : List Char) :
    dotted true ('.' :: cs) = ('.' :: (dotted false cs).1, (dotted false cs).2) := by
  have hpart : isNamePart true '.' = false := by decide
  simp [dotted, hpart]

/-- Nothing is taken where neither a character of a part nor a dot stands. -/
theorem dotted_of_stops {cs : List Char} (hchar : Stops isIdentifierChar cs)
    (hdot : Stops (· == '.') cs) : dotted true cs = ([], cs) := by
  cases cs with
  | nil => rfl
  | cons c tail =>
    have hc : isNamePart true c = false := (stops_cons_iff _ _ _).mp hchar
    have hc' := (stops_cons_iff _ _ _).mp hdot
    simp only [beq_eq_false_iff_ne, ne_eq] at hc'
    simp [dotted, hc, hc']

/-- An identifier is taken as a whole. -/
theorem dotted_identifier {name rest : List Char} (hname : IsIdentifier name)
    (hchar : Stops isIdentifierChar rest) (hdot : Stops (· == '.') rest) :
    dotted false (name ++ rest) = (name, rest) := by
  induction hname with
  | part hc hrow =>
    rw [List.cons_append, dotted_of_isIdentifierStart hc, dotted_append_row hrow,
      dotted_of_stops hchar hdot]
    simp
  | dot hc hrow _ ih =>
    rw [List.append_assoc, List.cons_append, dotted_of_isIdentifierStart hc,
      dotted_append_row hrow, List.cons_append, dotted_dot, ih]
    simp

/-- An identifier begins as a part does. -/
theorem IsIdentifier.exists_cons {name : List Char} (h : IsIdentifier name) :
    ∃ c tail, name = c :: tail ∧ isIdentifierStart c = true := by
  cases h with
  | part hc _ => exact ⟨_, _, rfl, hc⟩
  | dot hc _ _ => exact ⟨_, _, rfl, hc⟩

/-- An identifier does not end in a dot. -/
theorem IsIdentifier.getLast?_ne_dot {name : List Char} (h : IsIdentifier name) :
    name.getLast? ≠ some '.' := by
  induction h with
  | @part c rest hc hrow =>
    intro hlast
    have hmem : '.' ∈ c :: rest := List.mem_of_getLast? hlast
    have hall : ∀ d ∈ c :: rest, isIdentifierChar d = true := by
      intro d hd
      rcases List.mem_cons.mp hd with rfl | hd
      · exact isIdentifierChar_of_isIdentifierStart hc
      · exact hrow d hd
    exact absurd (hall '.' hmem) (by decide)
  | @dot c rest more hc hrow hmore ih =>
    obtain ⟨d, tail, rfl, _⟩ := hmore.exists_cons
    simpa [List.getLast?_append, List.getLast?_cons] using ih

/-- An identifier is read as a whole. -/
theorem readIdentifier_append {name rest : List Char} (hname : IsIdentifier name)
    (hrest : Delimited rest) :
    readIdentifier (name ++ rest) = .matched (String.ofList name) rest := by
  have hdotted := dotted_identifier hname hrest.stops_identifierChar hrest.stops_dot
  have hlast := hname.getLast?_ne_dot
  obtain ⟨c, tail, rfl, _⟩ := hname.exists_cons
  simp only [readIdentifier, hdotted, if_neg hlast]

/-- A row of names and dots that begins a name is an identifier, unless a dot ends it.  For a row
that is read inside a name, `c :: row` is what the name has so far. -/
theorem dotted_sound (cs : List Char) :
    ((dotted false cs).1 = [] ∨ (dotted false cs).1.getLast? = some '.' ∨
      IsIdentifier (dotted false cs).1) ∧
    ∀ c row, isIdentifierStart c = true → (∀ d ∈ row, isIdentifierChar d = true) →
      (c :: row ++ (dotted true cs).1).getLast? = some '.' ∨
        IsIdentifier (c :: row ++ (dotted true cs).1) := by
  induction cs with
  | nil =>
    refine ⟨.inl rfl, fun c row hc hrow => .inr ?_⟩
    simpa [dotted] using IsIdentifier.part hc hrow
  | cons d rest ih =>
    obtain ⟨ihFresh, ihInside⟩ := ih
    constructor
    · by_cases hd : isIdentifierStart d = true
      · rw [dotted_of_isIdentifierStart hd]
        exact .inr (ihInside d [] hd (by simp))
      · left
        simp [dotted, isNamePart, hd]
    · intro c row hc hrow
      by_cases hd : isIdentifierChar d = true
      · have hone : ∀ e ∈ [d], isIdentifierChar e = true := by simpa using hd
        have hstep := dotted_append_row hone rest
        have hrow' : ∀ e ∈ row ++ [d], isIdentifierChar e = true := by
          intro e he
          rcases List.mem_append.mp he with he | he
          · exact hrow e he
          · rw [List.mem_singleton.mp he]
            exact hd
        simp only [List.singleton_append] at hstep
        rw [hstep]
        simpa using ihInside c (row ++ [d]) hc hrow'
      · by_cases hdot : d = '.'
        · subst hdot
          rw [dotted_dot]
          rcases ihFresh with hnil | hlast | hmore
          · left
            simp [hnil, List.getLast?_cons, List.getLast?_append]
          · left
            simp [hlast, List.getLast?_cons, List.getLast?_append]
          · exact .inr (.dot hc hrow hmore)
        · right
          simpa [dotted, isNamePart, hd, hdot] using IsIdentifier.part hc hrow

/-- What is read as an identifier is one. -/
theorem exists_of_readIdentifier {cs rest : List Char} {name : String}
    (h : readIdentifier cs = .matched name rest) :
    ∃ chars, IsIdentifier chars ∧ cs = chars ++ rest := by
  have happend := dotted_append false cs
  have hsound := (dotted_sound cs).1
  unfold readIdentifier at h
  split at h
  case h_1 => simp at h
  case h_2 c read behind hdotted =>
    rw [hdotted] at happend hsound
    split at h
    case isTrue => simp at h
    case isFalse hlast =>
      simp only [Outcome.matched.injEq] at h
      obtain ⟨-, rfl⟩ := h
      rcases hsound with hnil | hdot | hidentifier
      · simp at hnil
      · exact absurd hdot hlast
      · exact ⟨c :: read, hidentifier, happend.symm⟩

/-- An identifier is told apart from a delimiter behind it. -/
theorem IsIdentifier.append_inj {name name' rest rest' : List Char} (hname : IsIdentifier name)
    (hname' : IsIdentifier name') (hrest : Delimited rest) (hrest' : Delimited rest')
    (h : name ++ rest = name' ++ rest') : name = name' ∧ rest = rest' := by
  obtain ⟨-, heq, hseam⟩ := eq_of_readings readIdentifier (readIdentifier_append hname hrest)
    (readIdentifier_append hname' hrest') h
  exact ⟨heq, hseam⟩

/-! ## Numbers -/

/-- Digits behind a dot are read as a whole. -/
theorem readFraction_append {fraction rest : List Char} (hne : fraction ≠ [])
    (hfraction : ∀ c ∈ fraction, isDecimalDigit c = true) (hrest : Stops isDecimalDigit rest) :
    readFraction ('.' :: (fraction ++ rest)) = (fraction, rest) := by
  simp [readFraction, takeWhile_append_of_stops hfraction hrest,
    dropWhile_append_of_stops hfraction hrest, hne]

/-- Where no dot stands, no digits behind it are read. -/
theorem readFraction_of_stops {cs : List Char} (h : Stops (· == '.') cs) :
    readFraction cs = ([], cs) := by
  unfold readFraction
  split
  case h_1 rest =>
    have hdot := (stops_cons_iff _ _ _).mp h
    simp at hdot
  case h_2 => rfl

/-- What is read behind the whole part is a dot and digits, or nothing. -/
theorem readFraction_sound (cs : List Char) :
    (∀ c ∈ (readFraction cs).1, isDecimalDigit c = true) ∧
      cs = (if (readFraction cs).1.isEmpty then [] else '.' :: (readFraction cs).1) ++
        (readFraction cs).2 := by
  unfold readFraction
  split
  case h_1 rest =>
    simp only
    split
    case isTrue => simp
    case isFalse hne =>
      refine ⟨fun c hc => List.mem_takeWhile_imp hc, ?_⟩
      simp
  case h_2 => simp

/-- Behind the sign of a number its digits are read, and the fraction if there is one. -/
theorem readNumberLiteral_append {n : NumberLiteral} (hn : n.WellFormed) {rest : List Char}
    (hrest : Delimited rest) : readNumberLiteral (n.chars ++ rest) = some (n, rest) := by
  obtain ⟨negative, whole, fraction⟩ := n
  obtain ⟨hne, hwhole, hfraction, hhead⟩ := hn
  simp only at hne hwhole hfraction hhead
  have htail : ∃ tail, tail = (if fraction.isEmpty then [] else '.' :: fraction) ++ rest ∧
      Stops isDecimalDigit tail ∧ readFraction tail = (fraction, rest) := by
    by_cases hempty : fraction = []
    · subst hempty
      exact ⟨_, rfl, hrest.stops_decimalDigit, readFraction_of_stops hrest.stops_dot⟩
    · refine ⟨'.' :: (fraction ++ rest), by simp [hempty], ?_, ?_⟩
      · exact (stops_cons_iff _ _ _).mpr (by decide)
      · exact readFraction_append hempty hfraction hrest.stops_decimalDigit
  obtain ⟨tail, htail, hstops, hread⟩ := htail
  have hchars : NumberLiteral.chars ⟨negative, whole, fraction⟩ ++ rest =
      (if negative then ['-'] else []) ++ (whole ++ tail) := by
    simp [NumberLiteral.chars, htail]
  obtain ⟨d, more, rfl⟩ := List.exists_cons_of_ne_nil hne
  have hd : d ≠ '-' := by
    rintro rfl
    exact absurd (hwhole '-' (by simp)) (by decide)
  have hsign : (((if negative then ['-'] else []) ++ (d :: more ++ tail)).head? == some '-') =
      negative := by
    cases negative <;> simp [hd]
  have hunsigned : (if negative then ((if negative then ['-'] else []) ++
      (d :: more ++ tail)).drop 1 else (if negative then ['-'] else []) ++ (d :: more ++ tail)) =
      d :: more ++ tail := by
    cases negative <;> simp
  simp only [readNumberLiteral, hchars, hsign, hunsigned,
    takeWhile_append_of_stops hwhole hstops, dropWhile_append_of_stops hwhole hstops, hread]
  simp

/-- What is read as a number is made of digits, at least one of them in front of the dot. -/
theorem readNumberLiteral_sound {cs rest : List Char} {n : NumberLiteral}
    (h : readNumberLiteral cs = some (n, rest)) :
    cs = n.chars ++ rest ∧ n.whole ≠ [] ∧ (∀ c ∈ n.whole, isDecimalDigit c = true) ∧
      ∀ c ∈ n.fraction, isDecimalDigit c = true := by
  unfold readNumberLiteral at h
  simp only at h
  generalize hnegative : (cs.head? == some '-') = negative at h
  generalize hunsigned : (if negative = true then cs.drop 1 else cs) = unsigned at h
  have hcs : cs = (if negative then ['-'] else []) ++ unsigned := by
    cases negative with
    | false => simpa using hunsigned
    | true =>
      cases cs with
      | nil => simp at hnegative
      | cons c tail =>
        simp only [List.head?_cons, beq_iff_eq, Option.some.injEq] at hnegative
        simpa [hnegative] using hunsigned
  obtain ⟨hfraction, hafter⟩ := readFraction_sound (unsigned.dropWhile isDecimalDigit)
  split at h
  case isTrue => simp at h
  case isFalse hne =>
    simp only [Option.some.injEq, Prod.mk.injEq] at h
    obtain ⟨rfl, rfl⟩ := h
    refine ⟨?_, by simpa using hne, fun c hc => List.mem_takeWhile_imp hc, hfraction⟩
    simp only [NumberLiteral.chars, List.append_assoc]
    rw [← hafter, List.takeWhile_append_dropWhile]
    exact hcs

/-- A number in front of a delimiter is read, unless it is an integer of too many digits. -/
theorem readNumber_append {n : NumberLiteral} (hn : n.WellFormed) {rest : List Char}
    (hrest : Delimited rest) (hshort : n.isOverlong = false) :
    readNumber (n.chars ++ rest) = .matched n.value rest := by
  simp [readNumber, readNumberLiteral_append hn hrest, hshort]

/-- An integer of too many digits is a fault. -/
theorem readNumber_overlong {n : NumberLiteral} (hn : n.WellFormed) {rest : List Char}
    (hrest : Delimited rest) (hlong : n.isOverlong = true) :
    ∃ left, readNumber (n.chars ++ rest) = .faulty ⟨.numberTooLong n.whole.length, left⟩ :=
  ⟨(n.chars ++ rest).length, by
    simp only [readNumber, readNumberLiteral_append hn hrest, hlong, if_true]⟩

/-- Where a minus sign or a digit of ASCII stands in front, what is read is a number. -/
theorem exists_of_readNumber {c : Char} {cs rest : List Char} {value : Number}
    (hc : c = '-' ∨ isDigit c = true) (h : readNumber (c :: cs) = .matched value rest) :
    ∃ n : NumberLiteral, n.WellFormed ∧ c :: cs = n.chars ++ rest := by
  unfold readNumber at h
  split at h
  case h_1 n behind hread =>
    split at h
    case isTrue => simp at h
    simp only [Outcome.matched.injEq] at h
    obtain ⟨-, rfl⟩ := h
    obtain ⟨heq, hne, hwhole, hfraction⟩ := readNumberLiteral_sound hread
    refine ⟨n, ⟨hne, hwhole, hfraction, ?_⟩, heq⟩
    cases hnegative : n.negative with
    | true => exact .inl rfl
    | false =>
      right
      obtain ⟨d, more, hdigits⟩ := List.exists_cons_of_ne_nil hne
      rw [hdigits] at hwhole ⊢
      have hdc : c = d := by
        simp only [NumberLiteral.chars, hnegative, hdigits] at heq
        simpa using congrArg List.head? heq
      intro e he
      have hed : e = d := by simpa using he.symm
      subst hed hdc
      rcases hc with rfl | hc
      · exact absurd (hwhole '-' (by simp)) (by decide)
      · exact hc
  case h_2 => simp at h

/-- A number is told apart from a delimiter behind it. -/
theorem NumberLiteral.append_inj {m n : NumberLiteral} (hm : m.WellFormed) (hn : n.WellFormed)
    {rest rest' : List Char} (hrest : Delimited rest) (hrest' : Delimited rest')
    (h : m.chars ++ rest = n.chars ++ rest') : m = n ∧ rest = rest' := by
  have hread := readNumberLiteral_append hm hrest
  rw [h, readNumberLiteral_append hn hrest'] at hread
  simp only [Option.some.injEq, Prod.mk.injEq] at hread
  exact ⟨hread.1.symm, hread.2.symm⟩

end MarkupSpans.Grammar
