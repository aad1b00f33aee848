import MarkupSpans.Proofs.Grammar.Literal
import MarkupSpans.Grammar.Tokens

/-!
# Rules that are committed

The first character or two decide whether a text is for a rule.  From then on the rule applies or
something is wrong, and it never turns out that the text was for another rule: a literal behind a
quote, arguments behind their parenthesis, and a word behind its bracket are read or are faulty
(`readWord_eq_missed_iff`).
-/

set_option autoImplicit false

namespace MarkupSpans.Grammar

open Text

variable {α β : Type}

/-- A rule whose value is put into another form misses where it missed. -/
theorem Outcome.map_eq_missed_iff (f : α → β) (o : Outcome α) :
    o.map f = .missed ↔ o = .missed := by
  cases o <;> simp [Outcome.map]

/-- A string is missed only where there is no quote. -/
theorem readString_eq_missed_iff (cs : List Char) : readString cs = .missed ↔ Stops isQuote cs := by
  cases cs with
  | nil => exact iff_of_true rfl (stops_nil _)
  | cons quote rest =>
    rw [stops_cons_iff, readString]
    cases hquote : isQuote quote with
    | false => simp
    | true =>
      simp only [if_true]
      cases cutAt quote rest <;> simp

/-- Arguments are never missed: the steps do not run out. -/
theorem readMoreArguments_ne_missed (function : String) (opened : Nat) (cs : List Char) :
    readMoreArguments function opened cs ≠ .missed := by
  -- by induction on the length of the text, which each argument with its comma shortens
  induction hlength : cs.length using Nat.strongRecOn generalizing cs with
  | ind n ih =>
    rw [readMoreArguments_eq]
    cases hargument : readExpression true cs with
    | missed => simp
    | faulty fault => simp
    | matched argument rest =>
      have hshorter := readExpression_length hargument
      have hskip := skipSpace_length rest
      dsimp only
      split
      · simp
      · rename_i more hmore
        rw [hmore, List.length_cons] at hskip
        have hskip' := skipSpace_length more
        rw [ne_eq, Outcome.map_eq_missed_iff]
        exact ih (skipSpace more).length (by omega) (skipSpace more) rfl
      · simp

/-- Behind a parenthesis arguments are read or faulty. -/
theorem readArguments_ne_missed (function : String) (inside : List Char) :
    readArguments function ('(' :: inside) ≠ .missed := by
  rw [readArguments]
  split
  · simp
  · exact readMoreArguments_ne_missed function (inside.length + 1) (skipSpace inside)

/-- Behind a brace a text is read or faulty. -/
theorem readText_ne_missed (inside : List Char) : readText ('\x7b' :: inside) ≠ .missed := by
  rw [readText]
  split
  · simp
  · simp
  · split <;> simp

/-- Behind a bracket and a slash an end tag is read or faulty. -/
theorem readEndTag_ne_missed (inside : List Char) :
    readEndTag ('<' :: '/' :: inside) ≠ .missed := by
  rw [readEndTag]
  split
  · simp
  · split
    · simp
    · split
      · simp
      · simp
      · split <;> simp

/-- A start tag is closed or faulty. -/
theorem closeStartTag_ne_missed (tag : String) (attributes : NameMap Value) (opened : Nat)
    (cs : List Char) : closeStartTag tag attributes opened cs ≠ .missed := by
  unfold closeStartTag
  split <;> simp

/-- Behind a bracket a start tag is read or faulty. -/
theorem readStartTag_ne_missed (inside : List Char) :
    (readStartTag ('<' :: inside)).2 ≠ .missed := by
  rw [readStartTag]
  dsimp only
  split
  · simp
  · split <;> simp
  · split
    · simp
    · exact closeStartTag_ne_missed _ _ _ _

/-- A word is missed only where neither of the two brackets stands that open one. -/
theorem readWord_eq_missed_iff (cs : List Char) :
    (readWord cs).2 = .missed ↔ ∀ c ∈ cs.head?, c ≠ '\x7b' ∧ c ≠ '<' := by
  unfold readWord
  split
  · simp [readText_ne_missed]
  · simp [readEndTag_ne_missed]
  · simp [readStartTag_ne_missed]
  · rename_i hbrace _ hbracket
    refine iff_of_true rfl ?_
    intro c hc
    cases cs with
    | nil => cases hc
    | cons d rest =>
      obtain rfl : d = c := by simpa using hc
      exact ⟨fun h => hbrace rest (by rw [h]), fun h => hbracket rest (by rw [h])⟩

end MarkupSpans.Grammar
