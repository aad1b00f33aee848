import MarkupSpans.Failure

/-!
# What can be wrong with a text

The faults that reading words from text can find, the notices that it gives on the way, and what
is said about each.  A place in the text is told by how many characters are left from there, so
that it does not depend on what stands before.
-/

set_option autoImplicit false

namespace MarkupSpans.Grammar

/-- Something said about a place in a text, where `left` characters are left. -/
structure Placed (α : Type) where
  item : α
  left : Nat

/-- What is wrong with a text. -/
inductive SyntaxFault where
  | textNotQuoted
  | textNotClosed (content : String)
  | stringNotClosed
  | startNameMissing
  | startNameExpected (got : String)
  | startTagNotClosed (tag : String)
  /-- A start tag that ends like an empty element. -/
  | selfClosing (tag : String)
  | startTagGarbage (tag garbage : String)
  | endNameMissing
  /-- An end tag that the end of the text cuts off before its name. -/
  | endTagCut
  | endTagGarbage
  /-- An end tag that the end of the text cuts off after its name. -/
  | endTagNotClosed (tag : String)
  | endTagTail (tag : String)
  | spaceExpected (tag near : String)
  | equalsMissing (name : String)
  | valueMissing (name : String)
  | valueGarbage (name : String)
  | bracedGarbage (name : String)
  | bracesNotClosed (name : String)
  | argumentGarbage (function : String)
  | argumentsNotClosed (function : String)
  /-- A dotted name that ends in a dot. -/
  | partMissing (read : String)
  /-- An integer of so many digits, more than one is read from. -/
  | numberTooLong (digits : Nat)
  | notAWord (garbage : String)
  deriving DecidableEq

namespace SyntaxFault

/-- What kind of compile error a fault is.  An integer of too many digits is none, but a value
that its place cannot take. -/
def kind : SyntaxFault → Except ValueFault ErrorKind
  | .numberTooLong digits => .error (.numeralTooLong digits)
  | .notAWord _ => .ok .unterminatedInput
  | _ => .ok .grammar

/-- What is said about a fault. -/
def message : SyntaxFault → String
  | .textNotQuoted =>
    "Text words must be a string literal wrapped in \x7b\x7d, like \x7b\"text\"\x7d."
  | .textNotClosed content =>
    "Missing the closing \x7d of the text word \x7b" ++ Text.quotedStart content ++ "."
  | .stringNotClosed => "String literal was never closed."
  | .startNameMissing => "Missing start tag name. (Got <>.)"
  | .startNameExpected got => "Expected a tag name after <, got " ++ Text.quoted got ++ "."
  | .startTagNotClosed tag => "Tag <" ++ tag ++ "> wasn't closed at end of input."
  | .selfClosing tag => "Self-closing syntax isn't supported (on <" ++ tag ++ ">)."
  | .startTagGarbage tag garbage =>
    "While trying to parse a <" ++ tag ++ "> start tag, ran into some unparseable stuff (" ++
      garbage ++ ")."
  | .endNameMissing => "Missing end tag name. (Got </>.)"
  | .endTagCut => "Hit the end of input in the middle of an end tag."
  | .endTagGarbage => "Garbage in an end tag."
  | .endTagNotClosed tag => "Hit the end of input in the middle of an end tag </" ++ tag ++ ">."
  | .endTagTail tag => "Garbage after the tagname in </" ++ tag ++ ">."
  | .spaceExpected tag near =>
    "Expected whitespace between the attributes of <" ++ tag ++ ">. (" ++ near ++ "...)"
  | .equalsMissing name => "Attribute '" ++ name ++ "' is missing its = and value."
  | .valueMissing name => "Missing attribute value after " ++ name ++ "=."
  | .valueGarbage name => "Garbage after " ++ name ++ "=."
  | .bracedGarbage name => "Garbage inside the \x7b\x7d value of " ++ name ++ "=."
  | .bracesNotClosed name => "The \x7b\x7d value of " ++ name ++ "= was never closed."
  | .argumentGarbage function => "Garbage in the arguments to " ++ function ++ "()."
  | .argumentsNotClosed function => "The arguments to " ++ function ++ "() were never closed."
  | .partMissing read => "Expected a name after the . in " ++ read
  | .numberTooLong digits => (ValueFault.numeralTooLong digits).message
  | .notAWord garbage =>
    "Expected a \x7btext\x7d literal, a start tag, or an end tag; got: " ++ garbage

/-- A fault at a place as a failure; only compile errors tell the place. -/
def failure (loc : String) (fault : SyntaxFault) : Failure :=
  match fault.kind with
  | .ok kind => .compile ⟨kind, fault.message, some loc⟩
  | .error value => .value value

end SyntaxFault

/-- What is said on the way, without stopping. -/
inductive Notice where
  | repeatedAttribute (name tag : String)
  /-- Text that starts no word, where that is allowed at the end. -/
  | trailingText (garbage : String)
  deriving DecidableEq

/-- The text of a notice. -/
def Notice.message : Notice → String
  | .repeatedAttribute name tag =>
    "Attribute '" ++ name ++ "' appears twice in <" ++ tag ++ ">; the last one wins."
  | .trailingText garbage => "Ignoring trailing text that isn't a word: " ++ garbage

/-- What a rule of the grammar says about the text in front of it. -/
inductive Outcome (α : Type) where
  /-- The rule applies, and leaves the rest of the text. -/
  | matched (value : α) (rest : List Char)
  /-- The text is for another rule. -/
  | missed
  /-- The text is for this rule, but something is wrong with it. -/
  | faulty (fault : Placed SyntaxFault)

/-- The outcome with another value. -/
def Outcome.map {α β : Type} (f : α → β) : Outcome α → Outcome β
  | .matched value rest => .matched (f value) rest
  | .missed => .missed
  | .faulty fault => .faulty fault

/-- A changed outcome is a match exactly where the first one was. -/
theorem Outcome.map_eq_matched_iff {α β : Type} (f : α → β) (o : Outcome α) (b : β)
    (rest : List Char) :
    o.map f = .matched b rest ↔ ∃ a, o = .matched a rest ∧ f a = b := by
  cases o with
  | matched value rest' =>
    constructor
    · intro h
      simp only [Outcome.map, Outcome.matched.injEq] at h
      exact ⟨value, by rw [h.2], h.1⟩
    · rintro ⟨a, h, rfl⟩
      simp only [Outcome.matched.injEq] at h
      simp [Outcome.map, h.1, h.2]
  | missed => simp [Outcome.map]
  | faulty fault => simp [Outcome.map]

end MarkupSpans.Grammar
