import MarkupSpans.WordStream

/-!
# Rules of the grammar at an index

Each rule of the grammar, applied at an index of a source.  A match gives the index behind what
was read, a miss the index it began at.  In front of the text and behind it there is nothing to
match.
-/

set_option autoImplicit false

namespace MarkupSpans

/-- What a rule says about an index of a source. -/
inductive Reading (α : Type) where
  /-- The rule applies, up to an index. -/
  | matched (value : α) (index : Int)
  /-- The rule is not for what stands at the index. -/
  | missed (index : Int)
  /-- The rule is for what stands there, but something is wrong with it. -/
  | faulty (e : Failure)

namespace Source

variable {α : Type}

/-- An outcome of reading from the index `start` on, with places instead of counts. -/
def reading (s : Source) (start : Int) (outcome : Grammar.Outcome α) : Reading α :=
  match outcome with
  | .matched value rest => .matched value (start + ((s.suffix start).length - rest.length : Nat))
  | .missed => .missed start
  | .faulty fault => .faulty (s.failureOf fault)

/-- The reading of a word that begins at `start`, with that place. -/
def placeWord (s : Source) (start : Int) : Reading Word → Reading Word
  | .matched w index => .matched (w.withLoc (some (s.loc start))) index
  | other => other

/-- Notices with the places that they speak of. -/
def placeNotices (s : Source) (notices : List (Grammar.Placed Grammar.Notice)) :
    List (Grammar.Notice × String) :=
  notices.map fun n => (n.item, s.locOfLeft n.left)

/-- The text word at an index. -/
def textAt (s : Source) (start : Int) : Reading Word :=
  s.placeWord start (s.reading start (Grammar.readText (s.suffix start)))

/-- The end tag at an index. -/
def endTagAt (s : Source) (start : Int) : Reading Word :=
  s.placeWord start (s.reading start (Grammar.readEndTag (s.suffix start)))

/-- The start tag at an index, with the notices about its attributes. -/
def startTagAt (s : Source) (start : Int) : List (Grammar.Notice × String) × Reading Word :=
  let (notices, outcome) := Grammar.readStartTag (s.suffix start)
  (s.placeNotices notices, s.placeWord start (s.reading start outcome))

/-- The word at an index, with the notices on the way. -/
def wordAt (s : Source) (start : Int) : List (Grammar.Notice × String) × Reading Word :=
  let (notices, outcome) := Grammar.readWord (s.suffix start)
  (s.placeNotices notices, s.placeWord start (s.reading start outcome))

/-- The tag name at an index. -/
def tagNameAt (s : Source) (start : Int) : Reading String :=
  s.reading start (Grammar.readTagName (s.suffix start))

/-- The attribute at an index. -/
def attributeAt (s : Source) (start : Int) : Reading (String × Expr) :=
  s.reading start (Grammar.readAttribute (s.suffix start))

/-- The attributes of a tag from an index on, with the notices about them.  There may be none, so
behind the text there is a match; in front of it the space between attributes is missing. -/
def attributesAt (s : Source) (tag : String) (start : Int) :
    List (Grammar.Notice × String) × Reading (NameMap Value) :=
  if start < 0 then
    let near := String.ofList (s.slice (some start) (some (start + 5)))
    ([], .faulty ((Grammar.SyntaxFault.spaceExpected tag near).failure (s.loc start)))
  else
    let list := Grammar.readAttributes tag (s.suffix start)
    let outcome := match list.ending with
      | .ok rest => Grammar.Outcome.matched list.toMap rest
      | .error fault => .faulty fault
    (s.placeNotices (list.notices tag), s.reading start outcome)

/-- The expression at an index. -/
def expressionAt (s : Source) (callAllowed : Bool) (start : Int) : Reading Expr :=
  s.reading start (Grammar.readExpression callAllowed (s.suffix start))

/-- The arguments of a call at an index. -/
def argumentsAt (s : Source) (function : String) (start : Int) : Reading (List Expr) :=
  s.reading start (Grammar.readArguments function (s.suffix start))

/-- The identifier at an index. -/
def identifierAt (s : Source) (start : Int) : Reading String :=
  s.reading start (Grammar.readIdentifier (s.suffix start))

/-- The string literal at an index. -/
def stringAt (s : Source) (start : Int) : Reading String :=
  s.reading start (Grammar.readString (s.suffix start))

/-- The space at an index. -/
def spaceAt (s : Source) (start : Int) : Reading Unit :=
  s.reading start (Grammar.readSpace (s.suffix start))

/-- The number at an index as the text writes it.  In front of the text the search begins at the
first character. -/
def numeralAt (s : Source) (start : Int) : Reading Grammar.NumberLiteral :=
  let first := max start 0
  match Grammar.readNumberLiteral (s.suffix first) with
  | some (literal, rest) => s.reading first (.matched literal rest)
  | none => .missed start

/-- The number at an index; integers of too many digits are refused. -/
def numberAt (s : Source) (start : Int) : Reading Number :=
  match s.numeralAt start with
  | .matched literal index =>
    if literal.isOverlong then .faulty (.value (.numeralTooLong literal.whole.length))
    else .matched literal.value index
  | .missed index => .missed index
  | .faulty e => .faulty e

end Source

end MarkupSpans
