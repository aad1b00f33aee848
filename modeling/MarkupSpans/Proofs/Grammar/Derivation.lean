import MarkupSpans.Grammar.Tokens
import MarkupSpans.Source

/-!
# Derivations of the markup grammar

The grammar of markup as a type of derivation trees.  A tree has the characters that it derives
(`chars`) and denotes expressions and words; nothing here refers to the readers.  The rules are

* markup: space, then words with space behind each;
* text: `{`, space, string, space, `}`;
* start tag: `<`, name, attributes with space in front of each, space, `>`;
* end tag: `</`, name, space, `>`;
* attribute: name, space, `=`, space, and a string, a number or an identifier, or an expression
  in braces with space around it;
* expression: string, number, identifier, or an identifier, space and arguments in parentheses,
  with commas between them and space around each.

Space may be absent everywhere but in front of an attribute.  Between empty parentheses there is
one run of space.

The grammar puts no limit on numbers.  The readers do, so each tree also lists its numbers as they
are written (`numerals`), and names the first integer that is too long to be read (`overlong?`).
-/

set_option autoImplicit false

namespace MarkupSpans.Grammar

open Text

/-! ## Lexical items -/

/-- Space that may be absent. -/
abbrev Space := {cs : List Char // ∀ c ∈ cs, isSpace c = true}

/-- Space of at least one character. -/
abbrev Gap := {cs : List Char // cs ≠ [] ∧ ∀ c ∈ cs, isSpace c = true}

/-- Space, from a row of characters that evaluates to be space. -/
def Space.of (cs : List Char) (h : cs.all isSpace = true) : Space := ⟨cs, List.all_eq_true.mp h⟩

/-- A gap, from a row of characters that evaluates to be one. -/
def Gap.of (cs : List Char) (hne : cs ≠ []) (h : cs.all isSpace = true) : Gap :=
  ⟨cs, hne, List.all_eq_true.mp h⟩

/-- Such space has the characters it was made from. -/
@[simp]
theorem Space.val_of (cs : List Char) (h : cs.all isSpace = true) : (Space.of cs h).val = cs := rfl

/-- Such a gap has the characters it was made from. -/
@[simp]
theorem Gap.val_of (cs : List Char) (hne : cs ≠ []) (h : cs.all isSpace = true) :
    (Gap.of cs hne h).val = cs := rfl

/-- A letter, then letters, digits, hyphens and underscores. -/
def IsTagName (cs : List Char) : Prop :=
  ∃ (c : Char) (rest : List Char), cs = c :: rest ∧ isLetter c = true ∧
    ∀ d ∈ rest, isTagNameChar d = true

/-- Letters, digits, hyphens and underscores, at least one character. -/
def IsAttributeName (cs : List Char) : Prop := cs ≠ [] ∧ ∀ c ∈ cs, isAttributeNameChar c = true

/-- Names with dots between them; each name is a letter or an underscore, then letters, digits and
underscores. -/
inductive IsIdentifier : List Char → Prop
  /-- A single name. -/
  | part {c : Char} {rest : List Char} (hc : isIdentifierStart c = true)
      (hrest : ∀ d ∈ rest, isIdentifierChar d = true) : IsIdentifier (c :: rest)
  /-- A name, a dot and more names. -/
  | dot {c : Char} {rest more : List Char} (hc : isIdentifierStart c = true)
      (hrest : ∀ d ∈ rest, isIdentifierChar d = true) (hmore : IsIdentifier more) :
      IsIdentifier (c :: rest ++ '.' :: more)

/-- Any characters but the quote, between two equal quotes. -/
structure StringTree where
  quote : Char
  content : List Char
  isQuote_quote : isQuote quote = true
  quote_notMem : quote ∉ content

/-- The characters of a string. -/
def StringTree.chars (s : StringTree) : List Char := s.quote :: (s.content ++ [s.quote])

/-- Decimal digits of any script, with or without a point and more digits; in front stands a minus
sign or a digit of ASCII. -/
structure NumberLiteral.WellFormed (n : NumberLiteral) : Prop where
  whole_ne_nil : n.whole ≠ []
  isDecimalDigit_whole : ∀ c ∈ n.whole, isDecimalDigit c = true
  isDecimalDigit_fraction : ∀ c ∈ n.fraction, isDecimalDigit c = true
  isDigit_head : n.negative = true ∨ ∀ c ∈ n.whole.head?, isDigit c = true

/-! ## Expressions -/

mutual

/-- An expression. -/
inductive ExprTree where
  | text (s : StringTree)
  | number (n : NumberLiteral) (h : n.WellFormed)
  | ref (name : List Char) (h : IsIdentifier name)
  | emptyCall (name : List Char) (h : IsIdentifier name) (before inside : Space)
  | call (name : List Char) (h : IsIdentifier name) (before inside : Space) (args : ArgsTree)

/-- One argument or more, with the closing parenthesis. -/
inductive ArgsTree where
  | last (e : ExprTree) (after : Space)
  | more (e : ExprTree) (after before : Space) (rest : ArgsTree)

end

mutual

/-- The characters of an expression. -/
def ExprTree.chars : ExprTree → List Char
  | .text s => s.chars
  | .number n _ => n.chars
  | .ref name _ => name
  | .emptyCall name _ before inside => name ++ (before ++ '(' :: (inside ++ [')']))
  | .call name _ before inside args => name ++ (before ++ '(' :: (inside ++ args.chars))

/-- The characters of arguments. -/
def ArgsTree.chars : ArgsTree → List Char
  | .last e after => e.chars ++ (after ++ [')'])
  | .more e after before rest => e.chars ++ (after ++ ',' :: (before ++ rest.chars))

end

mutual

/-- The expression that a tree denotes: a string verbatim, a number by the values of its
digits. -/
def ExprTree.expr : ExprTree → Expr
  | .text s => .text (String.ofList s.content)
  | .number n _ => .number n.value
  | .ref name _ => .ref (String.ofList name)
  | .emptyCall name _ _ _ => .call (String.ofList name) []
  | .call name _ _ _ args => .call (String.ofList name) args.exprs

/-- The expressions that arguments denote. -/
def ArgsTree.exprs : ArgsTree → List Expr
  | .last e _ => [e.expr]
  | .more e _ _ rest => e.expr :: rest.exprs

end

mutual

/-- The numbers of an expression as they are written, in the order of the text. -/
def ExprTree.numerals : ExprTree → List NumberLiteral
  | .number n _ => [n]
  | .call _ _ _ _ args => args.numerals
  | _ => []

/-- The numbers of arguments as they are written. -/
def ArgsTree.numerals : ArgsTree → List NumberLiteral
  | .last e _ => e.numerals
  | .more e _ _ rest => e.numerals ++ rest.numerals

end

/-- The first integer of too many digits among some numbers. -/
def firstOverlong (numerals : List NumberLiteral) : Option NumberLiteral :=
  numerals.find? NumberLiteral.isOverlong

/-- Of two rows of numbers the first one that has an overlong integer tells which is the first. -/
theorem firstOverlong_append (numerals more : List NumberLiteral) :
    firstOverlong (numerals ++ more) = (firstOverlong numerals).or (firstOverlong more) :=
  List.find?_append

/-- The first integer of an expression that is too long to be read. -/
def ExprTree.overlong? (e : ExprTree) : Option NumberLiteral := firstOverlong e.numerals

/-- The first integer of arguments that is too long to be read. -/
def ArgsTree.overlong? (args : ArgsTree) : Option NumberLiteral := firstOverlong args.numerals

/-- Whether an expression is a call. -/
def ExprTree.isCall : ExprTree → Bool
  | .emptyCall _ _ _ _ => true
  | .call _ _ _ _ _ => true
  | _ => false

/-! ## Attributes -/

/-- The value of an attribute. -/
inductive ValueTree where
  /-- A string, a number or an identifier. -/
  | bare (e : ExprTree) (h : e.isCall = false)
  /-- An expression in braces. -/
  | braced (before : Space) (e : ExprTree) (after : Space)

/-- The characters of a value. -/
def ValueTree.chars : ValueTree → List Char
  | .bare e _ => e.chars
  | .braced before e after => '{' :: (before ++ (e.chars ++ (after ++ ['}'])))

/-- The expression of a value. -/
def ValueTree.tree : ValueTree → ExprTree
  | .bare e _ => e
  | .braced _ e _ => e

/-- The expression that a value denotes. -/
def ValueTree.expr (v : ValueTree) : Expr := v.tree.expr

/-- An attribute. -/
structure AttributeTree where
  name : {cs : List Char // IsAttributeName cs}
  /-- The space in front of the equals sign and behind it. -/
  (before after : Space)
  value : ValueTree

/-- The characters of an attribute. -/
def AttributeTree.chars (a : AttributeTree) : List Char :=
  a.name ++ (a.before ++ '=' :: (a.after ++ a.value.chars))

/-- The characters of some attributes, with the space in front of each. -/
def attributesChars (attributes : List (Gap × AttributeTree)) : List Char :=
  attributes.flatMap fun a => a.1 ++ a.2.chars

/-- The names and the values of some attributes. -/
def attributesPairs (attributes : List (Gap × AttributeTree)) : List (String × Expr) :=
  attributes.map fun a => (String.ofList a.2.name, a.2.value.expr)

/-- The numbers of some attributes as they are written. -/
def attributesNumerals (attributes : List (Gap × AttributeTree)) : List NumberLiteral :=
  attributes.flatMap fun a => a.2.value.tree.numerals

/-! ## Words -/

/-- A word. -/
inductive WordTree where
  | text (before : Space) (s : StringTree) (after : Space)
  | startTag (name : {cs : List Char // IsTagName cs}) (attributes : List (Gap × AttributeTree))
      (after : Space)
  | endTag (name : {cs : List Char // IsTagName cs}) (after : Space)

namespace WordTree

/-- The characters of a word. -/
def chars : WordTree → List Char
  | text before s after => '{' :: (before ++ (s.chars ++ (after ++ ['}'])))
  | startTag name attributes after =>
    '<' :: (name ++ (attributesChars attributes ++ (after ++ ['>'])))
  | endTag name after => '<' :: '/' :: (name ++ (after ++ ['>']))

/-- The word that a tree denotes; of a repeated attribute the last value counts, at the first
place. -/
def word : WordTree → Word
  | text _ s _ => .text (String.ofList s.content) none
  | startTag name attributes _ =>
    .startTag (String.ofList name)
      (.ofList ((attributesPairs attributes).map fun pair => (pair.1, .expr pair.2))) none
  | endTag name _ => .endTag (String.ofList name) none

/-- The numbers of a word as they are written. -/
def numerals : WordTree → List NumberLiteral
  | startTag _ attributes _ => attributesNumerals attributes
  | _ => []

/-- The first integer of a word that is too long to be read. -/
def overlong? (t : WordTree) : Option NumberLiteral := firstOverlong t.numerals

end WordTree

/-- Words with the space behind each. -/
abbrev WordTrees := List (WordTree × Space)

/-- The characters of some words and the space behind each. -/
def WordTrees.chars (words : WordTrees) : List Char := words.flatMap fun w => w.1.chars ++ w.2

/-- The numbers of some words as they are written. -/
def WordTrees.numerals (words : WordTrees) : List NumberLiteral :=
  words.flatMap fun w => w.1.numerals

/-- The first integer of some words that is too long to be read. -/
def WordTrees.overlong? (words : WordTrees) : Option NumberLiteral := firstOverlong words.numerals

/-- The words of a source from some place on, each with the place where it begins. -/
def WordTrees.words (s : Source) : Nat → WordTrees → List Word
  | _, [] => []
  | start, (w, after) :: rest =>
    w.word.withLoc (some (s.loc start)) ::
      WordTrees.words s (start + (w.chars ++ after).length) rest

/-- A whole text. -/
structure MarkupTree where
  before : Space
  trees : WordTrees

namespace MarkupTree

/-- The characters of a text. -/
def chars (t : MarkupTree) : List Char := t.before ++ WordTrees.chars t.trees

/-- The words of a text, with their places in a source. -/
def words (t : MarkupTree) (s : Source) : List Word :=
  WordTrees.words s t.before.val.length t.trees

/-- The first integer of a text that is too long to be read. -/
def overlong? (t : MarkupTree) : Option NumberLiteral := t.trees.overlong?

end MarkupTree

end MarkupSpans.Grammar
