import MarkupSpans.Failure

/-!
# Sources

A text with the number of its first line, and the lines and columns of the places in it.  Places
are indices of characters; an index outside the text is allowed and shows no character there.
Lines and columns come from a search by halves in the row of the line feeds of the text.
-/

set_option autoImplicit false

namespace MarkupSpans

/-- The search among the entries from `low` to `high`, where those in front are below `x` and
those behind are not.  Each step leaves fewer entries, so as many steps as entries are enough. -/
def bisectWithin (row : List Nat) (x : Int) : Nat → Nat → Nat → Nat
  | 0, low, _ => low
  | steps + 1, low, high =>
    if low < high then
      let middle := (low + high) / 2
      if row.getD middle 0 < x then bisectWithin row x steps (middle + 1) high
      else bisectWithin row x steps low middle
    else low

/-- How many entries of a row in ascending order are below `x`. -/
def bisect (row : List Nat) (x : Int) : Nat := bisectWithin row x row.length 0 row.length

/-- How a text is to be read. -/
structure ReadOptions where
  /-- Whether text that starts no word is allowed at the end. -/
  trailingAllowed : Bool := false
  /-- What is read, to be named in places. -/
  context : Option String := none

/-- A text to be read. -/
structure Source where
  chars : List Char
  /-- The number of the first line. -/
  startLine : Int := 1
  options : ReadOptions := {}

namespace Source

/-- The number of characters. -/
def size (s : Source) : Nat := s.chars.length

/-- The character at an index. -/
def at? (s : Source) (i : Int) : Option Char := if i < 0 then none else s.chars[i.toNat]?

/-- Whether an index is at the end of the text or behind it. -/
def isEnd (s : Source) (i : Int) : Bool := decide ((s.size : Int) ≤ i)

/-- The characters in front of an index. -/
def before (s : Source) (i : Int) : List Char := s.chars.take i.toNat

/-- The characters from an index on; none before the text or behind it. -/
def suffix (s : Source) (i : Int) : List Char := if i < 0 then [] else s.chars.drop i.toNat

/-- The characters between two indices, where an absent one stands for an end of the text. -/
def slice (s : Source) (start stop : Option Int) : List Char :=
  let upTo := match stop with
    | none => s.chars
    | some j => s.before j
  match start with
  | none => upTo
  | some i => upTo.drop i.toNat

/-- The indices of the line feeds in a text whose first character has the index `start`. -/
def lineFeedsFrom (start : Nat) : List Char → List Nat
  | [] => []
  | c :: rest =>
    if c = '\n' then start :: lineFeedsFrom (start + 1) rest else lineFeedsFrom (start + 1) rest

/-- The indices of the line feeds. -/
def lineFeeds (s : Source) : List Nat := lineFeedsFrom 0 s.chars

/-- How many line feeds are in front of an index. -/
def lineIndex (s : Source) (i : Int) : Nat := bisect s.lineFeeds i

/-- The line of an index. -/
def line (s : Source) (i : Int) : Int := s.lineIndex i + s.startLine

/-- The column of an index: its distance from the last line feed in front of it. -/
def column (s : Source) (i : Int) : Int :=
  match s.lineIndex i with
  | 0 => i + 1
  | k + 1 => i - s.lineFeeds.getD k 0

/-- The place of an index as messages give it; `writeLoc` says whether it can be written. -/
def loc (s : Source) (i : Int) : String :=
  let place := Text.decimalOfInt (s.line i) ++ ":" ++ Text.decimalOfInt (s.column i)
  match s.options.context with
  | none => place
  | some context => place ++ " of " ++ context

/-- The place of an index, if its line and its column have no more digits than can be written. -/
def writeLoc (s : Source) (i : Int) : Except ValueFault String :=
  writtenIf (Text.isWritable (s.line i) && Text.isWritable (s.column i)) (s.loc i)

/-- The place where so many characters are left. -/
def locOfLeft (s : Source) (left : Nat) : String := s.loc (s.size - left)

/-- The index behind the first line feed at an index or later, or else the end of the text. -/
def nextLineStart (s : Source) (i : Int) : Nat :=
  match s.lineFeeds[s.lineIndex i]? with
  | none => s.size
  | some k => k + 1

/-- The text from an index to the end of its line, without the line feed. -/
def restOfLine (s : Source) (i : Int) : List Char :=
  ((s.slice (some i) (some (s.nextLineStart i))).reverse.dropWhile (· == '\n')).reverse

/-- The index of the end of the line of an index. -/
def lineEnd (s : Source) (i : Int) : Int := i + (s.restOfLine i).length

/-- How many characters stand in front of the first place where `needle` begins. -/
def findIn (needle : List Char) : List Char → Option Nat
  | [] => if needle.isEmpty then some 0 else none
  | c :: rest =>
    if needle.isPrefixOf (c :: rest) then some 0 else (findIn needle rest).map (· + 1)

/-- The index at or behind `start` where `needle` begins; a negative start counts from the end. -/
def find? (s : Source) (start : Int) (needle : List Char) : Option Nat :=
  let first : Nat := if start < 0 then (start + s.size).toNat else start.toNat
  if s.size < first then none else (findIn needle (s.chars.drop first)).map (first + ·)

/-- The text from an index to the next place where `needle` begins, and that place. -/
def skipTo? (s : Source) (start : Int) (needle : List Char) : Option (List Char × Nat) :=
  (s.find? start needle).map fun (i : Nat) => (s.slice (some start) (some i), i)

end Source

end MarkupSpans
