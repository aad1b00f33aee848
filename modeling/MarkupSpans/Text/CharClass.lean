/-!
# Character classes

The classes of the markup grammar, and the wider set of blanks that is trimmed from both ends of a
colour.  The classes of the grammar lie inside ASCII, but for the decimal digits of numbers
(`isDecimalDigit`).
-/

set_option autoImplicit false

namespace MarkupSpans.Text

/-- Space between words and inside tags: blank, tab, line feed, carriage return, form feed. -/
def isSpace (c : Char) : Bool :=
  c == ' ' || c == '\t' || c == '\n' || c == '\r' || c == '\x0c'

/-- A letter, the first character of a tag name. -/
def isLetter (c : Char) : Bool := c.isAlpha

/-- A digit of ASCII. -/
def isDigit (c : Char) : Bool := c.isDigit

/-- A letter or a digit. -/
def isAlphanumeric (c : Char) : Bool := c.isAlpha || c.isDigit

/-- A later character of a tag name. -/
def isTagNameChar (c : Char) : Bool := isAlphanumeric c || c == '-' || c == '_'

/-- A character of an attribute name, the first one included. -/
def isAttributeNameChar (c : Char) : Bool := isTagNameChar c

/-- The first character of a part of an identifier. -/
def isIdentifierStart (c : Char) : Bool := isLetter c || c == '_'

/-- A later character of a part of an identifier. -/
def isIdentifierChar (c : Char) : Bool := isAlphanumeric c || c == '_'

/-- A quote that opens and closes a string literal. -/
def isQuote (c : Char) : Bool := c == '\x22' || c == '\x27'

/-- A tag name goes on with whatever it may start with. -/
theorem isTagNameChar_of_isLetter {c : Char} (h : isLetter c = true) :
    isTagNameChar c = true := by
  simp only [isLetter] at h
  simp [isTagNameChar, isAlphanumeric, h]

/-- An identifier goes on with whatever it may start with. -/
theorem isIdentifierChar_of_isIdentifierStart {c : Char} (h : isIdentifierStart c = true) :
    isIdentifierChar c = true := by
  simp only [isIdentifierStart, isLetter, Bool.or_eq_true] at h
  rcases h with h | h <;> simp [isIdentifierChar, isAlphanumeric, h]

/-! ## Blanks -/

/-- White space: the blank controls, the file and unit separators, and Unicode's spaces. -/
def isBlank (c : Char) : Bool :=
  let n := c.toNat
  (0x09 ≤ n && n ≤ 0x0d) || (0x1c ≤ n && n ≤ 0x20) || n == 0x85 || n == 0xa0 || n == 0x1680 ||
    (0x2000 ≤ n && n ≤ 0x200a) || n == 0x2028 || n == 0x2029 || n == 0x202f || n == 0x205f ||
    n == 0x3000

/-- Text without the blanks at its two ends. -/
def trimBlanks (cs : List Char) : List Char :=
  ((cs.dropWhile isBlank).reverse.dropWhile isBlank).reverse

end MarkupSpans.Text
