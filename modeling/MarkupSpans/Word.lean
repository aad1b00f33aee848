import MarkupSpans.NameMap
import MarkupSpans.Value.Show

/-!
# Words

The words of markup: a text, a start tag with attributes, an end tag.  A word that was read from
text knows its place.  Every word has a written form (`print`), which comes to be written (`write`)
if all integers in it are writable.
-/

set_option autoImplicit false

namespace MarkupSpans

/-- A word of markup. -/
inductive Word where
  | text (content : String) (loc : Option String)
  /-- The start of an element, with the attributes it defines. -/
  | startTag (tag : String) (attributes : NameMap Value) (loc : Option String)
  | endTag (tag : String) (loc : Option String)

namespace Word

/-- The place of a word, if it is known. -/
def loc : Word → Option String
  | .text _ loc => loc
  | .startTag _ _ loc => loc
  | .endTag _ loc => loc

/-- The word at another place. -/
def withLoc (loc : Option String) : Word → Word
  | .text content _ => .text content loc
  | .startTag tag attributes _ => .startTag tag attributes loc
  | .endTag tag _ => .endTag tag loc

/-- One attribute as a start tag writes it; a value that is no expression is shown in braces. -/
def printAttribute (fired : List Identity) (name : String) (value : Value) : String :=
  " " ++ name ++ "=" ++
    match value with
    | .expr e => e.printAttribute
    | v => "\x7b" ++ v.shown fired ++ "\x7d"

/-- The end tag with a name. -/
def printEndTag (tag : String) : String := "</" ++ tag ++ ">"

/-- The written form of a word. -/
def print (fired : List Identity) : Word → String
  | .text content _ => "\x7b" ++ quoteLiteral content ++ "\x7d"
  | .startTag tag attributes _ =>
    "<" ++ tag ++
      String.join (attributes.entries.map fun entry => printAttribute fired entry.1 entry.2) ++ ">"
  | .endTag tag _ => printEndTag tag

/-- The written form of a row of words, with blanks between them. -/
def printAll (fired : List Identity) (words : List Word) : String :=
  " ".intercalate (words.map (print fired))

/-- Whether all integers in the attributes of a word are writable. -/
def isWritable : Word → Bool
  | .startTag _ attributes _ => attributes.entries.all fun entry => entry.2.isWritable
  | _ => true

/-- The text of a word, if all integers in it are writable. -/
def write (fired : List Identity) (w : Word) : Except ValueFault String :=
  writtenIf w.isWritable (w.print fired)

/-- The text of a row of words, if all integers in it are writable. -/
def writeAll (fired : List Identity) (words : List Word) : Except ValueFault String :=
  writtenIf (words.all isWritable) (printAll fired words)

end Word

end MarkupSpans
