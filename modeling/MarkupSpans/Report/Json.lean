import MarkupSpans.Text.Numeral

/-!
# JSON text

Strings and flat objects of JSON in ASCII: all characters outside the printable range of ASCII are
escaped, those beyond sixteen bits as a pair of surrogates.

A text that is put into JSON is a row of code points.  Nearly always they are all characters, but
half a pair of surrogates is a code point too.
-/

set_option autoImplicit false

namespace MarkupSpans.Report

/-- One code point of a text. -/
inductive CodePoint where
  | char (c : Char)
  /-- The first half of a pair of surrogates, by its distance from the first one of them. -/
  | high (n : Fin 0x400)
  /-- The second half of a pair of surrogates, by its distance from the first one of them. -/
  | low (n : Fin 0x400)
  deriving DecidableEq

/-- A text that may hold halves of pairs of surrogates. -/
abbrev CodeText := List CodePoint

/-- A text of characters. -/
def CodeText.ofString (text : String) : CodeText := text.toList.map .char

namespace Json

/-- One unit of sixteen bits as an escape. -/
def escapeUnit (n : Nat) : List Char := '\\' :: 'u' :: Text.padZeros 4 (Nat.toDigits 16 n)

/-- One character of a string of JSON. -/
def escapeChar (c : Char) : List Char :=
  if c = '\x22' ∨ c = '\\' then ['\\', c]
  else if c = '\n' then ['\\', 'n']
  else if c = '\r' then ['\\', 'r']
  else if c = '\t' then ['\\', 't']
  else if c = '\x08' then ['\\', 'b']
  else if c = '\x0c' then ['\\', 'f']
  else if 0x20 ≤ c.toNat ∧ c.toNat < 0x7f then [c]
  else if c.toNat < 0x10000 then escapeUnit c.toNat
  else
    let offset := c.toNat - 0x10000
    escapeUnit (0xd800 + offset / 0x400) ++ escapeUnit (0xdc00 + offset % 0x400)

/-- One code point of a string of JSON. -/
def escapePoint : CodePoint → List Char
  | .char c => escapeChar c
  | .high n => escapeUnit (0xd800 + n)
  | .low n => escapeUnit (0xdc00 + n)

/-- A string of JSON. -/
def string (text : CodeText) : String :=
  String.ofList ('\x22' :: (text.flatMap escapePoint ++ ['\x22']))

/-- An object of JSON, of names and written values. -/
def object (fields : List (String × String)) : String :=
  "\x7b" ++ ", ".intercalate (fields.map fun field => string (.ofString field.1) ++ ": " ++ field.2)
    ++ "\x7d"

/-- A text of characters is escaped character by character. -/
theorem toList_string_ofString (text : String) :
    (string (.ofString text)).toList = '\x22' :: (text.toList.flatMap escapeChar ++ ['\x22']) := by
  rw [string, String.toList_ofList, CodeText.ofString, List.flatMap_map]
  rfl

end Json

end MarkupSpans.Report
