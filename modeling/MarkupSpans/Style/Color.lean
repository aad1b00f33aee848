import MarkupSpans.Store
import MarkupSpans.Text.CharClass
import MarkupSpans.Text.Numeral

/-!
# Colours in base sixteen

A colour is written as three, six or eight digits in base sixteen, with or without a number sign
in front and blanks around.  Of three digits each stands for two equal ones; the last two of
eight are the opacity, which is full otherwise.  `colorHex_eq_hex` says that a colour is written
like the value that stands for it.
-/

set_option autoImplicit false

namespace MarkupSpans.Style

/-- A colour of four channels. -/
structure Color where
  r : Nat
  g : Nat
  b : Nat
  /-- Opacity, 255 for a full one. -/
  a : Nat := 255
  deriving DecidableEq

namespace Color

/-- White, fully opaque. -/
def white : Color := ⟨255, 255, 255, 255⟩

/-- A colour as the value of an attribute that no other place holds. -/
def toValue (c : Color) : Value :=
  .color .unshared (.number (.int c.r)) (.number (.int c.g)) (.number (.int c.b))
    (.number (.int c.a))

/-- A colour of digit values in base sixteen: three, six or eight of them. -/
def ofDigits? : List Nat → Option Color
  | [r, g, b] => some ⟨16 * r + r, 16 * g + g, 16 * b + b, 255⟩
  | [r, r', g, g', b, b'] => some ⟨16 * r + r', 16 * g + g', 16 * b + b', 255⟩
  | [r, r', g, g', b, b', a, a'] => some ⟨16 * r + r', 16 * g + g', 16 * b + b', 16 * a + a'⟩
  | _ => none

/-- Reads a colour from a text. -/
def ofText? (text : String) : Option Color :=
  let trimmed := Text.trimBlanks text.toList
  let digits := if trimmed.head? == some '#' then trimmed.drop 1 else trimmed
  (digits.mapM Text.hexDigitValue?).bind ofDigits?

/-- A colour in base sixteen; full opacity is left out. -/
def hex (c : Color) : String :=
  let channels := if c.a = 255 then [c.r, c.g, c.b] else [c.r, c.g, c.b, c.a]
  "#" ++ String.join (channels.map (Text.hexOfNat 2))

/-- Of the whole channels only 255 is the full one. -/
theorem isFullChannel_int (n : Nat) :
    (Value.number (.int n)).isFullChannel = decide (n = 255) := by
  by_cases h : n = 255
  · subst h
    rfl
  · have hne : (((n : Int) : Rat) == ((255 : Int) : Rat)) = false := by
      rw [beq_eq_false_iff_ne, ne_eq, Rat.intCast_inj]
      omega
    rw [decide_eq_false h]
    exact hne

/-- A whole channel is written in base sixteen. -/
theorem channelHex_int (n : Nat) :
    (Value.number (.int n)).channelHex = .ok (Text.hexOfNat 2 n) := by
  have h : ¬ ((n : Int) < 0) := by omega
  simp [Value.channelHex, Number.toInt?, Text.hexOfInt, h]

/-- The value that stands for a colour is written as the colour is. -/
theorem colorHex_eq_hex (c : Color) :
    Value.colorHex (.number (.int c.r)) (.number (.int c.g)) (.number (.int c.b))
      (.number (.int c.a)) = .ok c.hex := by
  simp only [Value.colorHex, channelHex_int, isFullChannel_int, Color.hex, bind, Except.bind, pure,
    Except.pure]
  by_cases h : c.a = 255
  · simp [h, String.join, String.append_assoc]
  · simp [h, String.join, String.append_assoc]

end Color

end MarkupSpans.Style
