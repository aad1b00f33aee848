import MarkupSpans.Span
import MarkupSpans.Style.Color

/-!
# Styles of spans

How a span is to be shown: the font, the colour and the size, from its tags and attributes and
from defaults.
-/

set_option autoImplicit false

namespace MarkupSpans

namespace Style

/-- The variants of a font. -/
inductive FontVariant where
  /-- Neither bold nor italic. -/
  | regular
  | bold
  | italic
  | boldItalic
  deriving DecidableEq

/-- The name of a variant. -/
def FontVariant.name : FontVariant → String
  | .regular => "regular"
  | .bold => "bold"
  | .italic => "italic"
  | .boldItalic => "bold_italic"

/-- The variant for two choices. -/
def FontVariant.ofFlags (bold italic : Bool) : FontVariant :=
  match bold, italic with
  | true, true => .boldItalic
  | true, false => .bold
  | false, true => .italic
  | false, false => .regular

/-- What holds where a span says nothing, and the tags that make a span bold or italic. -/
structure Defaults where
  color : Value := Color.white.toValue
  fontSize : Value := .number (.float (Binary64.ofDecimal false 20 0))
  /-- The tag that makes a span bold. -/
  boldTag : String := "b"
  /-- The tag that makes a span italic. -/
  italicTag : String := "i"

/-- How a span is to be shown. -/
structure SpanStyle where
  bold : Bool
  italic : Bool
  color : Value
  fontSize : Value

/-- The variant of the font of a style. -/
def SpanStyle.font (style : SpanStyle) : FontVariant :=
  FontVariant.ofFlags style.bold style.italic

end Style

namespace Span

/-- The colour that a span asks for, as a colour or as a text. -/
def color? (span : Span) : Option Value :=
  match span.attributes.get "color" .color with
  | .nothing =>
    match span.attributes.get "color" .text with
    | .text content => (Style.Color.ofText? content).map Style.Color.toValue
    | _ => none
  | color => some color

/-- The size of the font that a span asks for, as a floating-point number.  Truth values do not
count as sizes. -/
def fontSize? (span : Span) : Except Failure (Option Value) :=
  match span.attributes.get "font_size" .number with
  | .number (.truth _) => .ok none
  | .number n =>
    match n.toBinary64? with
    | some x => .ok (some (.number (.float x)))
    | none => .error .tooLarge
  | _ => .ok none

/-- How a span is to be shown. -/
def resolveStyle (span : Span) (defaults : Style.Defaults) : Except Failure Style.SpanStyle :=
  span.fontSize?.map fun fontSize =>
    { bold := span.has defaults.boldTag
      italic := span.has defaults.italicTag
      color := span.color?.getD defaults.color
      fontSize := fontSize.getD defaults.fontSize }

end Span

end MarkupSpans
