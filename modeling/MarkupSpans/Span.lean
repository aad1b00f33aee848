import MarkupSpans.Bag

/-!
# Spans

What markup is compiled to: texts in the order of the markup, each with the tags of the elements
around it and the attributes they define.
-/

set_option autoImplicit false

namespace MarkupSpans

/-- A text with all that the elements around it say. -/
structure Span where
  text : String
  /-- The tags of the elements around it, outermost first. -/
  tags : List String := []
  /-- The attributes that the elements around it define. -/
  attributes : Bag := {}
  /-- The place of the text in the markup, if it is known. -/
  loc : Option String := none

/-- A row of shown items, in parentheses; a single one is followed by a comma. -/
def shownTuple : List String → String
  | [] => "()"
  | [one] => "(" ++ one ++ ",)"
  | items => "(" ++ ", ".intercalate items ++ ")"

namespace Span

/-- Whether an element with a tag is around the span. -/
def has (span : Span) (tag : String) : Bool := span.tags.contains tag

/-- Whether two spans have the same text, tags, attributes and place. -/
def same (span other : Span) : Bool :=
  span.text == other.text && span.tags == other.tags && span.attributes.same other.attributes &&
    span.loc == other.loc

/-- A span as listings show it. -/
def shown (fired : List Identity) (span : Span) : String :=
  "Span(text=" ++ Text.quoted span.text ++ ", tags=" ++ shownTuple (span.tags.map Text.quoted) ++
    ", attributes=" ++ span.attributes.shown fired ++ ", loc=" ++
    ((span.loc.map Text.quoted).getD "None") ++ ")"

end Span

/-- The spans of some markup, in order. -/
abbrev Spans := List Span

namespace Spans

/-- All texts together. -/
def text (spans : Spans) : String := String.join (spans.map Span.text)

/-- Whether two rows of spans are the same, one by one. -/
def same : Spans → Spans → Bool
  | [], [] => true
  | x :: xs, y :: ys => x.same y && Spans.same xs ys
  | _, _ => false

/-- Spans as listings show them. -/
def shown (fired : List Identity) (spans : Spans) : String :=
  "Spans([" ++ ", ".intercalate (spans.map (Span.shown fired)) ++ "])"

/-- The index of the first span that is the same as a given one. -/
def indexOf? (spans : Spans) (span : Span) : Option Nat := spans.findIdx? (·.same span)

/-- The number of spans that are the same as a given one. -/
def count (spans : Spans) (span : Span) : Nat := spans.countP (·.same span)

/-- Whether one of the spans is the same as a given one. -/
def contains (spans : Spans) (span : Span) : Bool := spans.any (·.same span)

end Spans

end MarkupSpans
