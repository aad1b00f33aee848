import MarkupSpans.Failure
import MarkupSpans.Value

/-!
# Parts of values

What the later parts of a dotted name refer to: the fields of a record, the channels of a colour
and the function that writes it, and whether a one-shot has fired.  That function gives the text
of a colour whose channels can be any values: only whole numbers have digits in base sixteen, and
full opacity is not written.

The methods that texts, numbers, lists and functions have of their own are left out: a name that
asks for one of them stands for nothing here.
-/

set_option autoImplicit false

namespace MarkupSpans.Value

/-- The part of a value that a name refers to, where `fired` are the one-shots that have fired. -/
def part? (fired : List Identity) (name : String) : Value → Option Value
  | .record fields => fields.lookup name
  | .color self r g b a =>
    if name = "r" then some r
    else if name = "g" then some g
    else if name = "b" then some b
    else if name = "a" then some a
    else if name = "hex" then some (.hexOf self r g b a)
    else none
  | .oneShot self _ =>
    if name = "fired" then some (.number (.truth (fired.contains self))) else none
  | _ => none

/-- The digits of a colour channel in base sixteen, at least two characters. -/
def channelHex : Value → Except Failure String
  | .number n =>
    match n.toInt? with
    | some i => .ok (Text.hexOfInt 2 i)
    | none => .error (.value (.notHexadecimal (Value.number n).sortName))
  | .text content => .error (.value (.notHexadecimal (Value.text content).sortName))
  | _ => .error .wrongType

/-- Whether a channel is the full one, which needs no mention as opacity. -/
def isFullChannel : Value → Bool
  | .number n => n.same (.int 255)
  | _ => false

/-- A colour in base sixteen; full opacity is left out. -/
def colorHex (r g b a : Value) : Except Failure String := do
  let red ← r.channelHex
  let green ← g.channelHex
  let blue ← b.channelHex
  if a.isFullChannel then return "#" ++ red ++ green ++ blue
  else
    let opacity ← a.channelHex
    return "#" ++ red ++ green ++ blue ++ opacity

end MarkupSpans.Value
