import MarkupSpans.Text.Quoted
import MarkupSpans.Value

/-!
# How values are shown

The text that stands for a value in messages and in listings of spans.  A one-shot shows whether
it has fired, so the identities of those that have are an argument.  Integers of any size are
shown; `isWritable` says whether a value shows only such as can be written.
-/

set_option autoImplicit false

namespace MarkupSpans

mutual

/-- An expression shown by its sort and its parts. -/
def Expr.shown : Expr → String
  | .text content => "StringValue(value=" ++ Text.quoted content ++ ")"
  | .number n => "NumberValue(value=" ++ n.text ++ ")"
  | .ref name => "Reference(name=" ++ Text.quoted name ++ ")"
  | .call name args =>
    let shown := Expr.shownAll args
    let inner := match shown with
      | [one] => one ++ ","
      | _ => ", ".intercalate shown
    "Call(name=" ++ Text.quoted name ++ ", args=(" ++ inner ++ "))"

/-- Several expressions, each shown by its sort and its parts. -/
def Expr.shownAll : List Expr → List String
  | [] => []
  | e :: rest => e.shown :: Expr.shownAll rest

end

/-- The name of a class of objects in full. -/
def Maker.shown : Maker → String
  | .oneShot => "<class 'htmllite.spans.bag.OneShot'>"
  | .color => "<class 'htmllite.style.RGBA'>"
  | .handle => "<class 'Handle'>"

namespace Value

mutual

/-- A value as messages show it. -/
def shown (fired : List Identity) : Value → String
  | .nothing => "None"
  | .number n => n.text
  | .text content => Text.quoted content
  | .list items => "[" ++ ", ".intercalate (shownItems fired items) ++ "]"
  | .color _ r g b a => "RGBA(r=" ++ r.shown fired ++ ", g=" ++ g.shown fired ++ ", b=" ++
      b.shown fired ++ ", a=" ++ a.shown fired ++ ")"
  | .record fields => "namespace(" ++ ", ".intercalate (shownFields fired fields) ++ ")"
  | .oneShot self action => "<OneShot " ++ action.shown fired ++
      (if fired.contains self then " (fired)>" else " (armed)>")
  | .handle _ _ => "<Handle>"
  | .function _ name => "<fn " ++ name ++ ">"
  | .maker m => m.shown
  | .hexOf _ r g b a => "<bound method RGBA.hex of RGBA(r=" ++ r.shown fired ++ ", g=" ++
      g.shown fired ++ ", b=" ++ b.shown fired ++ ", a=" ++ a.shown fired ++ ")>"
  | .expr e => e.shown

/-- Several values as messages show them. -/
def shownItems (fired : List Identity) : List Value → List String
  | [] => []
  | v :: rest => v.shown fired :: shownItems fired rest

/-- The fields of a record as messages show them; a field whose name is empty is left out. -/
def shownFields (fired : List Identity) : List (String × Value) → List String
  | [] => []
  | (name, v) :: rest =>
    if name.isEmpty then shownFields fired rest
    else (name ++ "=" ++ v.shown fired) :: shownFields fired rest

end

mutual

/-- Whether all integers that a value shows are writable. -/
def isWritable : Value → Bool
  | .number n => n.isWritable
  | .list items => areWritable items
  | .color _ r g b a => r.isWritable && g.isWritable && b.isWritable && a.isWritable
  | .record fields => fieldsWritable fields
  | .oneShot _ action => action.isWritable
  | .hexOf _ r g b a => r.isWritable && g.isWritable && b.isWritable && a.isWritable
  | .expr e => e.isWritable
  | _ => true

/-- Whether all integers that some values show are writable. -/
def areWritable : List Value → Bool
  | [] => true
  | v :: rest => v.isWritable && areWritable rest

/-- Whether all integers that the fields of a record show are writable. -/
def fieldsWritable : List (String × Value) → Bool
  | [] => true
  | (name, v) :: rest => (name.isEmpty || v.isWritable) && fieldsWritable rest

end

end Value

end MarkupSpans
