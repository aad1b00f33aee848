import MarkupSpans.Expr

/-!
# Attribute values

What an attribute of a span can hold.  Some values are objects: things that can be told apart
although they look alike, which is what `Identity` is for.  One-shots and handles are move-only:
each belongs to one attribute of one span at most.
-/

set_option autoImplicit false

namespace MarkupSpans

/-- What tells an object apart from others that look like it. -/
inductive Identity where
  /-- An object that came in with the bindings, or that a bound function made. -/
  | given (n : Nat)
  /-- An object that a call in the markup made. -/
  | made (n : Nat)
  /-- An object that no second place can hold, so that nothing asks for its identity. -/
  | unshared
  deriving DecidableEq

/-- The classes of objects that a call in the markup can make. -/
inductive Maker where
  | oneShot
  | color
  | handle
  deriving DecidableEq

/-- What an attribute holds. -/
inductive Value where
  | nothing
  | number (n : Number)
  | text (content : String)
  | list (items : List Value)
  /-- A colour: red, green, blue and opacity, none of them checked. -/
  | color (self : Identity) (r g b a : Value)
  | record (fields : List (String × Value))
  /-- A move-only callback that works once. -/
  | oneShot (self : Identity) (action : Value)
  /-- A move-only handle, with what it was made from. -/
  | handle (self : Identity) (args : List Value)
  | function (self : Identity) (name : String)
  /-- A class of objects, which a call makes one of. -/
  | maker (m : Maker)
  /-- The function that writes one particular colour in base sixteen. -/
  | hexOf (owner : Identity) (r g b a : Value)
  /-- An expression, not yet evaluated. -/
  | expr (e : Expr)

namespace Value

instance : Inhabited Value := ⟨.nothing⟩

/-- The identity of a move-only value; all other values can be copied. -/
def moveOnly? : Value → Option Identity
  | .oneShot self _ => some self
  | .handle self _ => some self
  | _ => none

/-- Whether a value is move-only. -/
def isMoveOnly (v : Value) : Bool := v.moveOnly?.isSome

/-- Whether a value can be called. -/
def isCallable : Value → Bool
  | .oneShot _ _ => true
  | .function _ _ => true
  | .maker _ => true
  | .hexOf _ _ _ _ _ => true
  | _ => false

/-- What messages call a value's sort. -/
def sortName : Value → String
  | .nothing => "NoneType"
  | .number (.truth _) => "bool"
  | .number (.int _) => "int"
  | .number (.float _) => "float"
  | .text _ => "str"
  | .list _ => "list"
  | .color _ _ _ _ _ => "RGBA"
  | .record _ => "SimpleNamespace"
  | .oneShot _ _ => "OneShot"
  | .handle _ _ => "Handle"
  | .function _ _ => "function"
  | .maker _ => "type"
  | .hexOf _ _ _ _ _ => "method"
  | .expr e => e.sortName

end Value

end MarkupSpans
