import MarkupSpans.Value

/-!
# Kinds of values

A reader of an attribute names the kind of value it expects; a value of another kind counts as
absent.
-/

set_option autoImplicit false

namespace MarkupSpans

/-- A kind of value to ask for. -/
inductive Kind where
  /-- Any value. -/
  | object
  | text
  /-- An integer or a truth value. -/
  | int
  | float
  | truth
  | list
  /-- Any number, truth values included. -/
  | number
  | color
  | oneShot
  /-- Any move-only value. -/
  | moveOnly
  | handle
  deriving DecidableEq

namespace Value

/-- Whether a value is of a kind. -/
def isOf : Kind → Value → Bool
  | .object, _ => true
  | .text, .text _ => true
  | .int, .number (.int _) => true
  | .int, .number (.truth _) => true
  | .float, .number (.float _) => true
  | .truth, .number (.truth _) => true
  | .list, .list _ => true
  | .number, .number _ => true
  | .color, .color _ _ _ _ _ => true
  | .oneShot, .oneShot _ _ => true
  | .moveOnly, .oneShot _ _ => true
  | .moveOnly, .handle _ _ => true
  | .handle, .handle _ _ => true
  | _, _ => false

end Value

end MarkupSpans
