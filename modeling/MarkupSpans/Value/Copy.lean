import MarkupSpans.Failure
import MarkupSpans.Value

/-!
# Copies of values

A copy of a value is the same value, but a move-only one has no copy.  A deep copy copies all
that a value holds as well.
-/

set_option autoImplicit false

namespace MarkupSpans.Value

/-- A copy of a value that shares its parts. -/
def copy (v : Value) : Except Failure Value :=
  if v.isMoveOnly then .error (.moveOnlyCopy v.sortName) else .ok v

mutual

/-- The first move-only value that a deep copy of a value comes to. -/
def moveOnlyInside? : Value → Option Value
  | .list items => moveOnlyAmong? items
  | .color _ r g b a | .hexOf _ r g b a =>
    (moveOnlyInside? r).or ((moveOnlyInside? g).or ((moveOnlyInside? b).or (moveOnlyInside? a)))
  | .record fields => moveOnlyInFields? fields
  | v => if v.isMoveOnly then some v else none

/-- The first move-only value that a deep copy of some values comes to. -/
def moveOnlyAmong? : List Value → Option Value
  | [] => none
  | v :: rest => (moveOnlyInside? v).or (moveOnlyAmong? rest)

/-- The first move-only value that a deep copy of a record comes to. -/
def moveOnlyInFields? : List (String × Value) → Option Value
  | [] => none
  | (_, v) :: rest => (moveOnlyInside? v).or (moveOnlyInFields? rest)

end

/-- A copy of a value with copies of its parts. -/
def deepCopy (v : Value) : Except Failure Value :=
  match v.moveOnlyInside? with
  | some inner => .error (.moveOnlyCopy inner.sortName)
  | none => .ok v

end MarkupSpans.Value
