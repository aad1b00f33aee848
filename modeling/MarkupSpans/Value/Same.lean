import MarkupSpans.Value

/-!
# Sameness of values

When two values count as equal.  Numbers count by value, texts, rows, colours, records and
expressions by what they hold, and functions and move-only objects by identity.
-/

set_option autoImplicit false

namespace MarkupSpans.Value

mutual

/-- Whether two values count as equal. -/
def same : Value → Value → Bool
  | .nothing, .nothing => true
  | .number m, .number n => m.same n
  | .text s, .text t => s == t
  | .list xs, .list ys => sameItems xs ys
  | .color _ r g b a, .color _ r' g' b' a' => r.same r' && g.same g' && b.same b' && a.same a'
  | .record fields, .record fields' =>
    fields.length == fields'.length && sameFields fields fields'
  | .oneShot i _, .oneShot j _ => i == j
  | .handle i _, .handle j _ => i == j
  | .function i _, .function j _ => i == j
  | .maker m, .maker n => m == n
  | .hexOf i _ _ _ _, .hexOf j _ _ _ _ => i == j
  | .expr e, .expr f => e.same f
  | _, _ => false

/-- Whether two rows of values are equal, one by one. -/
def sameItems : List Value → List Value → Bool
  | [], [] => true
  | x :: xs, y :: ys => x.same y && sameItems xs ys
  | _, _ => false

/-- Whether each field of a first record has an equal value in a second one. -/
def sameFields : List (String × Value) → List (String × Value) → Bool
  | [], _ => true
  | (name, x) :: rest, fields =>
    (match fields.lookup name with
      | some y => x.same y
      | none => false) && sameFields rest fields

end

end MarkupSpans.Value
