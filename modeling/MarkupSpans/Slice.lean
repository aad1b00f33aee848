import MarkupSpans.Failure

/-!
# Indices and slices of rows

Negative indices count from the end of a row.  A slice goes from a start to a stop in steps; what
lies outside the row is cut off, and an absent bound stands for the end that the step comes from
or goes to.
-/

set_option autoImplicit false

namespace MarkupSpans

/-- The place of an index in a row of `size` items; a negative one counts from the end. -/
def indexIn? (size : Nat) (i : Int) : Option Nat :=
  let place := if i < 0 then i + size else i
  if 0 ≤ place ∧ place < size then some place.toNat else none

/-- The item of a row at an index; `row` says what sort of row it is. -/
def itemAt {α : Type} (row : String) (items : List α) (i : Int) : Except Failure α :=
  match (indexIn? items.length i).bind fun place => items[place]? with
  | some item => .ok item
  | none => .error (.outOfRange row)

/-- A row with another item at an index, if the index lies in the row. -/
def replaceAt {α : Type} (items : List α) (i : Int) (item : α) : List α :=
  match indexIn? items.length i with
  | some place => items.set place item
  | none => items

/-- The bounds and the step of a slice. -/
structure Slice where
  start : Option Int := none
  /-- Where the slice stops, without the item there. -/
  stop : Option Int := none
  step : Option Int := none

namespace Slice

/-- A bound of a slice moved into a row: between `low` and `high`, and from the end if it is
negative. -/
def clampBound (size : Nat) (low high : Int) (bound : Int) : Int :=
  let place := if bound < 0 then bound + size else bound
  max low (min high place)

/-- The places in a row of `size` items that a slice goes through, a step from `place` on. -/
def placesFrom (stop step : Int) : Nat → Int → List Nat
  | 0, _ => []
  | count + 1, place =>
    if (0 < step ∧ place < stop) ∨ (step < 0 ∧ stop < place) then
      place.toNat :: placesFrom stop step count (place + step)
    else []

/-- The places in a row of `size` items that a slice goes through. -/
def places (slice : Slice) (size : Nat) : Except Failure (List Nat) :=
  let step := slice.step.getD 1
  if step = 0 then .error (.value .zeroStep)
  else
    let low : Int := if step < 0 then -1 else 0
    let high : Int := if step < 0 then (size : Int) - 1 else size
    let start := match slice.start with
      | some bound => clampBound size low high bound
      | none => if step < 0 then high else low
    let stop := match slice.stop with
      | some bound => clampBound size low high bound
      | none => if step < 0 then low else high
    .ok (placesFrom stop step size start)

/-- The items of a row that a slice goes through. -/
def of {α : Type} (slice : Slice) (items : List α) : Except Failure (List α) :=
  (slice.places items.length).map fun places => places.filterMap fun place => items[place]?

end Slice

end MarkupSpans
