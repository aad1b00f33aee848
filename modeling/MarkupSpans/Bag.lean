import MarkupSpans.NameMap
import MarkupSpans.Value.Kind
import MarkupSpans.Value.Same
import MarkupSpans.Value.Show

/-!
# Attribute bags

The attributes of a span.  A reader asks for a kind of value, and a value of another kind counts
as absent.  Move-only values are never read: taking one removes it from the bag.
-/

set_option autoImplicit false

namespace MarkupSpans

/-- The attributes of a span, in the order in which their names came in. -/
structure Bag where
  /-- The names with their values. -/
  values : NameMap Value := ∅

namespace Bag

/-- Gives an attribute a value. -/
def set (bag : Bag) (name : String) (v : Value) : Bag := ⟨bag.values.insert name v⟩

/-- The value of an attribute, if it is of a kind and not move-only. -/
def get (bag : Bag) (name : String) (kind : Kind) : Value :=
  match bag.values.get? name with
  | none => .nothing
  | some v => if v.isOf kind && !v.isMoveOnly then v else .nothing

/-- Takes an attribute out of the bag, if its value is of a kind. -/
def take (bag : Bag) (name : String) (kind : Kind) : Value × Bag :=
  match bag.values.get? name with
  | none => (.nothing, bag)
  | some v => if v.isOf kind then (v, ⟨bag.values.erase name⟩) else (.nothing, bag)

/-- The names of the attributes. -/
def names (bag : Bag) : List String := bag.values.names

/-- Whether there is an attribute with a name. -/
def contains (bag : Bag) (name : String) : Bool := bag.values.contains name

/-- The number of attributes. -/
def size (bag : Bag) : Nat := bag.values.size

/-- A loop over a bag goes through the names that the bag has when the loop begins. -/
instance {m : Type → Type} [Monad m] : ForIn m Bag String where
  forIn bag init f := forIn bag.names init f

/-- Whether two bags hold equal values under equal names, in whatever order. -/
def same (bag other : Bag) : Bool := bag.values.sameBy Value.same other.values

/-- An attribute as listings show it. -/
def shownAttribute (fired : List Identity) (name : String) (v : Value) : String :=
  name ++ "=" ++ v.shown fired

/-- A bag as listings show it, with all its attributes. -/
def shown (fired : List Identity) (bag : Bag) : String :=
  let attributes := bag.values.entries.map fun entry => shownAttribute fired entry.1 entry.2
  "AttributeBag(" ++ ", ".intercalate attributes ++ ")"

end Bag

end MarkupSpans
