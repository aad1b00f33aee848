import MarkupSpans.Value.Part
import MarkupSpans.Value.Show

/-!
# Objects and calls

What changes when values are called: the state of the bound functions, the one-shots that have
fired, and the number of objects made so far.  A call of a one-shot marks it as fired before its
action runs, so that it counts as fired even if the action fails.
-/

set_option autoImplicit false

namespace MarkupSpans

/-- The bound functions, which share a state of type `σ`. -/
structure Host (σ : Type) where
  /-- The result of a function with a name, called with some arguments, and the next state. -/
  call : Identity → String → List Value → σ → Except Failure Value × σ

/-- What changes when values are called. -/
structure Store (σ : Type) where
  /-- The state of the bound functions. -/
  host : σ
  /-- The one-shots that have fired, the latest first. -/
  fired : List Identity := []
  /-- The number of objects made so far. -/
  made : Nat := 0

/-- Makes an object of a class from arguments. -/
def Maker.make {σ : Type} (m : Maker) (args : List Value) (store : Store σ) :
    Except Failure Value × Store σ :=
  let self := Identity.made store.made
  let next := { store with made := store.made + 1 }
  match m, args with
  | .oneShot, [action] => (.ok (.oneShot self action), next)
  | .color, [r, g, b] => (.ok (.color self r g b (.number (.int 255))), next)
  | .color, [r, g, b, a] => (.ok (.color self r g b a), next)
  | .handle, args => (.ok (.handle self args), next)
  | _, _ => (.error .wrongType, store)

/-- Calls a value with arguments. -/
def Value.invoke {σ : Type} (host : Host σ) (args : List Value) :
    Value → Store σ → Except Failure Value × Store σ
  | .function self name, store =>
    let (result, state) := host.call self name args store.host
    (result, { store with host := state })
  | .oneShot self action, store =>
    if store.fired.contains self then
      (.error (.alreadyFired (action.shown store.fired)), store)
    else action.invoke host args { store with fired := self :: store.fired }
  | .maker m, store => m.make args store
  | .hexOf _ r g b a, store =>
    match args with
    | [] => ((Value.colorHex r g b a).map .text, store)
    | _ => (.error .wrongType, store)
  | _, store => (.error .wrongType, store)

/-- Calls a part of a value with arguments. -/
def Value.callPart {σ : Type} (host : Host σ) (name : String) (args : List Value) (v : Value)
    (store : Store σ) : Except Failure Value × Store σ :=
  match v.part? store.fired name with
  | some callee => callee.invoke host args store
  | none => (.error .missingPart, store)

end MarkupSpans
