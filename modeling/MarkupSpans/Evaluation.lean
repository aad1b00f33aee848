import MarkupSpans.NameMap
import MarkupSpans.Store

/-!
# Evaluation of expressions

What an expression stands for among some bindings.  A call looks up what is called, checks that it
can be called, evaluates the arguments from left to right, and then calls.  What is wrong with a
name is told with the place of the tag that writes it.
-/

set_option autoImplicit false

namespace MarkupSpans

/-- The parts of a dotted name, of which there is at least one. -/
def splitDots : List Char → List (List Char)
  | [] => [[]]
  | c :: rest =>
    match splitDots rest with
    | [] => [[c]]
    | part :: parts => if c = '.' then [] :: part :: parts else (c :: part) :: parts

/-- The first part of a dotted name. -/
def headName (name : String) : String :=
  String.ofList (name.toList.takeWhile (· != '.'))

/-- The later parts of a dotted name. -/
def partNames (name : String) : List String :=
  ((splitDots name.toList).drop 1).map String.ofList

/-- An error about a name that stands for nothing. -/
def unboundReference (message : String) (loc : Option String) : CompileError :=
  ⟨.unboundReference, message, loc⟩

/-- Follows the parts of a dotted name from the value of `path` on. -/
def followParts (fired : List Identity) (loc : Option String) (path : String) (v : Value) :
    List String → Except CompileError Value
  | [] => .ok v
  | part :: rest =>
    match v.part? fired part with
    | some next => followParts fired loc (path ++ "." ++ part) next rest
    | none => .error (unboundReference ("'" ++ path ++ "' has no attribute '" ++ part ++ "'.") loc)

/-- What a dotted name stands for. -/
def resolveName (bindings : NameMap Value) (fired : List Identity) (loc : Option String)
    (name : String) : Except CompileError Value :=
  let head := headName name
  match bindings.get? head with
  | some v => followParts fired loc head v (partNames name)
  | none =>
    .error (unboundReference ("'" ++ head ++ "' isn't bound; pass it to the compiler.") loc)

/-- What a call calls, if that can be called. -/
def resolveCallee (bindings : NameMap Value) (fired : List Identity) (loc : Option String)
    (name : String) : Except CompileError Value :=
  match resolveName bindings fired loc name with
  | .error e => .error e
  | .ok callee =>
    if callee.isCallable then .ok callee
    else
      .error (unboundReference
        ("'" ++ name ++ "' is bound to a " ++ callee.sortName ++ ", which isn't callable.") loc)

namespace Expr

variable {σ : Type}

mutual

/-- The value of an expression among bindings; `loc` is the place of the tag that writes it. -/
def evaluate (host : Host σ) (bindings : NameMap Value) (loc : Option String) :
    Expr → Store σ → Except Failure Value × Store σ
  | .text content, store => (.ok (.text content), store)
  | .number n, store => (.ok (.number n), store)
  | .ref name, store => ((resolveName bindings store.fired loc name).mapError .compile, store)
  | .call name args, store =>
    match resolveCallee bindings store.fired loc name with
    | .error e => (.error (.compile e), store)
    | .ok callee =>
      match evaluateAll host bindings loc args store with
      | (.error e, store') => (.error e, store')
      | (.ok values, store') => callee.invoke host values store'

/-- The values of several expressions, from left to right. -/
def evaluateAll (host : Host σ) (bindings : NameMap Value) (loc : Option String) :
    List Expr → Store σ → Except Failure (List Value) × Store σ
  | [], store => (.ok [], store)
  | e :: rest, store =>
    match e.evaluate host bindings loc store with
    | (.error failure, store') => (.error failure, store')
    | (.ok v, store') =>
      match evaluateAll host bindings loc rest store' with
      | (.error failure, store'') => (.error failure, store'')
      | (.ok values, store'') => (.ok (v :: values), store'')

end

end Expr

end MarkupSpans
