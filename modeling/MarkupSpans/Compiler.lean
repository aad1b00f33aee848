import MarkupSpans.Evaluation
import MarkupSpans.Scope
import MarkupSpans.Span
import MarkupSpans.Word

/-!
# Compiling words to spans

A compiler is fed words and keeps track of the open elements; every text word becomes a span, for
which the attributes in force are evaluated, in the order of their names.  A move-only value
belongs to the first attribute of the first span that comes by it, and a second claim is an error.
A compile error ends the compiler for good.
-/

set_option autoImplicit false

namespace MarkupSpans

/-- How far a compiler has come. -/
inductive CompilerState where
  /-- No element is open. -/
  | ready
  /-- An element is open. -/
  | inScope
  | failed
  | finished
  deriving DecidableEq

namespace CompilerState

/-- The name of a state. -/
def name : CompilerState → String
  | .ready => "ready"
  | .inScope => "in scope"
  | .failed => "failed"
  | .finished => "finished"

/-- Whether a compiler can do nothing more. -/
def isTerminal : CompilerState → Bool
  | .failed => true
  | .finished => true
  | _ => false

end CompilerState

/-- The claim of an attribute on a move-only value. -/
structure Claim where
  spanIndex : Nat
  name : String
  spanLoc : Option String

/-- The claims so far, by the identity of what is claimed. -/
abbrev Claims := List (Identity × Claim)

/-- The state of a compilation. -/
structure Compiler where
  /-- What names in attribute values refer to. -/
  bindings : NameMap Value := ∅
  scopes : ScopeStack := {}
  spans : Spans := []
  /-- How far the compilation has come. -/
  state : CompilerState := .ready
  owned : Claims := []

/-- The first of two places that is there and not empty, or else the second one. -/
def placeOr (loc other : Option String) : Option String :=
  match loc with
  | none => other
  | some place => if place.isEmpty then other else some place

/-- How messages name the owner of a move-only value, seen from a span. -/
def Claim.describe (claim : Claim) (spanIndex : Nat) : String :=
  if claim.spanIndex = spanIndex then "attribute '" ++ claim.name ++ "' of the same span"
  else
    match placeOr claim.spanLoc none with
    | some loc => "another span, at " ++ loc
    | none => "another, earlier span"

/-- The error of a second claim on a move-only value. -/
def sharedError (name sortName owner : String) (loc : Option String) : CompileError :=
  ⟨.sharedResource,
    "Attribute '" ++ name ++ "' holds a move-only " ++ sortName ++
      " that already belongs to " ++ owner ++ ". Construct it inline (like " ++ name ++
      "=\x7bFactory(...)\x7d) so each owner gets its own.", loc⟩

/-- Claims a value for an attribute of the span at `spanIndex`, if it is move-only. -/
def claimValue (spanIndex : Nat) (spanLoc tagLoc : Option String) (name : String) (v : Value)
    (owned : Claims) : Except CompileError Claims :=
  match v.moveOnly? with
  | none => .ok owned
  | some self =>
    match owned.lookup self with
    | some earlier =>
      .error (sharedError name v.sortName (earlier.describe spanIndex) (placeOr tagLoc spanLoc))
    | none => .ok ((self, ⟨spanIndex, name, spanLoc⟩) :: owned)

section Attributes

variable {σ : Type}

/-- The value of an attribute in force: an expression is evaluated. -/
def attributeValue (host : Host σ) (bindings : NameMap Value) (tagLoc : Option String)
    (v : Value) (store : Store σ) : Except Failure Value × Store σ :=
  match v with
  | .expr e => e.evaluate host bindings tagLoc store
  | v => (.ok v, store)

/-- Evaluates and claims attributes one after the other, and puts them into a bag. -/
def gatherAttributes (host : Host σ) (bindings : NameMap Value) (scopes : ScopeStack)
    (spanIndex : Nat) (spanLoc : Option String) :
    List (String × Value) → Bag → Claims → Store σ → Except Failure Bag × Claims × Store σ
  | [], bag, owned, store => (.ok bag, owned, store)
  | (name, written) :: rest, bag, owned, store =>
    let tagLoc := (scopes.definingEntry? name).bind ScopeEntry.loc
    match attributeValue host bindings tagLoc written store with
    | (.error e, store') => (.error e, owned, store')
    | (.ok v, store') =>
      match claimValue spanIndex spanLoc tagLoc name v owned with
      | .error e => (.error (.compile e), owned, store')
      | .ok owned' =>
        gatherAttributes host bindings scopes spanIndex spanLoc rest (bag.set name v) owned' store'

end Attributes

namespace Compiler

variable {σ : Type}

/-- A new compiler. -/
def start (bindings : NameMap Value) : Compiler := { bindings }

/-- The compiler after a failure: a compile error ends it, other failures leave it as it is. -/
def afterFailure (c : Compiler) : Failure → Compiler
  | .compile _ => { c with state := .failed }
  | _ => c

/-- The compiler after the error of a word source, which ends it unless it has ended. -/
def afterSourceError (c : Compiler) : Compiler :=
  if c.state.isTerminal then c else { c with state := .failed }

/-- The compiler after a failure of a word source; only a compile error has an effect. -/
def afterSource (c : Compiler) : Failure → Compiler
  | .compile _ => c.afterSourceError
  | _ => c

/-- The error of a word for a compiler that has ended. -/
def feedError (c : Compiler) (loc : Option String) : CompileError :=
  ⟨.compilerState, "Can't feed a word to a compiler that's already " ++ c.state.name ++ ".", loc⟩

/-- The error of finishing a compiler that has ended. -/
def finishError (c : Compiler) : CompileError :=
  ⟨.compilerState, "Can't finish a compiler that's already " ++ c.state.name ++ ".", none⟩

/-- The span of a text word, with the attributes in force. -/
def feedText (host : Host σ) (content : String) (loc : Option String) (c : Compiler)
    (store : Store σ) : Except Failure (Option Span) × Compiler × Store σ :=
  let result := gatherAttributes host c.bindings c.scopes c.spans.length loc
    c.scopes.flat.entries {} c.owned store
  let c' := { c with owned := result.2.1 }
  match result.1 with
  | .error e => (.error e, c'.afterFailure e, result.2.2)
  | .ok attributes =>
    let span : Span := ⟨content, c.scopes.tags, attributes, loc⟩
    (.ok (some span), { c' with spans := c.spans ++ [span] }, result.2.2)

/-- Feeds a word; a text word gives a span. -/
def feed (host : Host σ) (w : Word) (c : Compiler) (store : Store σ) :
    Except Failure (Option Span) × Compiler × Store σ :=
  if c.state.isTerminal then (.error (.compile (c.feedError w.loc)), c, store)
  else
    match w with
    | .text content loc => c.feedText host content loc store
    | .startTag tag attributes loc =>
      let scopes := c.scopes.push ⟨tag, attributes, loc⟩
      (.ok none, { c with scopes, state := .inScope }, store)
    | .endTag tag loc =>
      match c.scopes.pop tag loc with
      | .error e => (.error (.compile e), { c with state := .failed }, store)
      | .ok (_, scopes) =>
        let state := if scopes.depth = 0 then CompilerState.ready else .inScope
        (.ok none, { c with scopes, state }, store)

/-- Feeds words until one fails. -/
def feedAll (host : Host σ) : List Word → Compiler → Store σ →
    Except Failure Unit × Compiler × Store σ
  | [], c, store => (.ok (), c, store)
  | w :: rest, c, store =>
    match c.feed host w store with
    | (.error e, c', store') => (.error e, c', store')
    | (.ok _, c', store') => feedAll host rest c' store'

/-- What feeding something that is not a word does: it changes nothing. -/
def feedStray (c : Compiler) : Failure :=
  if c.state.isTerminal then .missingPart else .notAWord

/-- Ends the compilation and gives the spans, if all elements are closed. -/
def finish (c : Compiler) : Except CompileError Spans × Compiler :=
  if c.state.isTerminal then (.error c.finishError, c)
  else
    match c.scopes.entries.getLast? with
    | some innermost => (.error (c.scopes.unclosedError innermost), { c with state := .failed })
    | none => (.ok c.spans, { c with state := .finished })

end Compiler

/-- The spans of some words, with what changed on the way. -/
def compileWords {σ : Type} (host : Host σ) (bindings : NameMap Value) (words : List Word)
    (store : Store σ) : Except Failure Spans × Compiler × Store σ :=
  match (Compiler.start bindings).feedAll host words store with
  | (.error e, c, store') => (.error e, c, store')
  | (.ok (), c, store') => (c.finish.1.mapError .compile, c.finish.2, store')

end MarkupSpans
