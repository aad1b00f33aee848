import MarkupSpans.Compiler
import MarkupSpans.Proofs.InForce
import MarkupSpans.Proofs.Nesting

/-!
# A plan for words, and its execution

An interpreter for words that has no scope stack and no cached views.  Which steps the words ask
for is settled before anything is evaluated: every text that is reached asks for the attributes in
force around it, in order, and every attribute asks for the operations of its expression and is
then kept.  Executing a plan is taking its steps until one fails; values are passed on a stack.

The trace of an execution lists the steps that were taken, and from it one reads off the calls.
-/

set_option autoImplicit false

namespace MarkupSpans

variable {σ : Type}

/-! ## Plans -/

/-- One operation in the evaluation of a value. -/
inductive Operation where
  | constant (v : Value)
  /-- Finds what a dotted name stands for. -/
  | lookup (name : String)
  /-- Checks that what was found last can be called. -/
  | check (name : String)
  /-- Calls what lies under the last `count` values, with those as arguments. -/
  | call (name : String) (count : Nat)

/-- One step of a plan. -/
inductive Step where
  | operate (a : AttributeInForce) (op : Operation)
  /-- Claims the value of an attribute for the span at a place, and puts it into the bag. -/
  | keep (a : AttributeInForce) (spanLoc : Option String)
  /-- Makes the span of a text from the bag. -/
  | emit (leaf : Leaf)
  | fail (e : CompileError)

mutual

/-- The operations of an expression: a call looks up what is called, checks that it can be called,
evaluates the arguments from left to right, and then calls. -/
def Expr.operations : Expr → List Operation
  | .text content => [.constant (.text content)]
  | .number n => [.constant (.number n)]
  | .ref name => [.lookup name]
  | .call name args =>
    .lookup name :: .check name :: (operationsAll args ++ [.call name args.length])

/-- The operations of several expressions, from left to right. -/
def Expr.operationsAll : List Expr → List Operation
  | [] => []
  | e :: rest => e.operations ++ operationsAll rest

end

mutual

/-- The names of the calls in an expression; those in the arguments of a call come before it. -/
def Expr.callNames : Expr → List String
  | .call name args => callNamesAll args ++ [name]
  | _ => []

/-- The names of the calls in several expressions. -/
def Expr.callNamesAll : List Expr → List String
  | [] => []
  | e :: rest => e.callNames ++ callNamesAll rest

end

/-- The operations that give an attribute's value; one that is no expression is taken as it is. -/
def Value.operations : Value → List Operation
  | .expr e => e.operations
  | v => [.constant v]

/-- The names of the calls that an attribute's value writes. -/
def Value.callNames : Value → List String
  | .expr e => e.callNames
  | _ => []

/-- The steps of one attribute. -/
def AttributeInForce.steps (spanLoc : Option String) (a : AttributeInForce) : List Step :=
  a.written.operations.map (.operate a) ++ [.keep a spanLoc]

namespace Leaf

/-- The tags of the elements around a text. -/
def tags (leaf : Leaf) : List String := leaf.path.map ScopeEntry.tag

/-- The steps in front of a text's span. -/
def evaluations (leaf : Leaf) : List Step :=
  (attributesInForce leaf.path).flatMap (AttributeInForce.steps leaf.loc)

/-- The steps of a text. -/
def steps (leaf : Leaf) : List Step := leaf.evaluations ++ [.emit leaf]

end Leaf

/-- The texts of some words with the elements around them, up to the first end tag that does not
fit, and the error of that end tag, or of what is open at the end; `path` are the elements that
are open in front. -/
def reached : List ScopeEntry → List Word → List Leaf × Option CompileError
  | path, [] => ([], path.getLast?.map fun top => ScopeStack.unclosedError { entries := path } top)
  | path, .text content loc :: ws =>
    (⟨content, loc, path⟩ :: (reached path ws).1, (reached path ws).2)
  | path, .startTag tag attributes loc :: ws => reached (path ++ [⟨tag, attributes, loc⟩]) ws
  | path, .endTag tag loc :: ws =>
    match path.getLast? with
    | none => ([], some (ScopeStack.unstartedError tag loc))
    | some top =>
      if top.tag = tag then reached path.dropLast ws
      else ([], some (ScopeStack.mismatchedError { entries := path } top tag loc))

/-- The steps of some texts, and of the error behind them. -/
def stepsOf (leaves : List Leaf) (ending : Option CompileError) : List Step :=
  leaves.flatMap Leaf.steps ++ ending.toList.map .fail

/-- The steps of a row of leaves are those of the first one and then those of the others. -/
theorem stepsOf_cons (leaf : Leaf) (leaves : List Leaf) (ending : Option CompileError) :
    stepsOf (leaf :: leaves) ending = leaf.steps ++ stepsOf leaves ending := by
  rw [stepsOf, List.flatMap_cons, List.append_assoc]
  rfl

/-- The steps that words ask for. -/
def plan (ws : List Word) : List Step := stepsOf (reached [] ws).1 (reached [] ws).2

/-! ## Executing -/

/-- What executing a plan changes. -/
structure Machine (σ : Type) where
  /-- The state of objects and calls. -/
  store : Store σ
  /-- The values found so far, the latest first. -/
  stack : List Value := []
  /-- The attributes kept so far. -/
  bag : Bag := {}
  owned : Claims := []
  spans : Spans := []

namespace Machine

/-- A failure leaves nothing of what was being put together. -/
def fail (e : Failure) (m : Machine σ) : Except Failure Unit × Machine σ :=
  (.error e, { m with stack := [], bag := {} })

/-- Takes up a value, or fails as what should give it. -/
def receive (m : Machine σ) : Except Failure Value × Store σ → Except Failure Unit × Machine σ
  | (.ok v, store) => (.ok (), { m with store, stack := v :: m.stack })
  | (.error e, store) => { m with store }.fail e

/-- One operation, where `loc` is the place of the tag that writes it. -/
def operate (host : Host σ) (bindings : NameMap Value) (loc : Option String) (op : Operation)
    (m : Machine σ) : Except Failure Unit × Machine σ :=
  match op with
  | .constant v => m.receive (.ok v, m.store)
  | .lookup name =>
    m.receive ((resolveName bindings m.store.fired loc name).mapError .compile, m.store)
  | .check name =>
    match m.stack with
    | [] => (.ok (), m)
    | callee :: _ =>
      if callee.isCallable then (.ok (), m)
      else
        m.fail (.compile (unboundReference
          ("'" ++ name ++ "' is bound to a " ++ callee.sortName ++ ", which isn't callable.") loc))
  | .call _ count =>
    match m.stack.drop count with
    | [] => (.ok (), m)
    | callee :: rest =>
      { m with stack := rest }.receive
        (callee.invoke host (m.stack.take count).reverse m.store)

/-- One step. -/
def step (host : Host σ) (bindings : NameMap Value) (s : Step) (m : Machine σ) :
    Except Failure Unit × Machine σ :=
  match s with
  | .operate a op => m.operate host bindings a.definer.loc op
  | .keep a spanLoc =>
    match m.stack with
    | [] => (.ok (), m)
    | v :: rest =>
      match claimValue m.spans.length spanLoc a.definer.loc a.name v m.owned with
      | .error e => m.fail (.compile e)
      | .ok owned => (.ok (), { m with stack := rest, bag := m.bag.set a.name v, owned })
  | .emit leaf =>
    let span : Span := ⟨leaf.content, leaf.tags, m.bag, leaf.loc⟩
    (.ok (), { m with bag := {}, spans := m.spans ++ [span] })
  | .fail e => m.fail (.compile e)

end Machine

/-- Takes steps until one fails. -/
def execute (host : Host σ) (bindings : NameMap Value) :
    List Step → Machine σ → Except Failure Unit × Machine σ
  | [], m => (.ok (), m)
  | s :: rest, m =>
    match m.step host bindings s with
    | (.error e, m') => (.error e, m')
    | (.ok (), m') => execute host bindings rest m'

/-- A step that was taken, and the machine in front of it. -/
structure Event (σ : Type) where
  step : Step
  before : Machine σ

variable (host : Host σ) (bindings : NameMap Value)

/-- Steps in a row are executed one after another, until one fails. -/
theorem execute_append (steps more : List Step) (m : Machine σ) :
    execute host bindings (steps ++ more) m =
      match execute host bindings steps m with
      | (.error e, m') => (.error e, m')
      | (.ok (), m') => execute host bindings more m' := by
  induction steps generalizing m with
  | nil => rfl
  | cons s rest ih =>
    rw [List.cons_append, execute, execute]
    rcases m.step host bindings s with ⟨result, m'⟩
    cases result with
    | error e => rfl
    | ok _ => exact ih m'

/-- One step is executed as it is. -/
theorem execute_singleton (s : Step) (m : Machine σ) :
    execute host bindings [s] m = m.step host bindings s := by
  rw [execute]
  rcases m.step host bindings s with ⟨result, m'⟩
  cases result <;> rfl

/-- The call that a step makes, with its attribute. -/
def Step.callName? : Step → Option (AttributeInForce × String)
  | .operate a (.call name _) => some (a, name)
  | _ => none

/-- The call that an operation makes. -/
def Operation.callName? : Operation → Option String
  | .call name _ => some name
  | _ => none

mutual

/-- The operations of an expression call the functions that it names. -/
theorem callNames_operations : (e : Expr) →
    e.operations.filterMap Operation.callName? = e.callNames
  | .text _ => rfl
  | .number _ => rfl
  | .ref _ => rfl
  | .call name args => by
    have hargs := callNames_operationsAll args
    rw [Expr.operations, Expr.callNames, List.filterMap_cons_none rfl,
      List.filterMap_cons_none rfl, List.filterMap_append, hargs]
    rfl

/-- The operations of expressions call the functions that they name. -/
theorem callNames_operationsAll : (es : List Expr) →
    (Expr.operationsAll es).filterMap Operation.callName? = Expr.callNamesAll es
  | [] => rfl
  | e :: rest => by
    rw [Expr.operationsAll, List.filterMap_append, callNames_operations e,
      callNames_operationsAll rest, Expr.callNamesAll]

end

/-- The operations of a value call the functions that it names. -/
theorem Value.callNames_operations (v : Value) :
    v.operations.filterMap Operation.callName? = v.callNames := by
  cases v with
  | expr e => exact MarkupSpans.callNames_operations e
  | _ => rfl

end MarkupSpans
