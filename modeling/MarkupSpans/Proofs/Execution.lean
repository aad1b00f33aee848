import MarkupSpans.Proofs.Compiling
import MarkupSpans.Proofs.Plan

/-!
# Compiling is executing the plan

The compiler and the interpreter of `Plan` do the same: they call the same things in the same
order, put the same bags together and fail alike, whatever the bound functions do.

The argument goes up from expressions, whose operations are their evaluation
(`execute_operations`), over the attributes of a text (`execute_attributes`) to rows of words
(`execute_plan_from`), where the compiler's cached views meet the plain list of open elements.
That the calls are the same is said by a host that writes down what it is asked.
-/

set_option autoImplicit false

namespace MarkupSpans

variable {σ : Type} {host : Host σ} {bindings : NameMap Value}

/-! ## Expressions -/

/-- Expressions that are evaluated have one value each. -/
theorem length_of_evaluateAll_ok {loc : Option String} {es : List Expr} {store store' : Store σ}
    {values : List Value}
    (h : Expr.evaluateAll host bindings loc es store = (.ok values, store')) :
    values.length = es.length := by
  induction es generalizing store values with
  | nil =>
    cases h
    rfl
  | cons e rest ih =>
    rw [Expr.evaluateAll] at h
    rcases hvalue : e.evaluate host bindings loc store with ⟨result, mid⟩
    rw [hvalue] at h
    cases result with
    | error failure => cases h
    | ok v =>
      dsimp only at h
      rcases hrest : Expr.evaluateAll host bindings loc rest mid with ⟨others, store''⟩
      rw [hrest] at h
      cases others with
      | error failure => cases h
      | ok values' =>
        cases h
        rw [List.length_cons, List.length_cons, ih hrest]

/-- Takes up several values, the last one on top. -/
def Machine.receiveAll (m : Machine σ) :
    Except Failure (List Value) × Store σ → Except Failure Unit × Machine σ
  | (.ok values, store) => (.ok (), { m with store, stack := values.reverse ++ m.stack })
  | (.error e, store) => { m with store }.fail e

mutual

/-- Executing the operations of an expression is evaluating it. -/
theorem execute_operations (a : AttributeInForce) : (e : Expr) → (m : Machine σ) →
    execute host bindings (e.operations.map (.operate a)) m =
      m.receive (e.evaluate host bindings a.definer.loc m.store)
  | .text content, m => execute_singleton host bindings _ m
  | .number n, m => execute_singleton host bindings _ m
  | .ref name, m => execute_singleton host bindings _ m
  | .call name args, m => by
    rw [Expr.operations, Expr.evaluate, List.map_cons, List.map_cons, List.map_append]
    unfold resolveCallee
    rw [execute, Machine.step, Machine.operate]
    cases resolveName bindings m.store.fired a.definer.loc name with
    | error e => rfl
    | ok callee =>
      simp only [Machine.receive, Except.mapError]
      rw [execute, Machine.step, Machine.operate]
      by_cases hcallable : callee.isCallable = true
      · simp only [if_pos hcallable]
        rw [execute_append, execute_operationsAll a args]
        rcases hargs : Expr.evaluateAll host bindings a.definer.loc args m.store with
          ⟨result, mid⟩
        cases result with
        | error e => rfl
        | ok values =>
          -- as many values lie on the callee as there are arguments
          have hlength := length_of_evaluateAll_ok hargs
          simp only [Machine.receiveAll, List.map_cons, List.map_nil]
          rw [execute_singleton, Machine.step, Machine.operate]
          simp only [← hlength, List.drop_left', List.take_left', List.length_reverse,
            List.reverse_reverse]
          rcases callee.invoke host values mid with ⟨answer, store'⟩
          cases answer <;> rfl
      · simp only [if_neg hcallable]
        rfl

/-- The operations of expressions in a row put their values onto the stack, or stop at the first
failure. -/
theorem execute_operationsAll (a : AttributeInForce) : (es : List Expr) → (m : Machine σ) →
    execute host bindings ((Expr.operationsAll es).map (.operate a)) m =
      m.receiveAll (Expr.evaluateAll host bindings a.definer.loc es m.store)
  | [], m => rfl
  | e :: rest, m => by
    rw [Expr.operationsAll, Expr.evaluateAll, List.map_append, execute_append,
      execute_operations a e]
    rcases e.evaluate host bindings a.definer.loc m.store with ⟨result, mid⟩
    cases result with
    | error e => rfl
    | ok v =>
      simp only [Machine.receive]
      rw [execute_operationsAll a rest]
      rcases Expr.evaluateAll host bindings a.definer.loc rest mid with ⟨others, store'⟩
      cases others with
      | error e => rfl
      | ok values => simp [Machine.receiveAll]

end

/-! ## The attributes of a text -/

/-- The operations of an attribute's value come to the value of the attribute. -/
theorem execute_value (a : AttributeInForce) (v : Value) (m : Machine σ) :
    execute host bindings (v.operations.map (.operate a)) m =
      m.receive (attributeValue host bindings a.definer.loc v m.store) := by
  cases v with
  | expr e => exact execute_operations a e m
  | _ => exact execute_singleton host bindings _ m

/-- Goes on with the bag of some attributes, or fails as they do. -/
def Machine.gather (m : Machine σ) :
    Except Failure Bag × Claims × Store σ → Except Failure Unit × Machine σ
  | (.ok bag, owned, store) => (.ok (), { m with bag, owned, store })
  | (.error e, owned, store) => { m with owned, store }.fail e

/-- Executing the steps of some attributes is gathering them. -/
theorem execute_attributes (host : Host σ) (bindings : NameMap Value) (scopes : ScopeStack)
    (spanLoc : Option String) (row : List AttributeInForce)
    (hdefiner : ∀ a ∈ row, scopes.definingEntry? a.name = some a.definer) (m : Machine σ)
    (hstack : m.stack = []) :
    execute host bindings (row.flatMap (AttributeInForce.steps spanLoc)) m =
      m.gather (gatherAttributes host bindings scopes m.spans.length spanLoc
        (row.map fun a => (a.name, a.written)) m.bag m.owned m.store) := by
  -- the bag, the claims and the store of the machine are the accumulators of the gathering
  induction row generalizing m with
  | nil => rfl
  | cons a rest ih =>
    have hrest : ∀ b ∈ rest, scopes.definingEntry? b.name = some b.definer :=
      fun b hb => hdefiner b (by simp [hb])
    rw [List.flatMap_cons, List.map_cons, gatherAttributes, hdefiner a (by simp),
      Option.bind_some, AttributeInForce.steps, List.append_assoc, execute_append, execute_value]
    rcases attributeValue host bindings a.definer.loc a.written m.store with ⟨result, mid⟩
    cases result with
    | error e => rfl
    | ok v =>
      simp only [Machine.receive]
      rw [execute_append, execute_singleton, Machine.step]
      simp only
      cases claimValue m.spans.length spanLoc a.definer.loc a.name v m.owned with
      | error e => simp [Machine.gather, Machine.fail]
      | ok owned =>
        refine (ih hrest { m with bag := m.bag.set a.name v, owned, store := mid } hstack).trans ?_
        rcases gatherAttributes host bindings scopes m.spans.length spanLoc
          (rest.map fun a => (a.name, a.written)) (m.bag.set a.name v) owned mid with
          ⟨result, owned', store'⟩
        cases result <;> rfl

/-! ## Words -/

namespace Compiler

/-- Feeds words, and ends the compilation behind them. -/
def complete (host : Host σ) (ws : List Word) (c : Compiler) (store : Store σ) :
    Except Failure Spans × Compiler × Store σ :=
  match c.feedAll host ws store with
  | (.error e, c', store') => (.error e, c', store')
  | (.ok (), c', store') => (c'.finish.1.mapError .compile, c'.finish.2, store')

/-- A machine that has made what a compiler has made. -/
def machine (c : Compiler) (store : Store σ) : Machine σ :=
  { store, owned := c.owned, spans := c.spans }

/-- A row of words is compiled word by word, until one fails. -/
theorem complete_cons (ws : List Word) (w : Word) (c : Compiler) (store : Store σ) :
    c.complete host (w :: ws) store =
      match c.feed host w store with
      | (.error e, c', store') => (.error e, c', store')
      | (.ok _, c', store') => c'.complete host ws store' := by
  rw [complete, feedAll]
  rcases c.feed host w store with ⟨result, c', store'⟩
  cases result <;> rfl

end Compiler

open Compiler

/-- A compilation comes to what an execution comes to. -/
def Agrees (r : Except Failure Spans × Compiler × Store σ)
    (r' : Except Failure Unit × Machine σ) : Prop :=
  r.1 = r'.1.map (fun _ => r'.2.spans) ∧ r'.2 = r.2.1.machine r.2.2

namespace Agrees

variable {r : Except Failure Spans × Compiler × Store σ} {r' : Except Failure Unit × Machine σ}

end Agrees

/-- Executing what a text asks for is feeding it. -/
theorem execute_leaf_of_feed {c : Compiler} (hviews : c.scopes.UpToDate) (content : String)
    (loc : Option String) (store : Store σ) :
    execute host c.bindings (Leaf.steps ⟨content, loc, c.scopes.entries⟩) (c.machine store) =
      ((c.feedText host content loc store).1.map fun _ => (),
        (c.feedText host content loc store).2.1.machine
          (c.feedText host content loc store).2.2) := by
  have hflat : c.scopes.flat.entries =
      (attributesInForce c.scopes.entries).map fun a => (a.name, a.written) := by
    rw [hviews.flat_eq, entries_flatten]
  have hdefiner : ∀ a ∈ attributesInForce c.scopes.entries,
      c.scopes.definingEntry? a.name = some a.definer := by
    intro a ha
    rw [definingEntry?_eq, innermostDefinition?_of_mem ha]
    rfl
  have hgathered := execute_attributes host c.bindings c.scopes loc _ hdefiner (c.machine store)
    rfl
  rw [← hflat] at hgathered
  rw [Leaf.steps, Leaf.evaluations, execute_append, hgathered]
  rcases hgather : gatherAttributes host c.bindings c.scopes c.spans.length loc
    c.scopes.flat.entries {} c.owned store with ⟨result, owned, store'⟩
  have hgather' : gatherAttributes host c.bindings c.scopes (c.machine store).spans.length loc
      c.scopes.flat.entries (c.machine store).bag (c.machine store).owned (c.machine store).store =
        (result, owned, store') := hgather
  rw [hgather']
  cases result with
  | error e =>
    rw [feedText_of_gather_error content hgather]
    cases e <;> rfl
  | ok attributes =>
    rw [feedText_of_gather content hgather]
    rfl

/-- From where a compiler stands, completing it is executing the plan of the words. -/
theorem execute_plan_from (ws : List Word) (c : Compiler) (halive : c.state.isTerminal = false)
    (hviews : c.scopes.UpToDate) (store : Store σ) :
    Agrees (c.complete host ws store)
      (execute host c.bindings
        (stepsOf (reached c.scopes.entries ws).1 (reached c.scopes.entries ws).2)
        (c.machine store)) := by
  -- the plan goes by the open elements alone, so all it needs is that the views are up to date
  induction ws generalizing c store with
  | nil =>
    show Agrees (c.finish.1.mapError .compile, c.finish.2, store) _
    rcases List.eq_nil_or_concat c.scopes.entries with hnil | ⟨outer, top, hconcat⟩
    · have hfinish : c.finish = (.ok c.spans, { c with state := .finished }) := by
        simp [finish, halive, hnil]
      rw [hfinish, hnil]
      exact ⟨rfl, rfl⟩
    · rw [List.concat_eq_append] at hconcat
      have hfinish : c.finish =
          (.error (c.scopes.unclosedError top), { c with state := .failed }) := by
        simp [finish, halive, hconcat]
      have hreached : reached c.scopes.entries [] = ([], some (c.scopes.unclosedError top)) := by
        rw [reached, hconcat, List.getLast?_append, List.getLast?_singleton, Option.some_or,
          Option.map_some, ← hconcat]
        rfl
      rw [hfinish, hreached]
      exact ⟨rfl, rfl⟩
  | cons w ws ih =>
    rw [complete_cons]
    cases w with
    | text content loc =>
      rw [feed_text halive, reached, stepsOf_cons, execute_append, execute_leaf_of_feed hviews]
      rcases hgather : gatherAttributes host c.bindings c.scopes c.spans.length loc
        c.scopes.flat.entries {} c.owned store with ⟨result, owned, store'⟩
      cases result with
      | error e =>
        rw [feedText_of_gather_error content hgather]
        exact ⟨rfl, rfl⟩
      | ok attributes =>
        rw [feedText_of_gather content hgather]
        exact ih { c with owned, spans := c.spans ++ [⟨content, c.scopes.tags, attributes, loc⟩] }
          halive hviews store'
    | startTag tag attributes loc =>
      rw [feed_startTag halive host ⟨tag, attributes, loc⟩]
      exact ih { c with scopes := c.scopes.push ⟨tag, attributes, loc⟩, state := .inScope } rfl
        (hviews.push _) store
    | endTag tag loc =>
      rcases List.eq_nil_or_concat c.scopes.entries with hnil | ⟨outer, top, hconcat⟩
      · rw [feed_endTag_of_error halive host (ScopeStack.pop_nil hnil tag loc), hnil]
        exact ⟨rfl, rfl⟩
      · rw [List.concat_eq_append] at hconcat
        have hlast : c.scopes.entries.getLast? = some top := by
          simp [hconcat]
        rw [reached, hlast]
        by_cases htag : top.tag = tag
        · subst htag
          obtain ⟨scopes, hpop, houter⟩ := ScopeStack.pop_concat hconcat loc
          have hdropped : c.scopes.entries.dropLast = scopes.entries := by
            simp [hconcat, houter]
          rw [feed_endTag_of_pop halive host hpop, hdropped]
          simp only [if_true]
          exact ih
            { c with scopes, state := if scopes.depth = 0 then CompilerState.ready else .inScope }
            (by dsimp only; split <;> rfl) (hviews.pop hpop) store
        · rw [feed_endTag_of_error halive host (ScopeStack.pop_mismatch hconcat htag loc)]
          simp only [if_neg htag]
          exact ⟨rfl, rfl⟩

/-- A compilation is the execution of the plan of its words. -/
theorem execute_plan (host : Host σ) (bindings : NameMap Value) (ws : List Word)
    (store : Store σ) :
    Agrees (compileWords host bindings ws store)
      (execute host bindings (plan ws) { store }) :=
  execute_plan_from ws (start bindings) rfl ScopeStack.upToDate_empty store

/-! ## Calls on bound functions -/

/-- A call on a bound function. -/
structure HostCall where
  self : Identity
  name : String
  args : List Value

/-- A host that writes down what it is asked. -/
def Host.recording (host : Host σ) : Host (σ × List HostCall) where
  call self name args state :=
    let (result, next) := host.call self name args state.1
    (result, next, state.2 ++ [⟨self, name, args⟩])

/-- A state with what has been written down beside it. -/
def Store.recorded (log : List HostCall) (store : Store σ) : Store (σ × List HostCall) :=
  ⟨(store.host, log), store.fired, store.made⟩

/-- What calling a value asks of bound functions; a one-shot passes its call on, once. -/
def Value.asked (args : List Value) (fired : List Identity) : Value → List HostCall
  | .function self name => [⟨self, name, args⟩]
  | .oneShot self action =>
    if fired.contains self then [] else action.asked args (self :: fired)
  | _ => []

namespace Event

/-- What a step calls, and the arguments. -/
def called? (event : Event σ) : Option (Value × List Value) :=
  match event.step with
  | .operate _ (.call _ count) =>
    match event.before.stack.drop count with
    | [] => none
    | callee :: _ => some (callee, (event.before.stack.take count).reverse)
  | _ => none

/-- What a step asks of bound functions. -/
def asked (event : Event σ) : List HostCall :=
  match event.called? with
  | none => []
  | some (callee, args) => callee.asked args event.before.store.fired

end Event

namespace Machine

/-- A machine whose host has written something down. -/
def recorded (log : List HostCall) (m : Machine σ) : Machine (σ × List HostCall) :=
  ⟨m.store.recorded log, m.stack, m.bag, m.owned, m.spans⟩

end Machine

/-- A part that is missing is an unbound reference, at the given place. -/
theorem unbound_of_followParts_error {fired : List Identity} {loc : Option String} {path : String}
    {v : Value} {parts : List String} {e : CompileError}
    (h : followParts fired loc path v parts = .error e) :
    e.kind = .unboundReference ∧ e.loc = loc := by
  induction parts generalizing path v with
  | nil => cases h
  | cons part rest ih =>
    rw [followParts] at h
    cases hpart : v.part? fired part with
    | none =>
      rw [hpart] at h
      cases h
      exact ⟨rfl, rfl⟩
    | some next =>
      rw [hpart] at h
      exact ih h

/-- A name that cannot be resolved is an unbound reference, at the given place. -/
theorem unbound_of_resolveName_error {fired : List Identity} {loc : Option String} {name : String}
    {e : CompileError} (h : resolveName bindings fired loc name = .error e) :
    e.kind = .unboundReference ∧ e.loc = loc := by
  unfold resolveName at h
  dsimp only at h
  cases hbound : bindings.get? (headName name) with
  | none =>
    rw [hbound] at h
    cases h
    exact ⟨rfl, rfl⟩
  | some v =>
    rw [hbound] at h
    exact unbound_of_followParts_error h

/-- A value that cannot be claimed is shared with another owner. -/
theorem shared_of_claimValue_error {spanIndex : Nat} {spanLoc tagLoc : Option String}
    {name : String} {v : Value} {owned : Claims} {e : CompileError}
    (h : claimValue spanIndex spanLoc tagLoc name v owned = .error e) :
    e.kind = .sharedResource ∧ e.loc = placeOr tagLoc spanLoc := by
  unfold claimValue at h
  split at h
  · cases h
  · split at h
    · cases h
      exact ⟨rfl, rfl⟩
    · cases h

end MarkupSpans
