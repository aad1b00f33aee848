import MarkupSpans.Proofs.Compiling
import MarkupSpans.Proofs.InForce
import MarkupSpans.Proofs.Nesting

/-!
# Compiling is flattening

A row of words compiles exactly if it is the linear form of a forest, and the spans are then the
leaves of the forest, each with the attributes that the elements around it put in force.  All
other rows fail at the first word that no linear form can go on with, or at their end.

The values of attributes may depend on the state of the bound functions.  All that is asked is
that there is a set of states, to which the first one belongs, in which every attribute of the
words has a value that is not move-only, and which its evaluation does not leave.
-/

set_option autoImplicit false

namespace MarkupSpans

section

variable {σ : Type}

/-- Attributes evaluated one after the other, from one state to another, without a failure. -/
inductive EvaluatesRow (host : Host σ) (bindings : NameMap Value) :
    List AttributeInForce → Store σ → List (String × Value) → Store σ → Prop
  /-- Nothing to evaluate. -/
  | nil (store : Store σ) : EvaluatesRow host bindings [] store [] store
  /-- One attribute, at the place of the element that defines it, and then the others. -/
  | cons {a : AttributeInForce} {rest : List AttributeInForce} {store mid store' : Store σ}
      {v : Value} {row : List (String × Value)} :
      attributeValue host bindings a.definer.loc a.written store = (.ok v, mid) →
      EvaluatesRow host bindings rest mid row store' →
      EvaluatesRow host bindings (a :: rest) store ((a.name, v) :: row) store'

/-- The span of each of some leaves, in order, from one state to another. -/
inductive SpansOf (host : Host σ) (bindings : NameMap Value) :
    List Leaf → Store σ → Spans → Store σ → Prop
  /-- Without leaves there are no spans. -/
  | nil (store : Store σ) : SpansOf host bindings [] store [] store
  /-- A span with the text and the place of its leaf, the tags on the way to it, and the
  attributes in force there. -/
  | cons {leaf : Leaf} {leaves : List Leaf} {store mid store' : Store σ} {attributes : Bag}
      {spans : Spans} :
      EvaluatesRow host bindings (attributesInForce leaf.path) store attributes.values.entries
        mid →
      SpansOf host bindings leaves mid spans store' →
      SpansOf host bindings (leaf :: leaves) store
        (⟨leaf.content, leaf.path.map ScopeEntry.tag, attributes, leaf.loc⟩ :: spans) store'

/-- In the states of a set every attribute of an element has a value that is not move-only, and
its evaluation stays in the set. -/
def Evaluable (host : Host σ) (bindings : NameMap Value) (states : Store σ → Prop)
    (element : ScopeEntry) : Prop :=
  ∀ entry ∈ element.attributes.entries, ∀ store, states store →
    ∃ (v : Value) (store' : Store σ),
      attributeValue host bindings element.loc entry.2 store = (.ok v, store') ∧
      v.isMoveOnly = false ∧ states store'

/-- A compiler that can go on, with elements open whose attributes can be evaluated. -/
structure Steady (host : Host σ) (bindings : NameMap Value) (states : Store σ → Prop)
    (c : Compiler) (store : Store σ) : Prop where
  /-- The bindings are those that the compilation was given. -/
  bindings_eq : c.bindings = bindings
  /-- The compiler has not ended. -/
  alive : c.state.isTerminal = false
  /-- The cached views agree with the open elements. -/
  upToDate : c.scopes.UpToDate
  /-- What is open can be evaluated. -/
  evaluable : ∀ element ∈ c.scopes.entries, Evaluable host bindings states element
  /-- The state is one of those in which attributes can be evaluated. -/
  state_mem : states store

variable {host : Host σ} {bindings : NameMap Value} {states : Store σ → Prop}

/-! ## Attributes of one span -/

/-- Gathering attributes that can be evaluated puts their values into the bag, in order, and
claims nothing. -/
theorem gatherAttributes_of_evaluable (host : Host σ) (bindings : NameMap Value)
    (states : Store σ → Prop) (scopes : ScopeStack) (spanIndex : Nat) (spanLoc : Option String)
    (row : List AttributeInForce) (bag : Bag) (owned : Claims) (store : Store σ)
    (hdefiner : ∀ a ∈ row, scopes.definingEntry? a.name = some a.definer)
    (hevaluable : ∀ a ∈ row, ∀ store, states store → ∃ (v : Value) (store' : Store σ),
      attributeValue host bindings a.definer.loc a.written store = (.ok v, store') ∧
      v.isMoveOnly = false ∧ states store')
    (hnew : (bag.values.names ++ row.map AttributeInForce.name).Nodup)
    (hstore : states store) :
    ∃ (bag' : Bag) (values : List (String × Value)) (store' : Store σ),
      gatherAttributes host bindings scopes spanIndex spanLoc
        (row.map fun a => (a.name, a.written)) bag owned store = (.ok bag', owned, store') ∧
      bag'.values.entries = bag.values.entries ++ values ∧
      EvaluatesRow host bindings row store values store' ∧ states store' := by
  induction row generalizing bag store with
  | nil => exact ⟨bag, [], store, rfl, by simp, .nil store, hstore⟩
  | cons a rest ih =>
    obtain ⟨v, mid, hvalue, hmoveOnly, hmid⟩ := hevaluable a (by simp) store hstore
    obtain ⟨hfresh, hrest⟩ := Bag.nodup_set v hnew
    obtain ⟨bag', values, store', hgather, hentries, hrow, hstore'⟩ :=
      ih (bag.set a.name v) mid
        (fun b hb => hdefiner b (by simp [hb]))
        (fun b hb => hevaluable b (by simp [hb]))
        hrest hmid
    have hclaim : claimValue spanIndex spanLoc a.definer.loc a.name v owned = .ok owned := by
      have hnone : v.moveOnly? = none := by
        simpa [Value.isMoveOnly] using hmoveOnly
      rw [claimValue, hnone]
    refine ⟨bag', (a.name, v) :: values, store', ?_, ?_, .cons hvalue hrow, hstore'⟩
    · rw [List.map_cons, gatherAttributes, hdefiner a (by simp), Option.bind_some, hvalue]
      simp only [hclaim]
      exact hgather
    · rw [hentries, Bag.set, NameMap.entries_insert_of_notMem _ _ hfresh, List.append_assoc]
      rfl

/-- A text word fed to a steady compiler gives the span of a leaf. -/
theorem Steady.feed_text {c : Compiler} {store : Store σ}
    (h : Steady host bindings states c store) (content : String) (loc : Option String) :
    ∃ (attributes : Bag) (store' : Store σ),
      c.feed host (.text content loc) store =
        (.ok (some ⟨content, c.scopes.tags, attributes, loc⟩),
          { c with spans := c.spans ++ [⟨content, c.scopes.tags, attributes, loc⟩] }, store') ∧
      EvaluatesRow host bindings (attributesInForce c.scopes.entries) store
        attributes.values.entries store' ∧
      states store' := by
  have hflat : c.scopes.flat.entries =
      (attributesInForce c.scopes.entries).map fun a => (a.name, a.written) := by
    rw [h.upToDate.flat_eq, entries_flatten]
  obtain ⟨attributes, values, store', hgather, hentries, hrow, hstore'⟩ :=
    gatherAttributes_of_evaluable host bindings states c.scopes c.spans.length loc
      (attributesInForce c.scopes.entries) {} c.owned store
      (by
        intro a ha
        rw [definingEntry?_eq, innermostDefinition?_of_mem ha]
        rfl)
      (by
        intro a ha
        obtain ⟨hopen, hdefined⟩ := definition_of_mem ha
        exact h.evaluable a.definer hopen _ hdefined)
      (by
        rw [names_attributesInForce]
        exact nodup_definedNames c.scopes.entries)
      h.state_mem
  refine ⟨attributes, store', ?_, ?_, hstore'⟩
  · rw [← hflat, ← h.bindings_eq] at hgather
    rw [Compiler.feed_text h.alive, Compiler.feedText_of_gather content hgather]
  · have hvalues : attributes.values.entries = values := by
      rw [hentries]
      rfl
    rw [hvalues]
    exact hrow

/-! ## A row of words -/

/-- Words that nest are all taken, and give the spans of the leaves among them. -/
theorem feedAll_of_walk (ws : List Word) (c : Compiler) (store : Store σ)
    (h : Steady host bindings states c store)
    (hws : ∀ element : ScopeEntry, element.startTag ∈ ws → Evaluable host bindings states element)
    {leaves : List Leaf} {path : List ScopeEntry}
    (hwalk : walk c.scopes.entries ws = some (leaves, path)) :
    ∃ (c' : Compiler) (store' : Store σ) (spans : Spans),
      c.feedAll host ws store = (.ok (), c', store') ∧
      c'.spans = c.spans ++ spans ∧ c'.scopes.entries = path ∧
      SpansOf host bindings leaves store spans store' ∧
      Steady host bindings states c' store' := by
  induction ws generalizing c store leaves with
  | nil =>
    simp only [walk, Option.some.injEq, Prod.mk.injEq] at hwalk
    obtain ⟨rfl, rfl⟩ := hwalk
    exact ⟨c, store, [], rfl, by simp, rfl, .nil store, h⟩
  | cons w ws ih =>
    have hrest : ∀ element : ScopeEntry, element.startTag ∈ ws →
        Evaluable host bindings states element := fun element hmem => hws element (by simp [hmem])
    cases w with
    | text content loc =>
      simp only [walk, Option.map_eq_some_iff, Prod.mk.injEq] at hwalk
      obtain ⟨⟨leaves', path'⟩, hwalk, rfl, rfl⟩ := hwalk
      obtain ⟨attributes, mid, hfeed, hrow, hmid⟩ := h.feed_text content loc
      obtain ⟨c', store', spans, hall, hspans, hentries, hof, hsteady⟩ :=
        ih { c with spans := c.spans ++ [⟨content, c.scopes.tags, attributes, loc⟩] } mid
          ⟨h.bindings_eq, h.alive, h.upToDate, h.evaluable, hmid⟩ hrest hwalk
      refine ⟨c', store', ⟨content, c.scopes.tags, attributes, loc⟩ :: spans, ?_, ?_, hentries,
        .cons hrow hof, hsteady⟩
      · rw [Compiler.feedAll, hfeed]
        exact hall
      · rw [hspans, List.append_assoc]
        rfl
    | startTag tag attributes loc =>
      have helement := hws ⟨tag, attributes, loc⟩ (by simp [ScopeEntry.startTag])
      obtain ⟨c', store', spans, hall, hspans, hentries, hof, hsteady⟩ :=
        ih { c with scopes := c.scopes.push ⟨tag, attributes, loc⟩, state := .inScope } store
          ⟨h.bindings_eq, rfl, h.upToDate.push _, by
            intro element hmem
            simp only [ScopeStack.push, List.mem_append, List.mem_singleton] at hmem
            rcases hmem with hmem | rfl
            · exact h.evaluable element hmem
            · exact helement, h.state_mem⟩ hrest hwalk
      refine ⟨c', store', spans, ?_, hspans, hentries, hof, hsteady⟩
      rw [Compiler.feedAll, Compiler.feed_startTag h.alive host ⟨tag, attributes, loc⟩]
      exact hall
    | endTag tag loc =>
      rcases List.eq_nil_or_concat c.scopes.entries with hnil | ⟨outer, top, hconcat⟩
      · simp [walk, hnil] at hwalk
      · rw [List.concat_eq_append] at hconcat
        by_cases htag : top.tag = tag
        · subst htag
          simp only [walk, hconcat, List.getLast?_append, List.getLast?_singleton, Option.some_or,
            if_true, List.dropLast_concat] at hwalk
          obtain ⟨scopes, hpop, houter⟩ := ScopeStack.pop_concat hconcat loc
          obtain ⟨c', store', spans, hall, hspans, hentries, hof, hsteady⟩ :=
            ih
              { c with
                scopes, state := if scopes.depth = 0 then CompilerState.ready else .inScope }
              store ⟨h.bindings_eq, by split <;> rfl, h.upToDate.pop hpop, by
                intro element hmem
                rw [houter] at hmem
                exact h.evaluable element (by simp [hconcat, hmem]), h.state_mem⟩ hrest
              (by rw [houter]; exact hwalk)
          refine ⟨c', store', spans, ?_, hspans, hentries, hof, hsteady⟩
          rw [Compiler.feedAll, Compiler.feed_endTag_of_pop h.alive host hpop]
          exact hall
        · simp [walk, hconcat, htag] at hwalk

/-- A new compiler is steady. -/
theorem steady_start {store : Store σ} (h : states store) :
    Steady host bindings states (Compiler.start bindings) store :=
  ⟨rfl, rfl, ScopeStack.upToDate_empty, fun element hmem => by simp [Compiler.start] at hmem, h⟩

/-! ## What a compilation comes to -/

/-- The linear form of a forest compiles to the spans of its leaves. -/
theorem compileWords_of_forest (forest : Forest) {store : Store σ} (hstore : states store)
    (hws : ∀ element : ScopeEntry, element.startTag ∈ forest.words →
      Evaluable host bindings states element) :
    ∃ (spans : Spans) (c : Compiler) (store' : Store σ),
      compileWords host bindings forest.words store = (.ok spans, c, store') ∧
      SpansOf host bindings (forest.leaves []) store spans store' := by
  obtain ⟨c, store', spans, hall, hspans, hentries, hof, hsteady⟩ :=
    feedAll_of_walk forest.words (.start bindings) store (steady_start hstore) hws
      (walk_forest forest [])
  refine ⟨spans, { c with state := .finished }, store', ?_, hof⟩
  have hfinish : c.finish = (.ok spans, { c with state := .finished }) := by
    have hall : c.spans = spans := hspans
    simp [Compiler.finish, hsteady.alive, hentries, hall]
  rw [compileWords_of_feedAll hall, hfinish]
  rfl

/-- Elements that are open at the end are an error, told of the innermost one. -/
theorem compileWords_of_unclosed {ws : List Word} {store : Store σ} (hstore : states store)
    (hws : ∀ element : ScopeEntry, element.startTag ∈ ws →
      Evaluable host bindings states element)
    (hextendable : Extendable ws) (hnot : ¬ ∃ forest : Forest, ws = forest.words) :
    ∃ (outer : List ScopeEntry) (top : ScopeEntry) (e : CompileError),
      Opens ws (outer ++ [top]) ∧
      (compileWords host bindings ws store).1 = .error (.compile e) ∧
      e.kind = .unclosedTag ∧ e.loc = top.loc := by
  obtain ⟨path, hopens⟩ := (extendable_iff ws).mp hextendable
  rcases List.eq_nil_or_concat path with rfl | ⟨outer, top, rfl⟩
  · exact absurd ((opens_nil_iff ws).mp hopens) hnot
  · rw [List.concat_eq_append] at hopens
    obtain ⟨leaves, hwalk⟩ := hopens.walk_eq
    obtain ⟨c, store', spans, hall, -, hentries, -, hsteady⟩ :=
      feedAll_of_walk ws (.start bindings) store (steady_start hstore) hws hwalk
    refine ⟨outer, top, c.scopes.unclosedError top, hopens, ?_, rfl, rfl⟩
    rw [compileWords_of_feedAll hall]
    simp only [Compiler.finish, hsteady.alive, hentries, List.getLast?_append,
      List.getLast?_singleton, Option.some_or, Bool.false_eq_true, if_false]
    rfl

/-- An end tag that no linear form can go on with is an error of a steady compiler: nothing is
open, or the innermost open element has another tag. -/
theorem Steady.feed_of_not_extendable {c : Compiler} {store : Store σ}
    (h : Steady host bindings states c store) {before : List Word} {w : Word}
    (hopens : Opens before c.scopes.entries) (hnot : ¬ Extendable (before ++ [w])) :
    ∃ (tag : String) (loc : Option String) (e : CompileError) (c' : Compiler),
      w = .endTag tag loc ∧ c.feed host w store = (.error (.compile e), c', store) ∧
      e.loc = loc ∧
      (Opens before [] ∧ e.kind = .unstartedTag ∨
        ∃ (outer : List ScopeEntry) (top : ScopeEntry), Opens before (outer ++ [top]) ∧
          top.tag ≠ tag ∧ e.kind = .mismatchedTag) := by
  -- a text or a start tag could be gone on with, and so could the right end tag
  cases w with
  | text content loc => exact absurd ((extendable_iff _).mpr ⟨_, hopens.text content loc⟩) hnot
  | startTag tag attributes loc =>
    exact absurd ((extendable_iff _).mpr ⟨_, hopens.startTag ⟨tag, attributes, loc⟩⟩) hnot
  | endTag tag loc =>
    rcases List.eq_nil_or_concat c.scopes.entries with hnil | ⟨outer, top, hconcat⟩
    · have hfeed := Compiler.feed_endTag_of_error h.alive host
        (ScopeStack.pop_nil hnil tag loc) store
      rw [hnil] at hopens
      exact ⟨tag, loc, _, _, rfl, hfeed, rfl, .inl ⟨hopens, rfl⟩⟩
    · rw [List.concat_eq_append] at hconcat
      rw [hconcat] at hopens
      by_cases htag : top.tag = tag
      · subst htag
        exact absurd ((extendable_iff _).mpr ⟨_, hopens.endTag loc⟩) hnot
      · have hfeed := Compiler.feed_endTag_of_error h.alive host
          (ScopeStack.pop_mismatch hconcat htag loc) store
        exact ⟨tag, loc, _, _, rfl, hfeed, rfl, .inr ⟨outer, top, hopens, htag, rfl⟩⟩

/-- A compilation fails at the first word that no linear form can go on with. -/
theorem compileWords_of_not_extendable {ws : List Word} {store : Store σ}
    (hstore : states store)
    (hws : ∀ element : ScopeEntry, element.startTag ∈ ws →
      Evaluable host bindings states element)
    (hnot : ¬ Extendable ws) :
    ∃ (before after : List Word) (tag : String) (loc : Option String) (e : CompileError),
      ws = before ++ .endTag tag loc :: after ∧ Extendable before ∧
      ¬ Extendable (before ++ [.endTag tag loc]) ∧
      ((Compiler.start bindings).feedAll host before store).1 = .ok () ∧
      (compileWords host bindings ws store).1 = .error (.compile e) ∧ e.loc = loc ∧
      (Opens before [] ∧ e.kind = .unstartedTag ∨
        ∃ (outer : List ScopeEntry) (top : ScopeEntry), Opens before (outer ++ [top]) ∧
          top.tag ≠ tag ∧ e.kind = .mismatchedTag) := by
  obtain ⟨before, after, w, rfl, hbefore, hw⟩ := exists_first_not_extendable hnot
  obtain ⟨path, hopens⟩ := (extendable_iff before).mp hbefore
  obtain ⟨leaves, hwalk⟩ := hopens.walk_eq
  obtain ⟨c, mid, spans, hall, -, rfl, -, hsteady⟩ :=
    feedAll_of_walk before (.start bindings) store (steady_start hstore)
      (fun element hmem => hws element (by simp [hmem])) hwalk
  obtain ⟨tag, loc, e, c', rfl, hfeed, hloc, hcause⟩ :=
    hsteady.feed_of_not_extendable hopens hw
  refine ⟨before, after, tag, loc, e, rfl, hbefore, hw, by rw [hall], ?_, hloc, hcause⟩
  rw [compileWords_of_feed_error hall hfeed]

/-- Compiling is flattening.  Words whose attributes can be evaluated compile exactly if they are
the linear form of a forest, and then to the spans of its leaves.  Otherwise the compilation fails
at the first end tag that no linear form can go on with, or, if there is none, with the innermost
element that is still open at the end. -/
theorem compileWords_flattens (host : Host σ) (bindings : NameMap Value)
    (states : Store σ → Prop) (ws : List Word) (store : Store σ) (hstore : states store)
    (hws : ∀ element : ScopeEntry, element.startTag ∈ ws →
      Evaluable host bindings states element) :
    ((∃ spans, (compileWords host bindings ws store).1 = .ok spans) ↔
      ∃ forest : Forest, ws = forest.words) ∧
    (∀ forest : Forest, ws = forest.words → ∃ (spans : Spans) (c : Compiler) (store' : Store σ),
      compileWords host bindings ws store = (.ok spans, c, store') ∧
      SpansOf host bindings (forest.leaves []) store spans store') ∧
    (¬ Extendable ws →
      ∃ (before after : List Word) (tag : String) (loc : Option String) (e : CompileError),
        ws = before ++ .endTag tag loc :: after ∧ Extendable before ∧
        ¬ Extendable (before ++ [.endTag tag loc]) ∧
        ((Compiler.start bindings).feedAll host before store).1 = .ok () ∧
        (compileWords host bindings ws store).1 = .error (.compile e) ∧ e.loc = loc ∧
        (Opens before [] ∧ e.kind = .unstartedTag ∨
          ∃ (outer : List ScopeEntry) (top : ScopeEntry), Opens before (outer ++ [top]) ∧
            top.tag ≠ tag ∧ e.kind = .mismatchedTag)) ∧
    (Extendable ws → (¬ ∃ forest : Forest, ws = forest.words) →
      ∃ (outer : List ScopeEntry) (top : ScopeEntry) (e : CompileError),
        Opens ws (outer ++ [top]) ∧
        (compileWords host bindings ws store).1 = .error (.compile e) ∧
        e.kind = .unclosedTag ∧ e.loc = top.loc) := by
  have hforest : ∀ forest : Forest, ws = forest.words →
      ∃ (spans : Spans) (c : Compiler) (store' : Store σ),
        compileWords host bindings ws store = (.ok spans, c, store') ∧
        SpansOf host bindings (forest.leaves []) store spans store' := by
    rintro forest rfl
    exact compileWords_of_forest forest hstore hws
  have hill := compileWords_of_not_extendable hstore hws
  have hopen := compileWords_of_unclosed hstore hws
  refine ⟨⟨?_, ?_⟩, hforest, hill, hopen⟩
  · rintro ⟨spans, hspans⟩
    by_contra hnot
    by_cases hextendable : Extendable ws
    · obtain ⟨_, _, e, _, herror, _⟩ := hopen hextendable hnot
      rw [hspans] at herror
      cases herror
    · obtain ⟨_, _, _, _, e, _, _, _, _, herror, _⟩ := hill hextendable
      rw [hspans] at herror
      cases herror
  · rintro ⟨forest, hwords⟩
    obtain ⟨spans, c, store', hresult, -⟩ := hforest forest hwords
    exact ⟨spans, by rw [hresult]⟩

/-! ## Compilations that go well -/

/-- What is gathered without a failure was evaluated, one attribute after the other. -/
theorem evaluatesRow_of_gather {scopes : ScopeStack} {spanIndex : Nat} {spanLoc : Option String}
    (row : List AttributeInForce) {bag bag' : Bag} {owned owned' : Claims}
    {store store' : Store σ}
    (hdefiner : ∀ a ∈ row, scopes.definingEntry? a.name = some a.definer)
    (hnew : (bag.values.names ++ row.map AttributeInForce.name).Nodup)
    (h : gatherAttributes host bindings scopes spanIndex spanLoc
      (row.map fun a => (a.name, a.written)) bag owned store = (.ok bag', owned', store')) :
    ∃ values, bag'.values.entries = bag.values.entries ++ values ∧
      EvaluatesRow host bindings row store values store' := by
  induction row generalizing bag owned store with
  | nil =>
    cases h
    exact ⟨[], by simp, .nil _⟩
  | cons a rest ih =>
    rw [List.map_cons, gatherAttributes, hdefiner a (by simp), Option.bind_some] at h
    rcases hvalue : attributeValue host bindings a.definer.loc a.written store with ⟨result, mid⟩
    rw [hvalue] at h
    cases result with
    | error e => cases h
    | ok v =>
      dsimp only at h
      cases hclaim : claimValue spanIndex spanLoc a.definer.loc a.name v owned with
      | error e =>
        rw [hclaim] at h
        cases h
      | ok granted =>
        rw [hclaim] at h
        obtain ⟨hfresh, hrest⟩ := Bag.nodup_set v hnew
        obtain ⟨values, hentries, hrow⟩ := ih (fun b hb => hdefiner b (by simp [hb])) hrest h
        refine ⟨(a.name, v) :: values, ?_, .cons hvalue hrow⟩
        rw [hentries, Bag.set, NameMap.entries_insert_of_notMem _ _ hfresh, List.append_assoc]
        rfl

/-- A text word that is taken gives the span of a leaf. -/
theorem span_of_feed_text {c c' : Compiler} {store store' : Store σ} {content : String}
    {loc : Option String} {span : Option Span} (hupToDate : c.scopes.UpToDate)
    (h : c.feed host (.text content loc) store = (.ok span, c', store')) :
    ∃ attributes : Bag,
      c'.spans = c.spans ++ [⟨content, c.scopes.tags, attributes, loc⟩] ∧
      c'.scopes = c.scopes ∧ c'.bindings = c.bindings ∧
      EvaluatesRow host c.bindings (attributesInForce c.scopes.entries) store
        attributes.values.entries store' := by
  rw [Compiler.feed_text (Compiler.alive_of_taken h)] at h
  rcases hgather : gatherAttributes host c.bindings c.scopes c.spans.length loc
    c.scopes.flat.entries ⟨∅⟩ c.owned store with ⟨result, owned, mid⟩
  cases result with
  | error e =>
    rw [Compiler.feedText_of_gather_error content hgather] at h
    cases h
  | ok attributes =>
    rw [Compiler.feedText_of_gather content hgather] at h
    cases h
    rw [hupToDate.flat_eq, entries_flatten] at hgather
    obtain ⟨values, hentries, hrow⟩ := evaluatesRow_of_gather _
      (by
        intro a ha
        rw [definingEntry?_eq, innermostDefinition?_of_mem ha]
        rfl)
      (by
        rw [names_attributesInForce]
        exact nodup_definedNames c.scopes.entries)
      hgather
    have hvalues : attributes.values.entries = values := hentries
    exact ⟨attributes, rfl, rfl, rfl, hvalues ▸ hrow⟩

/-- Words that are taken nest, and give the spans of the leaves among them. -/
theorem walk_of_feedAll {ws : List Word} {c c' : Compiler} {store store' : Store σ}
    (hbindings : c.bindings = bindings) (hupToDate : c.scopes.UpToDate)
    (h : c.feedAll host ws store = (.ok (), c', store')) :
    ∃ leaves spans, walk c.scopes.entries ws = some (leaves, c'.scopes.entries) ∧
      c'.spans = c.spans ++ spans ∧ SpansOf host bindings leaves store spans store' := by
  induction ws generalizing c store with
  | nil =>
    cases h
    exact ⟨[], [], rfl, by simp, .nil _⟩
  | cons w ws ih =>
    rw [Compiler.feedAll] at h
    rcases hfeed : c.feed host w store with ⟨result, next, mid⟩
    rw [hfeed] at h
    cases result with
    | error e => cases h
    | ok span =>
      dsimp only at h
      cases w with
      | text content loc =>
        obtain ⟨attributes, hspan, hscopes, hnext, hrow⟩ := span_of_feed_text hupToDate hfeed
        obtain ⟨leaves, spans, hwalk, hspans, hof⟩ :=
          ih (hnext.trans hbindings) (hscopes ▸ hupToDate) h
        refine ⟨⟨content, loc, c.scopes.entries⟩ :: leaves,
          ⟨content, c.scopes.tags, attributes, loc⟩ :: spans, ?_, ?_, ?_⟩
        · rw [walk, ← hscopes, hwalk]
          rfl
        · rw [hspans, hspan, List.append_assoc]
          rfl
        · exact .cons (hbindings ▸ hrow) hof
      | startTag tag attributes loc =>
        obtain ⟨hscopes, hsame, hnext, rfl⟩ :=
          Compiler.scopes_of_feed_startTag ⟨tag, attributes, loc⟩ hfeed
        obtain ⟨leaves, spans, hwalk, hspans, hof⟩ :=
          ih (hnext.trans hbindings) (hscopes ▸ hupToDate.push _) h
        rw [hscopes] at hwalk
        exact ⟨leaves, spans, hwalk, hsame ▸ hspans, hof⟩
      | endTag tag loc =>
        obtain ⟨⟨top, hpop⟩, hsame, hnext, rfl⟩ := Compiler.scopes_of_feed_endTag hfeed
        obtain ⟨leaves, spans, hwalk, hspans, hof⟩ :=
          ih (hnext.trans hbindings) (hupToDate.pop hpop) h
        obtain ⟨hentries, htag, -⟩ := ScopeStack.pop_eq_ok hpop
        refine ⟨leaves, spans, ?_, hsame ▸ hspans, hof⟩
        rw [walk, hentries, List.getLast?_concat]
        dsimp only
        rw [if_pos htag, List.dropLast_concat]
        exact hwalk

/-- Whatever compiles is the linear form of a forest, and its spans are those of the leaves. -/
theorem flattened_of_compileWords {ws : List Word} {store store' : Store σ} {spans : Spans}
    {c : Compiler} (h : compileWords host bindings ws store = (.ok spans, c, store')) :
    ∃ forest : Forest, ws = forest.words ∧
      SpansOf host bindings (forest.leaves []) store spans store' := by
  rw [compileWords] at h
  rcases hfeed : (Compiler.start bindings).feedAll host ws store with ⟨result, c', mid⟩
  rw [hfeed] at h
  cases result with
  | error e => cases h
  | ok _ =>
    obtain ⟨leaves, spans', hwalk, hspans, hof⟩ :=
      walk_of_feedAll rfl ScopeStack.upToDate_empty hfeed
    have hclosed : c'.scopes.entries = [] ∧ c'.spans = spans ∧ mid = store' := by
      have halive := Compiler.alive_of_feedAll_ok rfl hfeed
      dsimp only at h
      rw [Compiler.finish, if_neg (by simp [halive])] at h
      cases hlast : c'.scopes.entries.getLast? with
      | some innermost =>
        rw [hlast] at h
        cases h
      | none =>
        rw [hlast] at h
        cases h
        exact ⟨List.getLast?_eq_none_iff.mp hlast, rfl, rfl⟩
    obtain ⟨hnone, rfl, rfl⟩ := hclosed
    rw [hnone] at hwalk
    obtain ⟨forest, rfl⟩ := (opens_nil_iff ws).mp (opens_of_walk hwalk)
    have hforest := walk_forest forest []
    rw [show (Compiler.start bindings).scopes.entries = [] from rfl, hforest] at hwalk
    cases hwalk
    rw [show c'.spans = spans' from hspans]
    exact ⟨forest, rfl, hof⟩

end

/-! ## A forest with a call and a hidden attribute -/

/-- A function that counts its calls. -/
def countingHost : Host Int where
  call _ _ _ n := (.ok (.number (.int (n + 1))), n + 1)

/-- Two elements with a text in each; the inner one hides an attribute of the outer one, whose
other attribute is a call. -/
def shadowingForest : Forest :=
  .node ⟨"a", .ofList [("x", .expr (.call "f" [])), ("y", .text "out")], none⟩ none
    (.leaf "one" none
      (.node ⟨"b", .ofList [("y", .text "in")], none⟩ none (.leaf "two" none .empty) .empty))
    .empty

/-- The call has a value in every state, so the words of the forest compile. -/
theorem compileWords_shadowingForest :
    (∀ element : ScopeEntry, element.startTag ∈ shadowingForest.words →
      Evaluable countingHost (.ofList [("f", .function (.given 0) "count")]) (fun _ => True)
        element) ∧
    ∃ (spans : Spans) (c : Compiler) (store' : Store Int),
      compileWords countingHost (.ofList [("f", .function (.given 0) "count")])
        shadowingForest.words ⟨0, [], 0⟩ = (.ok spans, c, store') ∧
      SpansOf countingHost (.ofList [("f", .function (.given 0) "count")])
        (shadowingForest.leaves []) ⟨0, [], 0⟩ spans store' := by
  have hws : ∀ element : ScopeEntry, element.startTag ∈ shadowingForest.words →
      Evaluable countingHost (.ofList [("f", .function (.given 0) "count")]) (fun _ => True)
        element := by
    rintro ⟨tag, attributes, loc⟩ hmem entry hentry store -
    simp only [shadowingForest, Forest.words, ScopeEntry.startTag, List.cons_append,
      List.nil_append, List.mem_cons, Word.startTag.injEq, reduceCtorEq, List.not_mem_nil,
      or_false, false_or] at hmem
    rcases hmem with ⟨rfl, rfl, rfl⟩ | ⟨rfl, rfl, rfl⟩
    · simp only [NameMap.ofList, NameMap.insert, NameMap.insertEntry, NameMap.empty,
        List.foldl_cons, List.foldl_nil, List.mem_cons, List.not_mem_nil, or_false,
        String.reduceEq, if_false] at hentry
      rcases hentry with rfl | rfl
      · exact ⟨.number (.int (store.host + 1)), { store with host := store.host + 1 }, rfl, rfl,
          trivial⟩
      · exact ⟨.text "out", store, rfl, rfl, trivial⟩
    · simp only [NameMap.ofList, NameMap.insert, NameMap.insertEntry, NameMap.empty,
        List.foldl_cons, List.foldl_nil, List.mem_singleton] at hentry
      subst hentry
      exact ⟨.text "in", store, rfl, rfl, trivial⟩
  exact ⟨hws, (compileWords_flattens countingHost _ (fun _ => True) shadowingForest.words
    ⟨0, [], 0⟩ trivial hws).2.1 shadowingForest rfl⟩

end MarkupSpans
