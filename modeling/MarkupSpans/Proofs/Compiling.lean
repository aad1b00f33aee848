import MarkupSpans.Compiler

/-!
# Feeding a compiler word by word

What one word does to a compiler that has not ended, and how a row of words splits: a failure in
the middle of a row is the failure of the whole row, and of the whole compilation.
-/

set_option autoImplicit false

namespace MarkupSpans

variable {σ : Type}

/-! ## One attribute -/

/-- In a row of new names each name is new, and the next ones are new beside it. -/
theorem Bag.nodup_set {bag : Bag} {name : String} {rest : List String} (v : Value)
    (h : (bag.values.names ++ name :: rest).Nodup) :
    name ∉ bag.values.names ∧ ((bag.set name v).values.names ++ rest).Nodup := by
  have hnew : name ∉ bag.values.names := by
    rw [List.nodup_append] at h
    exact fun hmem => h.2.2 _ hmem _ (by simp) rfl
  refine ⟨hnew, ?_⟩
  rw [Bag.set, NameMap.names_insert, if_neg hnew]
  simpa using h

/-- Gathering attributes in two goes. -/
theorem gatherAttributes_append (host : Host σ) (bindings : NameMap Value) (scopes : ScopeStack)
    (spanIndex : Nat) (spanLoc : Option String) (row more : List (String × Value)) (bag : Bag)
    (owned : Claims) (store : Store σ) :
    gatherAttributes host bindings scopes spanIndex spanLoc (row ++ more) bag owned store =
      match gatherAttributes host bindings scopes spanIndex spanLoc row bag owned store with
      | (.error e, owned', store') => (.error e, owned', store')
      | (.ok bag', owned', store') =>
        gatherAttributes host bindings scopes spanIndex spanLoc more bag' owned' store' := by
  induction row generalizing bag owned store with
  | nil => rfl
  | cons entry rest ih =>
    obtain ⟨name, written⟩ := entry
    rw [List.cons_append, gatherAttributes, gatherAttributes]
    rcases attributeValue host bindings ((scopes.definingEntry? name).bind ScopeEntry.loc) written
      store with ⟨result, mid⟩
    cases result with
    | error e => rfl
    | ok v =>
      simp only
      cases claimValue spanIndex spanLoc ((scopes.definingEntry? name).bind ScopeEntry.loc) name v
        owned with
      | error e => rfl
      | ok owned' => exact ih (bag.set name v) owned' mid

/-- What every granted claim keeps of the bag and the claims is kept by gathering that goes
well. -/
theorem gathered_of_claims {host : Host σ} {bindings : NameMap Value} {scopes : ScopeStack}
    {spanIndex : Nat} {spanLoc : Option String} {P : Bag → Claims → Prop}
    (hP : ∀ (bag : Bag) (owned owned' : Claims) (name : String) (v : Value)
      (tagLoc : Option String), name ∉ bag.values.names →
        claimValue spanIndex spanLoc tagLoc name v owned = .ok owned' →
        P bag owned → P (bag.set name v) owned')
    (row : List (String × Value)) (bag : Bag) (owned : Claims) (store : Store σ)
    (h : P bag owned) (hnew : (bag.values.names ++ row.map Prod.fst).Nodup)
    {bag' : Bag} {owned' : Claims} {store' : Store σ}
    (hgather : gatherAttributes host bindings scopes spanIndex spanLoc row bag owned store =
      (.ok bag', owned', store')) : P bag' owned' := by
  induction row generalizing bag owned store with
  | nil =>
    simp only [gatherAttributes, Prod.mk.injEq, Except.ok.injEq] at hgather
    obtain ⟨rfl, rfl, -⟩ := hgather
    exact h
  | cons entry rest ih =>
    obtain ⟨name, written⟩ := entry
    rw [gatherAttributes] at hgather
    rcases hvalue : attributeValue host bindings ((scopes.definingEntry? name).bind ScopeEntry.loc)
      written store with ⟨result, mid⟩
    rw [hvalue] at hgather
    cases result with
    | error e => simp at hgather
    | ok v =>
      simp only at hgather
      cases hclaim : claimValue spanIndex spanLoc
        ((scopes.definingEntry? name).bind ScopeEntry.loc) name v owned with
      | error e => simp [hclaim] at hgather
      | ok granted =>
        rw [hclaim] at hgather
        obtain ⟨hfresh, hrest⟩ := Bag.nodup_set v hnew
        exact ih (bag.set name v) granted mid (hP bag owned granted name v _ hfresh hclaim h)
          hrest hgather

namespace Compiler

/-! ## One word -/

/-- A compiler that has not ended takes a text word by making a span. -/
theorem feed_text {c : Compiler} (h : c.state.isTerminal = false) (host : Host σ)
    (content : String) (loc : Option String) (store : Store σ) :
    c.feed host (.text content loc) store = c.feedText host content loc store := by
  simp [feed, h]

/-- A compiler that has not ended takes a start tag by opening its element. -/
theorem feed_startTag {c : Compiler} (h : c.state.isTerminal = false) (host : Host σ)
    (element : ScopeEntry) (store : Store σ) :
    c.feed host (.startTag element.tag element.attributes element.loc) store =
      (.ok none, { c with scopes := c.scopes.push element, state := .inScope }, store) := by
  simp [feed, h]

/-- An end tag that fits closes the innermost element. -/
theorem feed_endTag_of_pop {c : Compiler} (h : c.state.isTerminal = false) (host : Host σ)
    {tag : String} {loc : Option String} {top : ScopeEntry} {scopes : ScopeStack}
    (hpop : c.scopes.pop tag loc = .ok (top, scopes)) (store : Store σ) :
    c.feed host (.endTag tag loc) store =
      (.ok none,
        { c with scopes, state := if scopes.depth = 0 then CompilerState.ready else .inScope },
        store) := by
  simp [feed, h, hpop]

/-- An end tag that does not fit makes the compiler fail. -/
theorem feed_endTag_of_error {c : Compiler} (h : c.state.isTerminal = false) (host : Host σ)
    {tag : String} {loc : Option String} {e : CompileError}
    (hpop : c.scopes.pop tag loc = .error e) (store : Store σ) :
    c.feed host (.endTag tag loc) store =
      (.error (.compile e), { c with state := .failed }, store) := by
  simp [feed, h, hpop]

/-- A text word whose attributes are gathered well gives a span. -/
theorem feedText_of_gather {host : Host σ} {c : Compiler} (content : String)
    {loc : Option String} {store store' : Store σ} {attributes : Bag} {owned : Claims}
    (h : gatherAttributes host c.bindings c.scopes c.spans.length loc c.scopes.flat.entries {}
      c.owned store = (.ok attributes, owned, store')) :
    c.feedText host content loc store =
      (.ok (some ⟨content, c.scopes.tags, attributes, loc⟩),
        { c with owned, spans := c.spans ++ [⟨content, c.scopes.tags, attributes, loc⟩] },
        store') := by
  simp only [feedText, h]

/-- A text word fails as gathering its attributes does. -/
theorem feedText_of_gather_error {host : Host σ} {c : Compiler} (content : String)
    {loc : Option String} {store store' : Store σ} {e : Failure} {owned : Claims}
    (h : gatherAttributes host c.bindings c.scopes c.spans.length loc c.scopes.flat.entries {}
      c.owned store = (.error e, owned, store')) :
    c.feedText host content loc store =
      (.error e, { c with owned }.afterFailure e, store') := by
  simp only [feedText, h]

/-- Tags do not change the spans and the claims. -/
theorem feed_tag_spans_owned (host : Host σ) {w : Word}
    (hw : ¬ ∃ content loc, w = .text content loc) (c : Compiler) (store : Store σ) :
    (c.feed host w store).2.1.spans = c.spans ∧ (c.feed host w store).2.1.owned = c.owned := by
  cases h : c.state.isTerminal with
  | true => simp [feed, h]
  | false =>
    cases w with
    | text content loc => exact absurd ⟨content, loc, rfl⟩ hw
    | startTag tag attributes loc =>
      rw [feed_startTag h host ⟨tag, attributes, loc⟩]
      exact ⟨rfl, rfl⟩
    | endTag tag loc =>
      cases hpop : c.scopes.pop tag loc with
      | error e =>
        rw [feed_endTag_of_error h host hpop]
        exact ⟨rfl, rfl⟩
      | ok r =>
        obtain ⟨top, scopes⟩ := r
        rw [feed_endTag_of_pop h host hpop]
        exact ⟨rfl, rfl⟩

/-- A compiler that has ended takes no word. -/
theorem feed_of_terminal (host : Host σ) {c : Compiler} (h : c.state.isTerminal = true) (w : Word)
    (store : Store σ) :
    c.feed host w store = (.error (.compile (c.feedError w.loc)), c, store) := by
  simp [feed, h]

/-! ## Rows of words -/

/-- The words behind a row are fed to what the row leaves, if it does not fail. -/
theorem feedAll_append (host : Host σ) (ws more : List Word) (c : Compiler) (store : Store σ) :
    feedAll host (ws ++ more) c store =
      match feedAll host ws c store with
      | (.error e, c', store') => (.error e, c', store')
      | (.ok (), c', store') => feedAll host more c' store' := by
  induction ws generalizing c store with
  | nil => rfl
  | cons w ws ih =>
    rw [List.cons_append, feedAll, feedAll]
    rcases hfeed : c.feed host w store with ⟨result, c', store'⟩
    cases result with
    | error e => rfl
    | ok span => exact ih c' store'

/-- A compiler that takes a word has not ended, and goes on. -/
theorem alive_of_feed_ok {host : Host σ} {w : Word} {c c' : Compiler} {store store' : Store σ}
    {span : Option Span} (h : c.feed host w store = (.ok span, c', store')) :
    c'.state.isTerminal = false := by
  cases halive : c.state.isTerminal with
  | true =>
    rw [feed_of_terminal host halive] at h
    cases h
  | false =>
    cases w with
    | text content loc =>
      rw [feed_text halive] at h
      rcases hgather : gatherAttributes host c.bindings c.scopes c.spans.length loc
        c.scopes.flat.entries ⟨∅⟩ c.owned store with ⟨result, owned, mid⟩
      cases result with
      | error e =>
        rw [feedText_of_gather_error content hgather] at h
        cases h
      | ok attributes =>
        rw [feedText_of_gather content hgather] at h
        cases h
        exact halive
    | startTag tag attributes loc =>
      rw [feed_startTag halive host ⟨tag, attributes, loc⟩] at h
      cases h
      rfl
    | endTag tag loc =>
      cases hpop : c.scopes.pop tag loc with
      | error e =>
        rw [feed_endTag_of_error halive host hpop] at h
        cases h
      | ok r =>
        obtain ⟨top, scopes⟩ := r
        rw [feed_endTag_of_pop halive host hpop] at h
        cases h
        dsimp only
        split <;> rfl

/-- A compiler that takes a word has not ended before. -/
theorem alive_of_taken {host : Host σ} {w : Word} {c c' : Compiler} {store store' : Store σ}
    {span : Option Span} (h : c.feed host w store = (.ok span, c', store')) :
    c.state.isTerminal = false := by
  cases halive : c.state.isTerminal with
  | false => rfl
  | true =>
    rw [feed_of_terminal host halive] at h
    cases h

/-- A text word that is taken opens and closes nothing. -/
theorem scopes_of_feed_text {host : Host σ} {c c' : Compiler} {store store' : Store σ}
    {content : String} {loc : Option String} {span : Option Span}
    (h : c.feed host (.text content loc) store = (.ok span, c', store')) :
    c'.scopes = c.scopes ∧ c'.bindings = c.bindings := by
  rw [feed_text (alive_of_taken h)] at h
  rcases hgather : gatherAttributes host c.bindings c.scopes c.spans.length loc
    c.scopes.flat.entries {} c.owned store with ⟨result, owned, mid⟩
  cases result with
  | error e =>
    rw [feedText_of_gather_error content hgather] at h
    cases h
  | ok attributes =>
    rw [feedText_of_gather content hgather] at h
    cases h
    exact ⟨rfl, rfl⟩

/-- A start tag that is taken opens its element. -/
theorem scopes_of_feed_startTag {host : Host σ} {c c' : Compiler} {store store' : Store σ}
    (element : ScopeEntry) {span : Option Span}
    (h : c.feed host (.startTag element.tag element.attributes element.loc) store =
      (.ok span, c', store')) :
    c'.scopes = c.scopes.push element ∧ c'.spans = c.spans ∧ c'.bindings = c.bindings ∧
      store' = store := by
  rw [feed_startTag (alive_of_taken h)] at h
  cases h
  exact ⟨rfl, rfl, rfl, rfl⟩

/-- An end tag that is taken closes the innermost element. -/
theorem scopes_of_feed_endTag {host : Host σ} {c c' : Compiler} {store store' : Store σ}
    {tag : String} {loc : Option String} {span : Option Span}
    (h : c.feed host (.endTag tag loc) store = (.ok span, c', store')) :
    (∃ top, c.scopes.pop tag loc = .ok (top, c'.scopes)) ∧ c'.spans = c.spans ∧
      c'.bindings = c.bindings ∧ store' = store := by
  have halive := alive_of_taken h
  cases hpop : c.scopes.pop tag loc with
  | error e =>
    rw [feed_endTag_of_error halive host hpop] at h
    cases h
  | ok r =>
    obtain ⟨top, scopes⟩ := r
    rw [feed_endTag_of_pop halive host hpop] at h
    cases h
    exact ⟨⟨top, rfl⟩, rfl, rfl, rfl⟩

/-- A compiler that has taken all words has not ended. -/
theorem alive_of_feedAll_ok {host : Host σ} {ws : List Word} {c c' : Compiler}
    {store store' : Store σ} (halive : c.state.isTerminal = false)
    (h : c.feedAll host ws store = (.ok (), c', store')) : c'.state.isTerminal = false := by
  induction ws generalizing c store with
  | nil =>
    cases h
    exact halive
  | cons w ws ih =>
    rw [feedAll] at h
    rcases hfeed : c.feed host w store with ⟨result, mid, store''⟩
    rw [hfeed] at h
    cases result with
    | error e => cases h
    | ok span => exact ih (alive_of_feed_ok hfeed) h

end Compiler

open Compiler

/-- The first word that fails decides what a compilation comes to. -/
theorem compileWords_of_feed_error {host : Host σ} {bindings : NameMap Value} {before after :
    List Word} {w : Word} {store : Store σ} {c c' : Compiler} {mid store' : Store σ} {e : Failure}
    (hbefore : (Compiler.start bindings).feedAll host before store = (.ok (), c, mid))
    (hfeed : c.feed host w mid = (.error e, c', store')) :
    compileWords host bindings (before ++ w :: after) store = (.error e, c', store') := by
  rw [compileWords, feedAll_append, hbefore]
  simp only [feedAll, hfeed]

/-- Without a failing word the end of the compilation decides. -/
theorem compileWords_of_feedAll {host : Host σ} {bindings : NameMap Value} {ws : List Word}
    {store store' : Store σ} {c : Compiler}
    (h : (Compiler.start bindings).feedAll host ws store = (.ok (), c, store')) :
    compileWords host bindings ws store =
      (c.finish.1.mapError .compile, c.finish.2, store') := by
  rw [compileWords, h]

end MarkupSpans
