import MarkupSpans.Compilation
import MarkupSpans.Proofs.Execution
import MarkupSpans.Proofs.Faults
import MarkupSpans.Proofs.Scoping

/-!
# Reading and compiling in turns

A text is compiled while it is read: each word is fed as soon as it has been read, and what is to
be said about a word is said before that.  Reading all of it first and compiling the words then
comes to the same (`compileMarkup_in_turns`), up to the first word that fails; behind that word
nothing is read any more.

The failures that meet here are told apart by their kinds: that an element is open at the end is
found neither in a word (`Compiler.isWordError_of_feedAll`) nor in reading the text
(`Source.kind_of_failure`).
-/

set_option autoImplicit false

namespace MarkupSpans

variable {σ : Type} {host : Host σ} {bindings : NameMap Value}

/-! ## What words fail with -/

/-- Some call of a bound function fails with an error. -/
def Host.FailsWith (host : Host σ) (e : Failure) : Prop :=
  ∃ self name args state, (host.call self name args state).1 = .error e

/-- Some call by a name that is bound fails with an error. -/
def CallFailsWith (host : Host σ) (bindings : NameMap Value) (e : Failure) : Prop :=
  ∃ fired loc name callee args store, resolveCallee bindings fired loc name = .ok callee ∧
    (callee.invoke host args store).1 = .error e

/-- The kinds of errors that the compiler itself finds when it is fed a word. -/
def wordErrorKinds : List ErrorKind :=
  [.compilerState, .unstartedTag, .mismatchedTag, .unboundReference, .sharedResource]

/-- An error is one that the compiler finds in a word, at one of some places if it has a place, or
a call fails with it. -/
def IsWordError (host : Host σ) (bindings : NameMap Value) (places : String → Prop)
    (e : CompileError) : Prop :=
  (e.kind ∈ wordErrorKinds ∧ ∀ place ∈ e.loc, places place) ∨
    CallFailsWith host bindings (.compile e)

/-- A channel that cannot be written is no error of the markup. -/
theorem channelHex_ne_compile (v : Value) (e : CompileError) :
    v.channelHex ≠ .error (.compile e) := by
  intro h
  unfold Value.channelHex at h
  split at h
  · split at h <;> cases h
  · cases h
  · cases h

/-- A colour that cannot be written is no error of the markup. -/
theorem colorHex_ne_compile (r g b a : Value) (e : CompileError) :
    Value.colorHex r g b a ≠ .error (.compile e) := by
  intro h
  unfold Value.colorHex at h
  cases hr : r.channelHex with
  | error failure =>
    rw [hr] at h
    cases h
    exact channelHex_ne_compile r e hr
  | ok red =>
    cases hg : g.channelHex with
    | error failure =>
      rw [hr, hg] at h
      cases h
      exact channelHex_ne_compile g e hg
    | ok green =>
      cases hb : b.channelHex with
      | error failure =>
        rw [hr, hg, hb] at h
        cases h
        exact channelHex_ne_compile b e hb
      | ok blue =>
        cases ha : a.channelHex with
        | error failure =>
          rw [hr, hg, hb, ha] at h
          simp only [bind, Except.bind] at h
          split at h
          · cases h
          · cases h
            exact channelHex_ne_compile a e ha
        | ok opacity =>
          rw [hr, hg, hb, ha] at h
          simp only [bind, Except.bind] at h
          split at h <;> cases h

/-- A call fails with an error of the markup only as a bound function does. -/
theorem failsWith_of_invoke {args : List Value} {e : CompileError} : (v : Value) →
    {store : Store σ} → (v.invoke host args store).1 = .error (.compile e) →
    host.FailsWith (.compile e)
  | .function self name, store, h => ⟨self, name, args, store.host, h⟩
  | .oneShot self action, store, h => by
    rw [Value.invoke] at h
    split at h
    · cases h
    · exact failsWith_of_invoke action h
  | .maker m, store, h => by
    rw [Value.invoke] at h
    unfold Maker.make at h
    dsimp only at h
    split at h <;> cases h
  | .hexOf _ r g b a, store, h => by
    unfold Value.invoke at h
    split at h
    · cases hhex : Value.colorHex r g b a with
      | ok digits =>
        rw [hhex] at h
        cases h
      | error failure =>
        rw [hhex] at h
        cases h
        exact absurd hhex (colorHex_ne_compile r g b a e)
    · cases h
  | .nothing, _, h => by simp [Value.invoke] at h
  | .number _, _, h => by simp [Value.invoke] at h
  | .text _, _, h => by simp [Value.invoke] at h
  | .list _, _, h => by simp [Value.invoke] at h
  | .color _ _ _ _ _, _, h => by simp [Value.invoke] at h
  | .record _, _, h => by simp [Value.invoke] at h
  | .handle _ _, _, h => by simp [Value.invoke] at h
  | .expr _, _, h => by simp [Value.invoke] at h

/-- A bound function that fails so is one of the host's. -/
theorem CallFailsWith.failsWith {e : CompileError}
    (h : CallFailsWith host bindings (.compile e)) : host.FailsWith (.compile e) := by
  obtain ⟨_, _, _, callee, _, _, -, hinvoke⟩ := h
  exact failsWith_of_invoke callee hinvoke

/-- A function that cannot be found is an unbound reference, at the given place. -/
theorem unbound_of_resolveCallee_error {fired : List Identity} {loc : Option String}
    {name : String} {e : CompileError} (h : resolveCallee bindings fired loc name = .error e) :
    e.kind = .unboundReference ∧ e.loc = loc := by
  unfold resolveCallee at h
  split at h
  · rename_i hname
    cases h
    exact unbound_of_resolveName_error hname
  · split at h
    · cases h
    · cases h
      exact ⟨rfl, rfl⟩

section Places

variable {places : String → Prop}

mutual

/-- An expression fails with an error of its words, or of a bound function. -/
theorem isWordError_of_evaluate {loc : Option String} (hloc : ∀ place ∈ loc, places place)
    {e : CompileError} : (expr : Expr) → {store : Store σ} →
    (expr.evaluate host bindings loc store).1 = .error (.compile e) →
    IsWordError host bindings places e
  | .text _, _, h => by cases h
  | .number _, _, h => by cases h
  | .ref name, store, h => by
    rw [Expr.evaluate] at h
    cases hname : resolveName bindings store.fired loc name with
    | ok v =>
      rw [hname] at h
      cases h
    | error e' =>
      rw [hname] at h
      cases h
      obtain ⟨hkind, hplace⟩ := unbound_of_resolveName_error hname
      exact .inl ⟨by rw [hkind]; decide, hplace ▸ hloc⟩
  | .call name args, store, h => by
    rw [Expr.evaluate] at h
    cases hcallee : resolveCallee bindings store.fired loc name with
    | error e' =>
      rw [hcallee] at h
      cases h
      obtain ⟨hkind, hplace⟩ := unbound_of_resolveCallee_error hcallee
      exact .inl ⟨by rw [hkind]; decide, hplace ▸ hloc⟩
    | ok callee =>
      rw [hcallee] at h
      dsimp only at h
      rcases hargs : Expr.evaluateAll host bindings loc args store with ⟨result, mid⟩
      rw [hargs] at h
      cases result with
      | error failure =>
        cases h
        exact isWordError_of_evaluateAll hloc args (congrArg Prod.fst hargs)
      | ok values => exact .inr ⟨_, _, _, callee, _, _, hcallee, h⟩

/-- Expressions fail with an error of their words, or of a bound function. -/
theorem isWordError_of_evaluateAll {loc : Option String} (hloc : ∀ place ∈ loc, places place)
    {e : CompileError} : (exprs : List Expr) → {store : Store σ} →
    (Expr.evaluateAll host bindings loc exprs store).1 = .error (.compile e) →
    IsWordError host bindings places e
  | [], _, h => by cases h
  | expr :: rest, store, h => by
    rw [Expr.evaluateAll] at h
    rcases hvalue : expr.evaluate host bindings loc store with ⟨result, mid⟩
    rw [hvalue] at h
    cases result with
    | error failure =>
      cases h
      exact isWordError_of_evaluate hloc expr (congrArg Prod.fst hvalue)
    | ok v =>
      dsimp only at h
      rcases hrest : Expr.evaluateAll host bindings loc rest mid with ⟨others, store'⟩
      rw [hrest] at h
      cases others with
      | error failure =>
        cases h
        exact isWordError_of_evaluateAll hloc rest (congrArg Prod.fst hrest)
      | ok values => cases h

end

/-- The elements of some path are at some places, those that have a place. -/
def PathAt (places : String → Prop) (path : List ScopeEntry) : Prop :=
  ∀ element ∈ path, ∀ place ∈ element.loc, places place

/-- The defining element of a name lies at one of the places of its path. -/
theorem PathAt.definingEntry? {scopes : ScopeStack} (h : PathAt places scopes.entries)
    (name : String) : ∀ place ∈ (scopes.definingEntry? name).bind ScopeEntry.loc, places place := by
  intro place hplace
  obtain ⟨element, hfound, hloc⟩ := Option.bind_eq_some_iff.mp hplace
  exact h element (List.mem_reverse.mp (List.mem_of_find?_eq_some hfound)) place hloc

/-- The first place that is known is one of the places. -/
theorem places_of_placeOr {loc other : Option String} (hloc : ∀ place ∈ loc, places place)
    (hother : ∀ place ∈ other, places place) : ∀ place ∈ placeOr loc other, places place := by
  unfold placeOr
  split
  · exact hother
  · split
    · exact hother
    · exact hloc

/-- Gathering attributes fails with an error of their words, or of a bound function. -/
theorem isWordError_of_gatherAttributes {scopes : ScopeStack} {spanIndex : Nat}
    {spanLoc : Option String} {row : List (String × Value)} {bag : Bag} {owned : Claims}
    {store : Store σ} {e : CompileError} (hpath : PathAt places scopes.entries)
    (hspan : ∀ place ∈ spanLoc, places place)
    (h : (gatherAttributes host bindings scopes spanIndex spanLoc row bag owned store).1 =
      .error (.compile e)) : IsWordError host bindings places e := by
  induction row generalizing bag owned store with
  | nil => cases h
  | cons entry rest ih =>
    obtain ⟨name, written⟩ := entry
    rw [gatherAttributes] at h
    rcases hvalue : attributeValue host bindings
      ((scopes.definingEntry? name).bind ScopeEntry.loc) written store with ⟨result, mid⟩
    simp only [hvalue] at h
    cases result with
    | error failure =>
      cases h
      cases written with
      | expr expr =>
        exact isWordError_of_evaluate (hpath.definingEntry? name) expr (congrArg Prod.fst hvalue)
      | _ => cases hvalue
    | ok v =>
      dsimp only at h
      cases hclaim : claimValue spanIndex spanLoc
        ((scopes.definingEntry? name).bind ScopeEntry.loc) name v owned with
      | error e' =>
        rw [hclaim] at h
        cases h
        obtain ⟨hkind, hplace⟩ := shared_of_claimValue_error hclaim
        refine .inl ⟨by rw [hkind]; decide, ?_⟩
        rw [hplace]
        exact places_of_placeOr (hpath.definingEntry? name) hspan
      | ok owned' =>
        rw [hclaim] at h
        exact ih h

namespace Compiler

/-- A word fails with an error that the compiler finds in it, or with that of a bound function. -/
theorem isWordError_of_feed {w : Word} {c : Compiler} {store : Store σ} {e : CompileError}
    (hpath : PathAt places c.scopes.entries) (hword : ∀ place ∈ w.loc, places place)
    (h : (c.feed host w store).1 = .error (.compile e)) :
    IsWordError host c.bindings places e := by
  cases halive : c.state.isTerminal with
  | true =>
    rw [feed_of_terminal host halive] at h
    cases h
    exact .inl ⟨by simp [feedError, wordErrorKinds], hword⟩
  | false =>
    cases w with
    | text content loc =>
      rw [feed_text halive] at h
      rcases hgather : gatherAttributes host c.bindings c.scopes c.spans.length loc
        c.scopes.flat.entries {} c.owned store with ⟨result, owned, mid⟩
      cases result with
      | error failure =>
        rw [feedText_of_gather_error content hgather] at h
        cases h
        exact isWordError_of_gatherAttributes hpath hword (congrArg Prod.fst hgather)
      | ok attributes =>
        rw [feedText_of_gather content hgather] at h
        cases h
    | startTag tag attributes loc =>
      rw [feed_startTag halive host ⟨tag, attributes, loc⟩] at h
      cases h
    | endTag tag loc =>
      cases hpop : c.scopes.pop tag loc with
      | ok r =>
        obtain ⟨top, scopes⟩ := r
        rw [feed_endTag_of_pop halive host hpop] at h
        cases h
      | error e' =>
        rw [feed_endTag_of_error halive host hpop] at h
        cases h
        refine .inl ⟨?_, ScopeStack.loc_of_pop_error hpop ▸ hword⟩
        rcases ScopeStack.pop_eq_error hpop with ⟨-, hkind⟩ | ⟨_, _, -, -, hkind⟩
        · rw [hkind]
          decide
        · rw [hkind]
          decide

/-- A word that is taken opens at most an element at its place. -/
theorem pathAt_of_feed {w : Word} {c c' : Compiler} {store store' : Store σ} {span : Option Span}
    (hpath : PathAt places c.scopes.entries) (hword : ∀ place ∈ w.loc, places place)
    (h : c.feed host w store = (.ok span, c', store')) :
    PathAt places c'.scopes.entries ∧ c'.bindings = c.bindings := by
  cases w with
  | text content loc =>
    obtain ⟨hscopes, hbindings⟩ := scopes_of_feed_text h
    exact ⟨hscopes ▸ hpath, hbindings⟩
  | startTag tag attributes loc =>
    obtain ⟨hscopes, -, hbindings, -⟩ :=
      scopes_of_feed_startTag ⟨tag, attributes, loc⟩ h
    refine ⟨?_, hbindings⟩
    rw [hscopes]
    intro element hmem
    rcases List.mem_append.mp hmem with hopen | hnew
    · exact hpath element hopen
    · rw [List.mem_singleton.mp hnew]
      exact hword
  | endTag tag loc =>
    obtain ⟨⟨top, hpop⟩, -, hbindings, -⟩ := scopes_of_feed_endTag h
    refine ⟨?_, hbindings⟩
    intro element hmem
    exact hpath element (by simp [(ScopeStack.pop_eq_ok hpop).1, hmem])

/-- Feeding words fails with an error of these words, or of a bound function. -/
theorem isWordError_of_feedAll {ws : List Word} {c : Compiler} {store : Store σ}
    {e : CompileError} (hpath : PathAt places c.scopes.entries)
    (hwords : ∀ w ∈ ws, ∀ place ∈ w.loc, places place)
    (h : (c.feedAll host ws store).1 = .error (.compile e)) :
    IsWordError host c.bindings places e := by
  induction ws generalizing c store with
  | nil => cases h
  | cons w ws ih =>
    rw [feedAll] at h
    rcases hfeed : c.feed host w store with ⟨result, c', store'⟩
    rw [hfeed] at h
    have hword := hwords w List.mem_cons_self
    cases result with
    | error failure =>
      cases h
      exact isWordError_of_feed hpath hword (congrArg Prod.fst hfeed)
    | ok span =>
      obtain ⟨hpath', hbindings⟩ := pathAt_of_feed hpath hword hfeed
      rw [← hbindings]
      exact ih hpath' (fun other hmem => hwords other (List.mem_cons_of_mem _ hmem)) h

end Compiler

end Places

/-! ## What reading a text fails with -/

/-- What is read from a text are words and notices. -/
theorem Source.stray_notMem_words (s : Source) : .stray ∉ s.words.items := by
  simp only [words_eq, streamOf, List.mem_map, not_exists, not_and]
  intro token _ hitem
  unfold itemOf at hitem
  split at hitem <;> cases hitem

/-- A delivery fails with the error of its stream, or else not with an error of the markup. -/
theorem failure_of_deliverItems {failure : Option Failure} {items : List StreamItem}
    {r : Reporter} {e : CompileError}
    (h : (deliverItems failure items r).failure = some (.compile e)) :
    failure = some (.compile e) := by
  induction items generalizing r with
  | nil => exact h
  | cons item rest ih =>
    cases item with
    | word w => exact ih h
    | stray => exact ih h
    | notice n loc =>
      rw [deliverItems] at h
      rcases hwarn : r.warn n.message (some (.text loc)) with ⟨result, r'⟩
      rw [hwarn] at h
      cases result with
      | ok _ => exact ih h
      | error e' =>
        cases h
        exact absurd (congrArg Prod.fst hwarn) (r.warn_ne_compile n.message (some (.text loc)) e)

/-! ## Taking items one by one -/

/-- A compiler only takes errors of the markup from its source as its own. -/
theorem Compiler.afterSource_of_ne_compile (c : Compiler) {e : Failure}
    (h : ∀ e', e ≠ .compile e') : c.afterSource e = c := by
  cases e with
  | compile e' => exact absurd rfl (h e')
  | _ => rfl

namespace Session

/-- Items are taken one by one, up to the first that fails. -/
theorem feedSource_cons (host : Host σ) (item : StreamItem) (rest : List StreamItem)
    (failure : Option Failure) (s : Session σ) :
    s.feedSource host (item :: rest) failure =
      match s.take host item with
      | (.error e, s') => (.error e, s')
      | (.ok (), s') => s'.feedSource host rest failure := by
  rw [feedSource, takeAll]
  rcases s.take host item with ⟨result, s'⟩
  cases result <;> rfl

/-- If no word of a delivery fails, taking the items in turns ends as the delivery does. -/
theorem feedSource_of_feedAll_ok {failure : Option Failure} {items : List StreamItem}
    (hstray : .stray ∉ items) {s : Session σ} {c : Compiler} {store : Store σ}
    (h : s.compiler.feedAll host (deliverItems failure items s.reporter).words s.store =
      (.ok (), c, store)) :
    s.feedSource host items failure =
      match (deliverItems failure items s.reporter).failure with
      | none => (.ok (), ⟨c, store, (deliverItems failure items s.reporter).reporter⟩)
      | some e =>
        (.error e, ⟨c.afterSource e, store, (deliverItems failure items s.reporter).reporter⟩) := by
  -- by induction on the items: the compiler and the reporter take turns, and do not meet
  induction items generalizing s with
  | nil =>
    cases h
    cases failure <;> rfl
  | cons item rest ih =>
    rw [List.mem_cons, not_or] at hstray
    rw [feedSource_cons]
    cases item with
    | stray => exact absurd rfl hstray.1
    | word w =>
      simp only [deliverItems, Compiler.feedAll] at h ⊢
      rcases hfeed : s.compiler.feed host w s.store with ⟨result, c', mid⟩
      rw [hfeed] at h
      cases result with
      | error e => cases h
      | ok span =>
        simp only [take, hfeed, Except.map]
        exact ih hstray.2 h
    | notice n loc =>
      simp only [deliverItems] at h ⊢
      rcases hwarn : s.reporter.warn n.message (some (.text loc)) with ⟨result, r'⟩
      rw [hwarn] at h
      cases result with
      | ok _ =>
        simp only [take, hwarn]
        exact ih hstray.2 h
      | error e =>
        cases h
        have hother : ∀ e', e ≠ .compile e' := by
          rintro e' rfl
          exact s.reporter.warn_ne_compile n.message (some (.text loc)) e' (congrArg Prod.fst hwarn)
        simp only [take, hwarn, Compiler.afterSource_of_ne_compile _ hother]

/-- If a word of a delivery fails, taking the items in turns ends at that word, with what was to
be said in front of it. -/
theorem feedSource_of_feedAll_error {failure : Option Failure} {items : List StreamItem}
    (hstray : .stray ∉ items) {s : Session σ} {e : Failure} {c : Compiler} {store : Store σ}
    (h : s.compiler.feedAll host (deliverItems failure items s.reporter).words s.store =
      (.error e, c, store)) :
    ∃ before w after front behind c₀ mid r,
      (deliverItems failure items s.reporter).words = before ++ w :: after ∧
      items = front ++ .word w :: behind ∧
      deliverItems none front s.reporter = ⟨before, none, r⟩ ∧
      s.compiler.feedAll host before s.store = (.ok (), c₀, mid) ∧
      c₀.feed host w mid = (.error e, c, store) ∧
      s.feedSource host items failure = (.error e, ⟨c, store, r⟩) := by
  induction items generalizing s with
  | nil => cases h
  | cons item rest ih =>
    rw [List.mem_cons, not_or] at hstray
    rw [feedSource_cons]
    cases item with
    | stray => exact absurd rfl hstray.1
    | word w =>
      simp only [deliverItems, Compiler.feedAll] at h ⊢
      rcases hfeed : s.compiler.feed host w s.store with ⟨result, c', mid⟩
      rw [hfeed] at h
      simp only [take, hfeed]
      cases result with
      | error e' =>
        cases h
        exact ⟨[], w, _, [], rest, s.compiler, s.store, s.reporter, rfl, rfl, rfl, rfl, hfeed, rfl⟩
      | ok span =>
        obtain ⟨before, w', after, front, behind, c₀, mid', r, hwords, rfl, hfront, hbefore, hlast,
          hsource⟩ := ih hstray.2 (s := { s with compiler := c', store := mid }) h
        refine ⟨w :: before, w', after, .word w :: front, behind, c₀, mid', r, ?_, rfl, ?_, ?_,
          hlast, hsource⟩
        · rw [List.cons_append, ← hwords]
        · rw [deliverItems, hfront]
        · rw [Compiler.feedAll, hfeed]
          exact hbefore
    | notice n loc =>
      simp only [deliverItems] at h ⊢
      rcases hwarn : s.reporter.warn n.message (some (.text loc)) with ⟨result, r'⟩
      rw [hwarn] at h
      simp only [take, hwarn]
      cases result with
      | error e' => cases h
      | ok _ =>
        obtain ⟨before, w', after, front, behind, c₀, mid', r, hwords, rfl, hfront, hbefore, hlast,
          hsource⟩ := ih hstray.2 (s := { s with reporter := r' }) h
        refine ⟨before, w', after, .notice n loc :: front, behind, c₀, mid', r, hwords, rfl, ?_,
          hbefore, hlast, hsource⟩
        rw [deliverItems, hwarn]
        exact hfront

end Session

/-! ## The main result -/

section

variable {source : Source} {store store' : Store σ} {reporter : Reporter} {c : Compiler}

/-- A text without a word that fails ends as reading it does. -/
theorem compileMarkup_of_feedAll_ok
    (h : (Compiler.start bindings).feedAll host (source.words.deliver reporter).words store =
      (.ok (), c, store')) :
    compileMarkup host bindings source store reporter =
      match (source.words.deliver reporter).failure with
      | none => (c.finish.1.mapError .compile,
          ⟨c.finish.2, store', (source.words.deliver reporter).reporter⟩)
      | some e =>
        (.error e, ⟨c.afterSource e, store', (source.words.deliver reporter).reporter⟩) := by
  have hsource := Session.feedSource_of_feedAll_ok (s := ⟨Compiler.start bindings, store, reporter⟩)
    source.stray_notMem_words h
  rw [compileMarkup, compileStream, Session.feedAll, hsource]
  simp only [WordStream.deliver]
  cases (deliverItems source.words.failure source.words.items reporter).failure <;> rfl

/-- A text with a word that fails ends at the first one. -/
theorem compileMarkup_of_feedAll_error {e : Failure}
    (h : (Compiler.start bindings).feedAll host (source.words.deliver reporter).words store =
      (.error e, c, store')) :
    ∃ before w after front behind c₀ mid r,
      (source.words.deliver reporter).words = before ++ w :: after ∧
      source.words.items = front ++ .word w :: behind ∧
      deliverItems none front reporter = ⟨before, none, r⟩ ∧
      (Compiler.start bindings).feedAll host before store = (.ok (), c₀, mid) ∧
      c₀.feed host w mid = (.error e, c, store') ∧
      compileMarkup host bindings source store reporter = (.error e, ⟨c, store', r⟩) := by
  let start : Session σ := ⟨Compiler.start bindings, store, reporter⟩
  obtain ⟨before, w, after, front, behind, c₀, mid, r, hwords, hitems, hfront, hbefore, hlast,
    hsource⟩ := Session.feedSource_of_feedAll_error (s := start) source.stray_notMem_words h
  refine ⟨before, w, after, front, behind, c₀, mid, r, hwords, hitems, hfront, hbefore, hlast, ?_⟩
  rw [compileMarkup, compileStream, Session.feedAll, hsource]

end

section

variable (host : Host σ) (bindings : NameMap Value) (source : Source) (store : Store σ)
  (reporter : Reporter)

/-- Bound functions are called as when the words are compiled that reading delivers. -/
theorem store_compileMarkup :
    (compileMarkup host bindings source store reporter).2.store =
      ((Compiler.start bindings).feedAll host (source.words.deliver reporter).words store).2.2 := by
  rcases hfed : (Compiler.start bindings).feedAll host (source.words.deliver reporter).words store
    with ⟨result, c, store'⟩
  cases result with
  | ok _ =>
    rw [compileMarkup_of_feedAll_ok hfed]
    cases (source.words.deliver reporter).failure <;> rfl
  | error e =>
    obtain ⟨_, _, _, _, _, _, _, _, -, -, -, -, -, hcompiled⟩ := compileMarkup_of_feedAll_error hfed
    rw [hcompiled]

/-- A text that can be read to its end is compiled as its words are. -/
theorem compileMarkup_of_complete (h : (source.words.deliver reporter).failure = none) :
    let compiled := compileMarkup host bindings source store reporter
    let eager := compileWords host bindings (source.words.deliver reporter).words store
    compiled.1 = eager.1 ∧ compiled.2.compiler = eager.2.1 ∧ compiled.2.store = eager.2.2 := by
  rcases hfed : (Compiler.start bindings).feedAll host (source.words.deliver reporter).words store
    with ⟨result, c, store'⟩
  cases result with
  | ok _ =>
    rw [compileMarkup_of_feedAll_ok hfed, compileWords_of_feedAll hfed, h]
    exact ⟨rfl, rfl, rfl⟩
  | error e =>
    obtain ⟨_, _, _, _, _, _, _, _, -, -, -, -, -, hcompiled⟩ := compileMarkup_of_feedAll_error hfed
    rw [hcompiled, compileWords, hfed]
    exact ⟨rfl, rfl, rfl⟩

/-- A text that cannot be read to its end fails as its first word that fails, or else as reading
it does. -/
theorem compileMarkup_of_failure {e : Failure}
    (h : (source.words.deliver reporter).failure = some e) :
    (compileMarkup host bindings source store reporter).1 =
      match ((Compiler.start bindings).feedAll host (source.words.deliver reporter).words store).1
        with
      | .ok () => .error e
      | .error e' => .error e' := by
  rcases hfed : (Compiler.start bindings).feedAll host (source.words.deliver reporter).words store
    with ⟨result, c, store'⟩
  cases result with
  | ok _ => rw [compileMarkup_of_feedAll_ok hfed, h]
  | error e' =>
    obtain ⟨_, _, _, _, _, _, _, _, -, -, -, -, -, hcompiled⟩ := compileMarkup_of_feedAll_error hfed
    rw [hcompiled]

/-- A text that cannot be read to its end never fails because elements are open there, unless a
bound function says so. -/
theorem failsWith_of_unclosedTag {failure : Failure} {e : CompileError}
    (h : (source.words.deliver reporter).failure = some failure)
    (he : (compileMarkup host bindings source store reporter).1 = .error (.compile e))
    (hkind : e.kind = .unclosedTag) : host.FailsWith (.compile e) := by
  rw [compileMarkup_of_failure host bindings source store reporter h] at he
  split at he
  · cases he
    have hgrammar := source.kind_of_failure (failure_of_deliverItems h)
    rw [hkind] at hgrammar
    simp at hgrammar
  · rename_i hfed
    cases he
    have herror : IsWordError host bindings (fun _ => True) e :=
      Compiler.isWordError_of_feedAll (fun _ _ _ _ => trivial) (fun _ _ _ _ => trivial) hfed
    rcases herror with ⟨hword, -⟩ | hcalled
    · rw [hkind] at hword
      exact absurd hword (by decide)
    · exact hcalled.failsWith

end

/-- Compiling a text in turns comes to what reading it first and compiling its words then comes
to, whatever the settings of reports and the bound functions are. -/
theorem compileMarkup_in_turns (host : Host σ) (bindings : NameMap Value) (source : Source)
    (store : Store σ) (reporter : Reporter) :
    let delivery := source.words.deliver reporter
    let fed := (Compiler.start bindings).feedAll host delivery.words store
    let compiled := compileMarkup host bindings source store reporter
    let recorded := compileMarkup host.recording bindings source (store.recorded []) reporter
    -- a text that can be read to its end is compiled as its words are
    (delivery.failure = none →
      let eager := compileWords host bindings delivery.words store
      compiled.1 = eager.1 ∧ compiled.2.compiler = eager.2.1 ∧ compiled.2.store = eager.2.2) ∧
    -- any other text fails as its first word that fails, or else as reading it does, and not
    -- because elements are open at the end
    (∀ e, delivery.failure = some e →
      (compiled.1 = match fed.1 with
        | .ok () => .error e
        | .error e' => .error e') ∧
      ∀ e', compiled.1 = .error (.compile e') → e'.kind = .unclosedTag →
        host.FailsWith (.compile e')) ∧
    -- the same is called, and in the same order
    (compiled.2.store = fed.2.2 ∧ recorded.2.store =
      ((Compiler.start bindings).feedAll host.recording delivery.words (store.recorded [])).2.2) ∧
    -- without a word that fails, all is reported that reading the text reports
    (fed.1 = .ok () → compiled.2.reporter = delivery.reporter) ∧
    -- and otherwise what reading it reports up to that word
    ∀ e, fed.1 = .error e → ∃ before w after front behind c mid,
      delivery.words = before ++ w :: after ∧ source.words.items = front ++ .word w :: behind ∧
      deliverItems none front reporter = ⟨before, none, compiled.2.reporter⟩ ∧
      (Compiler.start bindings).feedAll host before store = (.ok (), c, mid) ∧
      (c.feed host w mid).1 = .error e := by
  intro delivery fed compiled recorded
  refine ⟨?_, ?_, ⟨?_, ?_⟩, ?_, ?_⟩
  · intro hnone
    exact compileMarkup_of_complete host bindings source store reporter hnone
  · intro e he
    refine ⟨compileMarkup_of_failure host bindings source store reporter he, ?_⟩
    intro e' herror hkind
    exact failsWith_of_unclosedTag host bindings source store reporter he herror hkind
  · exact store_compileMarkup host bindings source store reporter
  · exact store_compileMarkup host.recording bindings source (store.recorded []) reporter
  · intro hok
    have hfed : fed = (.ok (), fed.2.1, fed.2.2) := Prod.ext hok rfl
    simp only [compiled, compileMarkup_of_feedAll_ok hfed]
    cases hfailure : (source.words.deliver reporter).failure <;> rfl
  · intro e herror
    have hfed : fed = (.error e, fed.2.1, fed.2.2) := Prod.ext herror rfl
    obtain ⟨before, w, after, front, behind, c, mid, r, hwords, hitems, hfront, hbefore, hlast,
      hcompiled⟩ := compileMarkup_of_feedAll_error hfed
    refine ⟨before, w, after, front, behind, c, mid, hwords, hitems, ?_, hbefore,
      congrArg Prod.fst hlast⟩
    simp only [compiled, hcompiled]
    exact hfront

end MarkupSpans
