import MarkupSpans.Proofs.Compiling

/-!
# Owners of move-only values

A move-only value belongs to one attribute of one span at most, in every run of a compiler, also
one in which words fail and others are fed after them.  The invariant is `Recorded`: whatever
move-only value the spans hold is claimed for the place that holds it.  As an identity has one
claim, it has one place.

In one compilation the claims say even more (`Exact`): what is claimed is held.  So a claim is
refused exactly if the value is held already, by an earlier span or by the one being built.
-/

set_option autoImplicit false

namespace MarkupSpans

/-- An attribute of a bag holds a move-only value. -/
def Bag.Holds (bag : Bag) (name : String) (self : Identity) : Prop :=
  ∃ v, bag.values.get? name = some v ∧ v.moveOnly? = some self

/-- The compilers that come up in a run.  Words are fed in any order and whatever feeding comes
to, the source of the words may fail, and the run may be finished; between two steps the objects,
and what the bound functions do, may change. -/
inductive Compiler.Reachable (bindings : NameMap Value) : Compiler → Prop
  /-- A new compiler. -/
  | start : Reachable bindings (.start bindings)
  /-- One more word. -/
  | feed {σ : Type} {c : Compiler} (host : Host σ) (w : Word) (store : Store σ) :
      Reachable bindings c → Reachable bindings (c.feed host w store).2.1
  /-- An error of the source of the words. -/
  | sourceError {c : Compiler} : Reachable bindings c → Reachable bindings c.afterSourceError
  /-- The end of the run. -/
  | finish {c : Compiler} : Reachable bindings c → Reachable bindings c.finish.2

/-- One of some bags, given by its index, holds a move-only value. -/
def HeldAt (bags : List Bag) (i : Nat) (name : String) (self : Identity) : Prop :=
  ∃ bag, bags[i]? = some bag ∧ bag.Holds name self

/-- What the bags hold is claimed for the place that holds it. -/
def Recorded (owned : Claims) (bags : List Bag) : Prop :=
  ∀ i name self, HeldAt bags i name self →
    ∃ claim, owned.lookup self = some claim ∧ claim.spanIndex = i ∧ claim.name = name

/-- What is claimed is held at the place that it is claimed for. -/
def Exact (owned : Claims) (bags : List Bag) : Prop :=
  ∀ self claim, owned.lookup self = some claim → HeldAt bags claim.spanIndex claim.name self

/-! ## Places -/

/-- A value is held in a row of bags by the earlier ones or by the last one. -/
theorem heldAt_append_iff (earlier : List Bag) (bag : Bag) (i : Nat) (name : String)
    (self : Identity) :
    HeldAt (earlier ++ [bag]) i name self ↔
      HeldAt earlier i name self ∨ i = earlier.length ∧ bag.Holds name self := by
  constructor
  · rintro ⟨held, hget, hholds⟩
    rcases Nat.lt_trichotomy i earlier.length with hlt | heq | hgt
    · rw [List.getElem?_append_left hlt] at hget
      exact .inl ⟨held, hget, hholds⟩
    · subst heq
      rw [List.getElem?_concat_length, Option.some.injEq] at hget
      subst hget
      exact .inr ⟨rfl, hholds⟩
    · rw [List.getElem?_eq_none (by simp; omega)] at hget
      cases hget
  · rintro (⟨held, hget, hholds⟩ | ⟨rfl, hholds⟩)
    · obtain ⟨hlt, -⟩ := List.getElem?_eq_some_iff.mp hget
      exact ⟨held, by rw [List.getElem?_append_left hlt, hget], hholds⟩
    · exact ⟨bag, List.getElem?_concat_length, hholds⟩

/-- An empty bag holds nothing. -/
theorem not_holds_empty (name : String) (self : Identity) : ¬ Bag.Holds ⟨∅⟩ name self := by
  rintro ⟨v, hget, -⟩
  cases hget

/-- A written attribute holds its value, and the other attributes hold what they held. -/
theorem holds_set_iff (bag : Bag) (name other : String) (v : Value) (self : Identity) :
    (bag.set name v).Holds other self ↔
      other = name ∧ v.moveOnly? = some self ∨ other ≠ name ∧ bag.Holds other self := by
  rw [Bag.Holds, Bag.set, Bag.Holds]
  simp only [NameMap.get?_insert]
  by_cases h : other = name
  · simp [h]
  · simp [h]

/-- Claims that record a row of bags record the earlier ones. -/
theorem Recorded.of_append {owned : Claims} {earlier : List Bag} {bag : Bag}
    (h : Recorded owned (earlier ++ [bag])) : Recorded owned earlier := by
  intro i name self hheld
  exact h i name self ((heldAt_append_iff _ _ _ _ _).mpr (.inl hheld))

/-- A new bag holds nothing. -/
theorem Recorded.append_empty {owned : Claims} {earlier : List Bag} (h : Recorded owned earlier) :
    Recorded owned (earlier ++ [⟨∅⟩]) := by
  intro i name self hheld
  rcases (heldAt_append_iff _ _ _ _ _).mp hheld with hearlier | ⟨-, hholds⟩
  · exact h i name self hearlier
  · exact absurd hholds (not_holds_empty name self)

/-- An empty bag more needs no claims. -/
theorem Exact.append_empty {owned : Claims} {earlier : List Bag} (h : Exact owned earlier) :
    Exact owned (earlier ++ [⟨∅⟩]) := by
  intro self claim hlookup
  exact (heldAt_append_iff _ _ _ _ _).mpr (.inl (h self claim hlookup))

/-! ## One claim -/

/-- What a claim comes to: there is nothing to claim, or the value was free and is claimed now, or
the claim is refused because there is one already. -/
theorem claimValue_cases (spanIndex : Nat) (spanLoc tagLoc : Option String) (name : String)
    (v : Value) (owned : Claims) :
    v.moveOnly? = none ∧ claimValue spanIndex spanLoc tagLoc name v owned = .ok owned ∨
    (∃ self, v.moveOnly? = some self ∧ owned.lookup self = none ∧
      claimValue spanIndex spanLoc tagLoc name v owned =
        .ok ((self, ⟨spanIndex, name, spanLoc⟩) :: owned)) ∨
    ∃ (self : Identity) (earlier : Claim) (e : CompileError), v.moveOnly? = some self ∧
      owned.lookup self = some earlier ∧
      claimValue spanIndex spanLoc tagLoc name v owned = .error e ∧ e.kind = .sharedResource := by
  rw [claimValue]
  cases hself : v.moveOnly? with
  | none => exact .inl ⟨rfl, rfl⟩
  | some self =>
    cases hlookup : owned.lookup self with
    | none => exact .inr (.inl ⟨self, rfl, hlookup, by simp [hlookup]⟩)
    | some earlier =>
      exact .inr (.inr ⟨self, earlier, _, rfl, hlookup, by simp [hlookup]; rfl, rfl⟩)

/-- A new claim is found under its value, and the others as before. -/
theorem lookup_cons_claim (self other : Identity) (claim : Claim) (owned : Claims) :
    ((self, claim) :: owned).lookup other =
      if other = self then some claim else owned.lookup other := by
  by_cases h : other = self
  · simp [h]
  · simp [List.lookup_cons, beq_false_of_ne h, h]

/-- A claim that is granted keeps all earlier ones, and adds that of the value if there is one to
add. -/
theorem claimValue_ok_lookup {spanIndex : Nat} {spanLoc tagLoc : Option String} {name : String}
    {v : Value} {owned owned' : Claims}
    (h : claimValue spanIndex spanLoc tagLoc name v owned = .ok owned') :
    (∀ self claim, owned.lookup self = some claim → owned'.lookup self = some claim) ∧
      (∀ self, v.moveOnly? = some self → owned'.lookup self = some ⟨spanIndex, name, spanLoc⟩) ∧
      ∀ self claim, owned'.lookup self = some claim →
        owned.lookup self = some claim ∨
          v.moveOnly? = some self ∧ claim = ⟨spanIndex, name, spanLoc⟩ := by
  rcases claimValue_cases spanIndex spanLoc tagLoc name v owned with
    ⟨hnone, hok⟩ | ⟨new, hnew, hfree, hok⟩ | ⟨_, _, e, _, _, herror, _⟩
  · rw [hok, Except.ok.injEq] at h
    subst h
    refine ⟨fun _ _ hlookup => hlookup, ?_, fun _ _ hlookup => .inl hlookup⟩
    intro self hself
    rw [hnone] at hself
    cases hself
  · rw [hok, Except.ok.injEq] at h
    subst h
    refine ⟨?_, ?_, ?_⟩
    · intro self claim hlookup
      rw [lookup_cons_claim, if_neg, hlookup]
      rintro rfl
      rw [hfree] at hlookup
      cases hlookup
    · intro self hself
      rw [hnew, Option.some.injEq] at hself
      rw [lookup_cons_claim, if_pos hself.symm]
    · intro self claim hlookup
      rw [lookup_cons_claim] at hlookup
      by_cases heq : self = new
      · rw [if_pos heq, Option.some.injEq] at hlookup
        exact .inr ⟨heq ▸ hnew, hlookup.symm⟩
      · rw [if_neg heq] at hlookup
        exact .inl hlookup
  · rw [herror] at h
    cases h

/-- A written attribute that is new leaves alone what was held. -/
theorem HeldAt.set_of_new {earlier : List Bag} {bag : Bag} {name : String}
    (hnew : name ∉ bag.values.names) (v : Value) {i : Nat} {other : String} {self : Identity}
    (h : HeldAt (earlier ++ [bag]) i other self) :
    HeldAt (earlier ++ [bag.set name v]) i other self := by
  rw [heldAt_append_iff] at h ⊢
  rcases h with hearlier | ⟨hi, hholds⟩
  · exact .inl hearlier
  · refine .inr ⟨hi, (holds_set_iff _ _ _ _ _).mpr (.inr ⟨?_, hholds⟩)⟩
    rintro rfl
    obtain ⟨w, hget, -⟩ := hholds
    rw [(NameMap.get?_eq_none_iff _ _).mpr hnew] at hget
    cases hget

/-- The last bag holds the move-only value that was just written. -/
theorem heldAt_set_self (earlier : List Bag) (bag : Bag) (name : String) {v : Value}
    {self : Identity} (h : v.moveOnly? = some self) :
    HeldAt (earlier ++ [bag.set name v]) earlier.length name self :=
  (heldAt_append_iff _ _ _ _ _).mpr (.inr ⟨rfl, (holds_set_iff _ _ _ _ _).mpr (.inl ⟨rfl, h⟩)⟩)

/-- A claim that is granted records what it is for. -/
theorem Recorded.claim {owned owned' : Claims} {earlier : List Bag} {bag : Bag} {name : String}
    {v : Value} {spanLoc tagLoc : Option String} (h : Recorded owned (earlier ++ [bag]))
    (hclaim : claimValue earlier.length spanLoc tagLoc name v owned = .ok owned') :
    Recorded owned' (earlier ++ [bag.set name v]) := by
  obtain ⟨hkept, hnew, -⟩ := claimValue_ok_lookup hclaim
  intro i other self hheld
  -- it was held before, at another place than the one written now, or it is the value itself
  have hcases : HeldAt (earlier ++ [bag]) i other self ∨
      i = earlier.length ∧ other = name ∧ v.moveOnly? = some self := by
    rcases (heldAt_append_iff _ _ _ _ _).mp hheld with hearlier | ⟨hi, hholds⟩
    · exact .inl ((heldAt_append_iff _ _ _ _ _).mpr (.inl hearlier))
    · rcases (holds_set_iff _ _ _ _ _).mp hholds with ⟨hname, hself⟩ | ⟨-, hholds⟩
      · exact .inr ⟨hi, hname, hself⟩
      · exact .inl ((heldAt_append_iff _ _ _ _ _).mpr (.inr ⟨hi, hholds⟩))
  rcases hcases with hbefore | ⟨hi, hname, hself⟩
  · obtain ⟨claim, hlookup, hplace⟩ := h i other self hbefore
    exact ⟨claim, hkept self claim hlookup, hplace⟩
  · exact ⟨_, hnew self hself, hi.symm, hname.symm⟩

/-- What was claimed is held still after a new attribute was written. -/
theorem Exact.claim {owned owned' : Claims} {earlier : List Bag} {bag : Bag} {name : String}
    {v : Value} {spanLoc tagLoc : Option String} (h : Exact owned (earlier ++ [bag]))
    (hnew : name ∉ bag.values.names)
    (hclaim : claimValue earlier.length spanLoc tagLoc name v owned = .ok owned') :
    Exact owned' (earlier ++ [bag.set name v]) := by
  intro self claim hlookup
  rcases (claimValue_ok_lookup hclaim).2.2 self claim hlookup with hold | ⟨hself, rfl⟩
  · exact (h self claim hold).set_of_new hnew v
  · exact heldAt_set_self earlier bag name hself

/-! ## The attributes of one span -/

section

variable {σ : Type}

/-- Whatever gathering comes to, the bags before it are recorded still, and so is the bag that it
gives. -/
theorem Recorded.gather (host : Host σ) (bindings : NameMap Value) (scopes : ScopeStack)
    (spanLoc : Option String) {earlier : List Bag} (row : List (String × Value)) (bag : Bag)
    (owned : Claims) (store : Store σ) (h : Recorded owned (earlier ++ [bag])) :
    let result := gatherAttributes host bindings scopes earlier.length spanLoc row bag owned store
    Recorded result.2.1 earlier ∧
      ∀ bag', result.1 = .ok bag' → Recorded result.2.1 (earlier ++ [bag']) := by
  induction row generalizing bag owned store with
  | nil =>
    refine ⟨h.of_append, ?_⟩
    intro bag' hbag
    rw [gatherAttributes, Except.ok.injEq] at hbag
    subst hbag
    exact h
  | cons entry rest ih =>
    obtain ⟨name, written⟩ := entry
    rw [gatherAttributes]
    rcases attributeValue host bindings ((scopes.definingEntry? name).bind ScopeEntry.loc) written
      store with ⟨result, mid⟩
    cases result with
    | error e => exact ⟨h.of_append, fun bag' hbag => by cases hbag⟩
    | ok v =>
      simp only
      cases hclaim : claimValue earlier.length spanLoc
        ((scopes.definingEntry? name).bind ScopeEntry.loc) name v owned with
      | error e => exact ⟨h.of_append, fun bag' hbag => by cases hbag⟩
      | ok owned' => exact ih (bag.set name v) owned' mid (h.claim hclaim)

/-- As long as gathering goes well, what is claimed is held. -/
theorem Exact.gather {host : Host σ} {bindings : NameMap Value} {scopes : ScopeStack}
    {spanLoc : Option String} {earlier : List Bag} (row : List (String × Value)) (bag : Bag)
    (owned : Claims) (store : Store σ) (h : Exact owned (earlier ++ [bag]))
    (hnew : (bag.values.names ++ row.map Prod.fst).Nodup)
    {bag' : Bag} {owned' : Claims} {store' : Store σ}
    (hgather : gatherAttributes host bindings scopes earlier.length spanLoc row bag owned store =
      (.ok bag', owned', store')) :
    Exact owned' (earlier ++ [bag']) :=
  gathered_of_claims (P := fun bag owned => Exact owned (earlier ++ [bag]))
    (fun _ _ _ _ _ _ hfresh hclaim hexact => hexact.claim hfresh hclaim) row bag owned store h hnew
    hgather

/-! ## Whole runs -/

/-- Whatever feeding a word comes to, what the spans hold is recorded. -/
theorem Recorded.feed {c : Compiler} (h : Recorded c.owned (c.spans.map Span.attributes))
    (host : Host σ) (w : Word) (store : Store σ) :
    Recorded (c.feed host w store).2.1.owned
      ((c.feed host w store).2.1.spans.map Span.attributes) := by
  by_cases hw : ∃ content loc, w = .text content loc
  · obtain ⟨content, loc, rfl⟩ := hw
    cases halive : c.state.isTerminal with
    | true =>
      rw [Compiler.feed_of_terminal host halive]
      exact h
    | false =>
      have hgathered := Recorded.gather host c.bindings c.scopes loc c.scopes.flat.entries ⟨∅⟩
        c.owned store h.append_empty
      rw [List.length_map] at hgathered
      rw [Compiler.feed_text halive]
      rcases hgather : gatherAttributes host c.bindings c.scopes c.spans.length loc
        c.scopes.flat.entries ⟨∅⟩ c.owned store with ⟨result, owned, store'⟩
      rw [hgather] at hgathered
      cases result with
      | error e =>
        rw [Compiler.feedText_of_gather_error content hgather]
        cases e <;> exact hgathered.1
      | ok attributes =>
        rw [Compiler.feedText_of_gather content hgather]
        simpa using hgathered.2 attributes rfl
  · obtain ⟨hspans, howned⟩ := Compiler.feed_tag_spans_owned host hw c store
    rw [hspans, howned]
    exact h

/-- In every run what the spans hold is recorded. -/
theorem recorded_of_reachable {bindings : NameMap Value} {c : Compiler}
    (h : Compiler.Reachable bindings c) : Recorded c.owned (c.spans.map Span.attributes) := by
  induction h with
  | start =>
    rintro i name self ⟨bag, hget, -⟩
    simp [Compiler.start] at hget
  | feed host w store _ ih => exact ih.feed host w store
  | @sourceError c _ ih =>
    rw [Compiler.afterSourceError]
    split
    · exact ih
    · exact ih
  | @finish c _ ih =>
    rw [Compiler.finish]
    split
    · exact ih
    · split
      · exact ih
      · exact ih

/-- After a word that was taken, what is claimed is held. -/
theorem Exact.feed {c c' : Compiler} (h : Exact c.owned (c.spans.map Span.attributes))
    {host : Host σ} {w : Word} {store store' : Store σ} {span : Option Span}
    (hfeed : c.feed host w store = (.ok span, c', store')) :
    Exact c'.owned (c'.spans.map Span.attributes) := by
  by_cases hw : ∃ content loc, w = .text content loc
  · obtain ⟨content, loc, rfl⟩ := hw
    cases halive : c.state.isTerminal with
    | true =>
      rw [Compiler.feed_of_terminal host halive] at hfeed
      cases hfeed
    | false =>
      rw [Compiler.feed_text halive] at hfeed
      rcases hgather : gatherAttributes host c.bindings c.scopes c.spans.length loc
        c.scopes.flat.entries ⟨∅⟩ c.owned store with ⟨result, owned, mid⟩
      cases result with
      | error e =>
        rw [Compiler.feedText_of_gather_error content hgather] at hfeed
        cases hfeed
      | ok attributes =>
        rw [Compiler.feedText_of_gather content hgather] at hfeed
        cases hfeed
        rw [← List.length_map (f := Span.attributes)] at hgather
        simpa using h.append_empty.gather c.scopes.flat.entries ⟨∅⟩ c.owned store
          c.scopes.flat.nodup_names hgather
  · obtain ⟨hspans, howned⟩ := Compiler.feed_tag_spans_owned host hw c store
    rw [hfeed] at hspans howned
    rw [hspans, howned]
    exact h

/-- Words that are all fed keep the claims exact. -/
theorem Exact.feedAll {c c' : Compiler} (h : Exact c.owned (c.spans.map Span.attributes))
    {host : Host σ} {ws : List Word} {store store' : Store σ}
    (hall : c.feedAll host ws store = (.ok (), c', store')) :
    Exact c'.owned (c'.spans.map Span.attributes) := by
  induction ws generalizing c store with
  | nil =>
    cases hall
    exact h
  | cons w ws ih =>
    rw [Compiler.feedAll] at hall
    rcases hfeed : c.feed host w store with ⟨result, mid, store''⟩
    rw [hfeed] at hall
    cases result with
    | error e => cases hall
    | ok span => exact ih (h.feed hfeed) hall

/-- Feeding words keeps the claims complete, whatever it comes to. -/
theorem Recorded.feedAll {c : Compiler} (h : Recorded c.owned (c.spans.map Span.attributes))
    (host : Host σ) (ws : List Word) (store : Store σ) :
    Recorded (c.feedAll host ws store).2.1.owned
      ((c.feedAll host ws store).2.1.spans.map Span.attributes) := by
  induction ws generalizing c store with
  | nil => exact h
  | cons w ws ih =>
    have hnext := h.feed host w store
    rw [Compiler.feedAll]
    rcases hfeed : c.feed host w store with ⟨result, c', store'⟩
    rw [hfeed] at hnext
    cases result with
    | error e => exact hnext
    | ok span => exact ih hnext store'

/-! ## The main result -/

/-- Where all claims are recorded and all that is claimed is held, a claim is refused exactly if
the value is held already. -/
theorem claimValue_error_iff {owned : Claims} {bags : List Bag} (hrecorded : Recorded owned bags)
    (hexact : Exact owned bags) (spanIndex : Nat) (spanLoc tagLoc : Option String) (name : String)
    {v : Value} {self : Identity} (hself : v.moveOnly? = some self) :
    (∃ e, claimValue spanIndex spanLoc tagLoc name v owned = .error e) ↔
      ∃ i other, HeldAt bags i other self := by
  constructor
  · rintro ⟨e, herror⟩
    rcases claimValue_cases spanIndex spanLoc tagLoc name v owned with
      ⟨-, hok⟩ | ⟨_, -, -, hok⟩ | ⟨claimed, earlier, _, hclaimed, hlookup, -, -⟩
    · rw [hok] at herror
      cases herror
    · rw [hok] at herror
      cases herror
    · rw [hself, Option.some.injEq] at hclaimed
      subst hclaimed
      exact ⟨_, _, hexact self earlier hlookup⟩
  · rintro ⟨i, other, hheld⟩
    obtain ⟨claim, hlookup, -, -⟩ := hrecorded i other self hheld
    simp only [claimValue, hself, hlookup]
    exact ⟨_, rfl⟩

/-- A moment in the compilation of some words: a text word is fed, some of its attributes are in
the bag, and the next one has been evaluated to a move-only value that is to be claimed. -/
structure Claiming (host : Host σ) (bindings : NameMap Value) (ws : List Word) (store : Store σ)
    where
  /-- The words before and behind the text. -/
  (before after : List Word)
  content : String
  loc : Option String
  /-- The compiler that the text is fed to. -/
  compiler : Compiler
  /-- The attributes that were gathered, and those that are still to come. -/
  (done rest : List (String × Value))
  name : String
  /-- Its value as the words give it. -/
  written : Value
  /-- The bag so far. -/
  bag : Bag
  /-- The claims so far. -/
  owned : Claims
  /-- The states before the text, before the evaluation and after it. -/
  (fed gathered evaluated : Store σ)
  value : Value
  self : Identity
  words_eq : ws = before ++ .text content loc :: after
  feedAll_eq : (Compiler.start bindings).feedAll host before store = (.ok (), compiler, fed)
  flat_eq : compiler.scopes.flat.entries = done ++ (name, written) :: rest
  gather_eq : gatherAttributes host compiler.bindings compiler.scopes compiler.spans.length loc
    done {} compiler.owned fed = (.ok bag, owned, gathered)
  value_eq : attributeValue host compiler.bindings
    ((compiler.scopes.definingEntry? name).bind ScopeEntry.loc) written gathered =
      (.ok value, evaluated)
  moveOnly_eq : value.moveOnly? = some self

namespace Claiming

variable {host : Host σ} {bindings : NameMap Value} {ws : List Word} {store : Store σ}

/-- What the claim comes to. -/
def result (m : Claiming host bindings ws store) : Except CompileError Claims :=
  claimValue m.compiler.spans.length m.loc
    ((m.compiler.scopes.definingEntry? m.name).bind ScopeEntry.loc) m.name m.value m.owned

/-- The bags that there are at the moment of a claim: those of the spans, and the one that is
being filled. -/
def bags (m : Claiming host bindings ws store) : List Bag :=
  m.compiler.spans.map Span.attributes ++ [m.bag]

/-- The claims during a compilation record its bags. -/
theorem recorded_bags (m : Claiming host bindings ws store) : Recorded m.owned m.bags := by
  have hstart : Recorded (Compiler.start bindings).owned
      ((Compiler.start bindings).spans.map Span.attributes) :=
    recorded_of_reachable .start
  have hfed := hstart.feedAll host m.before store
  rw [m.feedAll_eq] at hfed
  have hgathered := Recorded.gather host m.compiler.bindings m.compiler.scopes m.loc m.done ⟨∅⟩
    m.compiler.owned m.fed hfed.append_empty
  rw [List.length_map, m.gather_eq] at hgathered
  exact hgathered.2 m.bag rfl

/-- The claims during a compilation are those of its bags. -/
theorem exact_bags (m : Claiming host bindings ws store) : Exact m.owned m.bags := by
  have hstart : Exact (Compiler.start bindings).owned
      ((Compiler.start bindings).spans.map Span.attributes) := by
    intro self claim hlookup
    cases hlookup
  have hfed := hstart.feedAll m.feedAll_eq
  have hnodup : (m.done.map Prod.fst).Nodup := by
    have hflat := m.compiler.scopes.flat.nodup_names
    rw [m.flat_eq, List.map_append, List.nodup_append] at hflat
    exact hflat.1
  have hgather := m.gather_eq
  rw [← List.length_map (f := Span.attributes)] at hgather
  exact hfed.append_empty.gather m.done ⟨∅⟩ m.compiler.owned m.fed hnodup hgather

/-- A refused claim is the end of the compilation. -/
theorem compileWords_of_error (m : Claiming host bindings ws store) {e : CompileError}
    (h : m.result = .error e) :
    (compileWords host bindings ws store).1 = .error (.compile e) := by
  have halive := Compiler.alive_of_feedAll_ok rfl m.feedAll_eq
  have hgather : gatherAttributes host m.compiler.bindings m.compiler.scopes
      m.compiler.spans.length m.loc m.compiler.scopes.flat.entries {} m.compiler.owned m.fed =
        (.error (.compile e), m.owned, m.evaluated) := by
    rw [m.flat_eq, gatherAttributes_append, m.gather_eq]
    simp only [gatherAttributes, m.value_eq]
    rw [result] at h
    rw [h]
  have hfeed := Compiler.feedText_of_gather_error m.content hgather
  rw [← Compiler.feed_text halive] at hfeed
  rw [m.words_eq, compileWords_of_feed_error m.feedAll_eq hfeed]

end Claiming

/-- Move-only values have one owner.  In every run no move-only value is held at two places; and
in a compilation a claim on a value that was just evaluated is refused, which ends the
compilation, exactly if an earlier span or an earlier attribute of the same span holds it. -/
theorem moveOnly_one_owner :
    (∀ (bindings : NameMap Value) (c : Compiler), Compiler.Reachable bindings c →
      ∀ (i j : Nat) (span other : Span) (name name' : String) (self : Identity),
        c.spans[i]? = some span → span.attributes.Holds name self →
        c.spans[j]? = some other → other.attributes.Holds name' self →
        i = j ∧ name = name') ∧
    ∀ {σ : Type} (host : Host σ) (bindings : NameMap Value) (ws : List Word) (store : Store σ)
      (m : Claiming host bindings ws store),
      ((∃ e, m.result = .error e) ↔
        (∃ span ∈ m.compiler.spans, ∃ name, span.attributes.Holds name m.self) ∨
          ∃ name, m.bag.Holds name m.self) ∧
      ∀ e, m.result = .error e →
        e.kind = .sharedResource ∧ (compileWords host bindings ws store).1 = .error (.compile e) := by
  refine ⟨?_, ?_⟩
  · intro bindings c hreach i j span other name name' self hi hname hj hname'
    have hrecorded := recorded_of_reachable hreach
    obtain ⟨claim, hlookup, hindex, hclaim⟩ := hrecorded i name self ⟨_, by simp [hi], hname⟩
    obtain ⟨claim', hlookup', hindex', hclaim'⟩ := hrecorded j name' self ⟨_, by simp [hj], hname'⟩
    -- an identity has one claim
    rw [hlookup, Option.some.injEq] at hlookup'
    subst hlookup'
    exact ⟨hindex.symm.trans hindex', hclaim.symm.trans hclaim'⟩
  · intro σ host bindings ws store m
    have hiff := claimValue_error_iff m.recorded_bags m.exact_bags m.compiler.spans.length m.loc
      ((m.compiler.scopes.definingEntry? m.name).bind ScopeEntry.loc) m.name m.moveOnly_eq
    refine ⟨hiff.trans ?_, ?_⟩
    · constructor
      · rintro ⟨i, name, hheld⟩
        rcases (heldAt_append_iff _ _ _ _ _).mp hheld with ⟨bag, hget, hholds⟩ | ⟨-, hholds⟩
        · rw [List.getElem?_map, Option.map_eq_some_iff] at hget
          obtain ⟨span, hspan, rfl⟩ := hget
          exact .inl ⟨span, List.mem_of_getElem? hspan, name, hholds⟩
        · exact .inr ⟨name, hholds⟩
      · rintro (⟨span, hmem, name, hholds⟩ | ⟨name, hholds⟩)
        · obtain ⟨i, hi⟩ := List.getElem?_of_mem hmem
          exact ⟨i, name, (heldAt_append_iff _ _ _ _ _).mpr
            (.inl ⟨span.attributes, by simp [hi], hholds⟩)⟩
        · exact ⟨_, name, (heldAt_append_iff _ _ _ _ _).mpr (.inr ⟨rfl, hholds⟩)⟩
    · intro e herror
      refine ⟨?_, m.compileWords_of_error herror⟩
      rw [Claiming.result] at herror
      rcases claimValue_cases m.compiler.spans.length m.loc
        ((m.compiler.scopes.definingEntry? m.name).bind ScopeEntry.loc) m.name m.value m.owned with
        ⟨-, hok⟩ | ⟨_, -, -, hok⟩ | ⟨_, _, e', -, -, herror', hkind⟩
      · rw [hok] at herror
        cases herror
      · rw [hok] at herror
        cases herror
      · rw [herror', Except.error.injEq] at herror
        rw [← herror]
        exact hkind

end

/-! ## Two texts in an element with a handle -/

/-- Two texts in one element, which has a move-only attribute. -/
def sharingWords : List Word :=
  [.startTag "a" (.ofList [("x", .handle (.given 0) [])]) none, .text "one" none,
    .text "two" none]

/-- A host without functions. -/
def idleHost : Host Unit where
  call _ _ _ state := (.error .wrongType, state)

/-- The compiler after the first text. -/
def sharingCompiler : Compiler :=
  ((Compiler.start ∅).feedAll idleHost (sharingWords.take 2) ⟨(), [], 0⟩).2.1

/-- The claim for the second text. -/
def secondClaiming : Claiming idleHost ∅ sharingWords ⟨(), [], 0⟩ where
  before := sharingWords.take 2
  after := []
  content := "two"
  loc := none
  compiler := sharingCompiler
  done := []
  rest := []
  name := "x"
  written := .handle (.given 0) []
  bag := {}
  owned := [(.given 0, ⟨0, "x", none⟩)]
  fed := ⟨(), [], 0⟩
  gathered := ⟨(), [], 0⟩
  evaluated := ⟨(), [], 0⟩
  value := .handle (.given 0) []
  self := .given 0
  words_eq := rfl
  feedAll_eq := rfl
  flat_eq := rfl
  gather_eq := rfl
  value_eq := rfl
  moveOnly_eq := rfl

/-- The first text owns the handle.  The claim for the second one is refused, which ends the
compilation, and the run that goes on behind that has no second owner. -/
theorem sharingWords_one_owner :
    (Compiler.Reachable ∅ (sharingCompiler.feed idleHost (.text "two" none) ⟨(), [], 0⟩).2.1 ∧
      (∃ span : Span, sharingCompiler.spans = [span] ∧ span.attributes.Holds "x" (.given 0)) ∧
      ∀ (j : Nat) (other : Span) (name : String),
        (sharingCompiler.feed idleHost (.text "two" none) ⟨(), [], 0⟩).2.1.spans[j]? = some other →
        other.attributes.Holds name (.given 0) → 0 = j ∧ "x" = name) ∧
    ∃ e, secondClaiming.result = .error e ∧ e.kind = .sharedResource ∧
      (compileWords idleHost ∅ sharingWords ⟨(), [], 0⟩).1 = .error (.compile e) := by
  have hreach : Compiler.Reachable ∅
      (sharingCompiler.feed idleHost (.text "two" none) ⟨(), [], 0⟩).2.1 :=
    .feed idleHost (.text "two" none) ⟨(), [], 0⟩
      (.feed idleHost (.text "one" none) ⟨(), [], 0⟩
        (.feed idleHost (.startTag "a" (.ofList [("x", .handle (.given 0) [])]) none)
          ⟨(), [], 0⟩ .start))
  have hheld : (⟨.ofList [("x", .handle (.given 0) [])]⟩ : Bag).Holds "x" (.given 0) :=
    ⟨.handle (.given 0) [], rfl, rfl⟩
  refine ⟨⟨hreach, ⟨⟨"one", ["a"], ⟨.ofList [("x", .handle (.given 0) [])]⟩, none⟩, rfl, hheld⟩,
    ?_⟩, ?_⟩
  · intro j other name hj hname
    exact moveOnly_one_owner.1 ∅ _ hreach 0 j _ other "x" name (.given 0) rfl hheld hj hname
  · obtain ⟨hiff, herror⟩ := moveOnly_one_owner.2 idleHost ∅ sharingWords ⟨(), [], 0⟩
      secondClaiming
    obtain ⟨e, he⟩ := hiff.mpr (.inl ⟨_, List.mem_singleton.mpr rfl, "x", hheld⟩)
    exact ⟨e, he, herror e he⟩

end MarkupSpans
