import MarkupSpans.Proofs.Ownership

/-!
# Refused claims

Why a claim on a move-only value is refused, in any run of feeds.  A text that fails with a
compile error ends the compiler, but one that fails otherwise is given up, and the claims of the
attributes that it had are kept.  So a value may also be refused for the sake of a text that has
no span.  Apart from those the claims are true (`Charged`): a refused claim names the attribute or
the span that holds the value.
-/

set_option autoImplicit false

namespace MarkupSpans

/-! ## Texts that are given up -/

section

variable {σ : Type}

/-- The bag that gathering has filled when it ends or fails. -/
def filledBag (host : Host σ) (bindings : NameMap Value) (scopes : ScopeStack) (spanIndex : Nat)
    (spanLoc : Option String) : List (String × Value) → Bag → Claims → Store σ → Bag
  | [], bag, _, _ => bag
  | (name, written) :: rest, bag, owned, store =>
    let tagLoc := (scopes.definingEntry? name).bind ScopeEntry.loc
    match attributeValue host bindings tagLoc written store with
    | (.error _, _) => bag
    | (.ok v, store') =>
      match claimValue spanIndex spanLoc tagLoc name v owned with
      | .error _ => bag
      | .ok owned' =>
        filledBag host bindings scopes spanIndex spanLoc rest (bag.set name v) owned' store'

/-- A text whose attributes could not all be gathered: the bag so far, and what failed. -/
structure GivenUp where
  bag : Bag
  failure : Failure

/-- The text that is given up when a word is fed, if one is. -/
def Compiler.givenUp? (host : Host σ) (w : Word) (c : Compiler) (store : Store σ) :
    Option GivenUp :=
  match w with
  | .text _ loc =>
    if c.state.isTerminal then none
    else
      match (gatherAttributes host c.bindings c.scopes c.spans.length loc c.scopes.flat.entries {}
        c.owned store).1 with
      | .error failure => some ⟨filledBag host c.bindings c.scopes c.spans.length loc
          c.scopes.flat.entries {} c.owned store, failure⟩
      | .ok _ => none
  | _ => none

/-- The compilers that come up as words are fed to a new one, whatever the feeds come to, with the
texts that were given up. -/
inductive Compiler.FedTo (bindings : NameMap Value) : List GivenUp → Compiler → Prop
  /-- A new compiler. -/
  | start : FedTo bindings [] (.start bindings)
  /-- One more word; the functions and the objects may have changed before. -/
  | feed {σ : Type} {given : List GivenUp} {c : Compiler} (host : Host σ) (w : Word)
      (store : Store σ) : FedTo bindings given c →
        FedTo bindings (given ++ (c.givenUp? host w store).toList) (c.feed host w store).2.1

/-- Giving a text up is the failure of its feed, which ends the compiler if it is a compile
error. -/
theorem Compiler.feed_of_givenUp {host : Host σ} {w : Word} {c : Compiler} {store : Store σ}
    {g : GivenUp} (h : c.givenUp? host w store = some g) :
    (c.feed host w store).1 = .error g.failure ∧
      (c.feed host w store).2.1.state = (c.afterFailure g.failure).state := by
  cases w with
  | text content loc =>
    cases halive : c.state.isTerminal with
    | true => simp [givenUp?, halive] at h
    | false =>
      rcases hgather : gatherAttributes host c.bindings c.scopes c.spans.length loc
        c.scopes.flat.entries {} c.owned store with ⟨result, owned, store'⟩
      cases result with
      | ok attributes => simp [givenUp?, halive, hgather] at h
      | error failure =>
        simp only [givenUp?, halive, hgather, Bool.false_eq_true, if_false,
          Option.some.injEq] at h
        rw [feed_text halive, feedText_of_gather_error content hgather, ← h]
        cases failure <;> exact ⟨rfl, rfl⟩
  | _ => cases h

/-- Feeds words one by one, whatever the feeds come to, and lists the texts that are given up. -/
def Compiler.feedEach (host : Host σ) :
    List Word → List GivenUp → Compiler → Store σ → List GivenUp × Compiler × Store σ
  | [], given, c, store => (given, c, store)
  | w :: rest, given, c, store =>
    feedEach host rest (given ++ (c.givenUp? host w store).toList) (c.feed host w store).2.1
      (c.feed host w store).2.2

/-- Words that are fed one by one leave a compiler that has been fed to. -/
theorem Compiler.FedTo.feedEach {bindings : NameMap Value} {given : List GivenUp} {c : Compiler}
    (h : FedTo bindings given c) (host : Host σ) (ws : List Word) (store : Store σ) :
    FedTo bindings (Compiler.feedEach host ws given c store).1
      (Compiler.feedEach host ws given c store).2.1 := by
  induction ws generalizing given c store with
  | nil => exact h
  | cons w rest ih => exact ih (.feed host w store h) _

/-- One of some texts that were given up had come by a move-only value. -/
def LeftOver (given : List GivenUp) (self : Identity) : Prop :=
  ∃ g ∈ given, ∃ name, g.bag.Holds name self

/-- Gathering fills its bag with a first part of the attributes, and claims what these hold. -/
theorem exists_gathered (host : Host σ) (bindings : NameMap Value) (scopes : ScopeStack)
    (spanIndex : Nat) (spanLoc : Option String) (row : List (String × Value)) (bag : Bag)
    (owned : Claims) (store : Store σ) :
    let result := gatherAttributes host bindings scopes spanIndex spanLoc row bag owned store
    let filled := filledBag host bindings scopes spanIndex spanLoc row bag owned store
    (∃ done rest mid, row = done ++ rest ∧
      gatherAttributes host bindings scopes spanIndex spanLoc done bag owned store =
        (.ok filled, result.2.1, mid)) ∧
      ∀ bag', result.1 = .ok bag' → filled = bag' := by
  induction row generalizing bag owned store with
  | nil => exact ⟨⟨[], [], store, rfl, rfl⟩, fun bag' hbag => by cases hbag; rfl⟩
  | cons entry rest ih =>
    obtain ⟨name, written⟩ := entry
    rw [gatherAttributes, filledBag]
    rcases hvalue : attributeValue host bindings
      ((scopes.definingEntry? name).bind ScopeEntry.loc) written store with ⟨result, mid⟩
    cases result with
    | error e =>
      exact ⟨⟨[], (name, written) :: rest, store, rfl, rfl⟩, fun bag' hbag => by cases hbag⟩
    | ok v =>
      simp only
      cases hclaim : claimValue spanIndex spanLoc
        ((scopes.definingEntry? name).bind ScopeEntry.loc) name v owned with
      | error e =>
        exact ⟨⟨[], (name, written) :: rest, store, rfl, rfl⟩, fun bag' hbag => by cases hbag⟩
      | ok owned' =>
        obtain ⟨⟨done, more, last, rfl, hdone⟩, hall⟩ := ih (bag.set name v) owned' mid
        refine ⟨⟨(name, written) :: done, more, last, rfl, ?_⟩, hall⟩
        rw [gatherAttributes, hvalue]
        simp only [hclaim]
        exact hdone

/-! ## What claims say -/

/-- What is claimed is held at the place that it is claimed for, which the claim tells right, or it
is left over. -/
def Charged (given : List GivenUp) (owned : Claims) (bags : List Bag)
    (locs : List (Option String)) : Prop :=
  ∀ self claim, owned.lookup self = some claim →
    HeldAt bags claim.spanIndex claim.name self ∧ locs[claim.spanIndex]? = some claim.spanLoc ∨
      LeftOver given self

/-- One text given up more leaves over what its bag holds. -/
theorem leftOver_append_iff (given : List GivenUp) (g : GivenUp) (self : Identity) :
    LeftOver (given ++ [g]) self ↔ LeftOver given self ∨ ∃ name, g.bag.Holds name self := by
  simp [LeftOver, or_and_right, exists_or]

/-- A claim that is granted is for the bag that is being filled. -/
theorem Charged.claim {given : List GivenUp} {owned owned' : Claims} {earlier : List Bag}
    {bag : Bag} {locs : List (Option String)} {name : String} {v : Value}
    {spanLoc tagLoc : Option String} (h : Charged given owned (earlier ++ [bag]) locs)
    (hloc : locs[earlier.length]? = some spanLoc) (hnew : name ∉ bag.values.names)
    (hclaim : claimValue earlier.length spanLoc tagLoc name v owned = .ok owned') :
    Charged given owned' (earlier ++ [bag.set name v]) locs := by
  intro self claim hlookup
  rcases (claimValue_ok_lookup hclaim).2.2 self claim hlookup with hold | ⟨hself, rfl⟩
  · rcases h self claim hold with ⟨hheld, hplace⟩ | hleft
    · exact .inl ⟨hheld.set_of_new hnew v, hplace⟩
    · exact .inr hleft
  · exact .inl ⟨heldAt_set_self earlier bag name hself, hloc⟩

/-- What gathering claims is for the bag that it fills. -/
theorem Charged.gather {host : Host σ} {bindings : NameMap Value} {scopes : ScopeStack}
    {spanLoc : Option String} {given : List GivenUp} {earlier : List Bag}
    {locs : List (Option String)} (hloc : locs[earlier.length]? = some spanLoc)
    (row : List (String × Value)) (bag : Bag) (owned : Claims) (store : Store σ)
    (h : Charged given owned (earlier ++ [bag]) locs)
    (hnew : (bag.values.names ++ row.map Prod.fst).Nodup)
    {bag' : Bag} {owned' : Claims} {store' : Store σ}
    (hgather : gatherAttributes host bindings scopes earlier.length spanLoc row bag owned store =
      (.ok bag', owned', store')) : Charged given owned' (earlier ++ [bag']) locs :=
  gathered_of_claims (P := fun bag owned => Charged given owned (earlier ++ [bag]) locs)
    (fun _ _ _ _ _ _ hfresh hclaim hcharged => hcharged.claim hloc hfresh hclaim) row bag owned
    store h hnew hgather

/-- No claim is lost by gathering. -/
theorem lookup_of_gather {host : Host σ} {bindings : NameMap Value} {scopes : ScopeStack}
    {spanIndex : Nat} {spanLoc : Option String} {row : List (String × Value)} {bag bag' : Bag}
    {owned owned' : Claims} {store store' : Store σ}
    (hgather : gatherAttributes host bindings scopes spanIndex spanLoc row bag owned store =
      (.ok bag', owned', store'))
    (hnew : (bag.values.names ++ row.map Prod.fst).Nodup)
    {self : Identity} {claim : Claim} (h : owned.lookup self = some claim) :
    owned'.lookup self = some claim :=
  gathered_of_claims (P := fun _ owned => owned.lookup self = some claim)
    (fun _ _ _ _ _ _ _ hclaim hlookup => (claimValue_ok_lookup hclaim).1 self claim hlookup) row
    bag owned store h hnew hgather

/-- Some claims are those of some bags and of what is left over. -/
structure Accounted (given : List GivenUp) (owned : Claims) (bags : List Bag)
    (locs : List (Option String)) : Prop where
  recorded : Recorded owned bags
  charged : Charged given owned bags locs
  /-- What is left over is claimed still. -/
  kept : ∀ self, LeftOver given self → ∃ claim, owned.lookup self = some claim

/-- A first part of the attributes of a text is gathered, well so far. -/
theorem Accounted.gather {given : List GivenUp} {c : Compiler}
    (h : Accounted given c.owned (c.spans.map Span.attributes) (c.spans.map Span.loc))
    {host : Host σ} {loc : Option String} {done rest : List (String × Value)} {store mid : Store σ}
    {bag : Bag} {owned : Claims} (hflat : c.scopes.flat.entries = done ++ rest)
    (hgather : gatherAttributes host c.bindings c.scopes c.spans.length loc done {} c.owned store =
      (.ok bag, owned, mid)) :
    Accounted given owned (c.spans.map Span.attributes ++ [bag])
      (c.spans.map Span.loc ++ [loc]) := by
  have hnodup : (done.map Prod.fst).Nodup := by
    have hnames := c.scopes.flat.nodup_names
    rw [hflat, List.map_append, List.nodup_append] at hnames
    exact hnames.1
  have hcharged : Charged given c.owned (c.spans.map Span.attributes ++ [⟨∅⟩])
      (c.spans.map Span.loc ++ [loc]) := by
    intro self claim hlookup
    rcases h.charged self claim hlookup with ⟨hheld, hplace⟩ | hleft
    · refine .inl ⟨(heldAt_append_iff _ _ _ _ _).mpr (.inl hheld), ?_⟩
      rw [List.getElem?_append_left (List.getElem?_eq_some_iff.mp hplace).1, hplace]
    · exact .inr hleft
  have hloc : (c.spans.map Span.loc ++ [loc])[(c.spans.map Span.attributes).length]? =
      some loc := by
    simp
  rw [← List.length_map (f := Span.attributes)] at hgather
  have hcharged' := hcharged.gather hloc done ⟨∅⟩ c.owned store hnodup hgather
  have hrecorded := Recorded.gather host c.bindings c.scopes loc done ⟨∅⟩ c.owned store
    h.recorded.append_empty
  rw [hgather] at hrecorded
  refine ⟨hrecorded.2 bag rfl, hcharged', ?_⟩
  intro self hleft
  obtain ⟨claim, hclaim⟩ := h.kept self hleft
  exact ⟨claim, lookup_of_gather hgather hnodup hclaim⟩

/-- The last bag is given up. -/
theorem Accounted.giveUp {given : List GivenUp} {owned : Claims} {earlier : List Bag} {bag : Bag}
    {locs : List (Option String)} {loc : Option String} (failure : Failure)
    (h : Accounted given owned (earlier ++ [bag]) (locs ++ [loc]))
    (hlength : locs.length = earlier.length) :
    Accounted (given ++ [⟨bag, failure⟩]) owned earlier locs where
  recorded := h.recorded.of_append
  charged := by
    intro self claim hlookup
    rw [leftOver_append_iff]
    rcases h.charged self claim hlookup with ⟨hheld, hplace⟩ | hleft
    · rcases (heldAt_append_iff _ _ _ _ _).mp hheld with hearlier | ⟨-, hholds⟩
      · left
        refine ⟨hearlier, ?_⟩
        obtain ⟨held, hget, -⟩ := hearlier
        have hlt : claim.spanIndex < locs.length := by
          rw [hlength]
          exact (List.getElem?_eq_some_iff.mp hget).1
        rw [← hplace, List.getElem?_append_left hlt]
      · exact .inr (.inr ⟨claim.name, hholds⟩)
    · exact .inr (.inl hleft)
  kept := by
    intro self hleft
    rcases (leftOver_append_iff _ _ _).mp hleft with hold | ⟨name, hholds⟩
    · exact h.kept self hold
    · obtain ⟨claim, hlookup, -⟩ := h.recorded earlier.length name self
        ((heldAt_append_iff _ _ _ _ _).mpr (.inr ⟨rfl, hholds⟩))
      exact ⟨claim, hlookup⟩

/-- Whatever feeding a word comes to, the claims are accounted for. -/
theorem Accounted.feed {given : List GivenUp} {c : Compiler}
    (h : Accounted given c.owned (c.spans.map Span.attributes) (c.spans.map Span.loc))
    (host : Host σ) (w : Word) (store : Store σ) :
    Accounted (given ++ (c.givenUp? host w store).toList) (c.feed host w store).2.1.owned
      ((c.feed host w store).2.1.spans.map Span.attributes)
      ((c.feed host w store).2.1.spans.map Span.loc) := by
  by_cases hw : ∃ content loc, w = .text content loc
  · obtain ⟨content, loc, rfl⟩ := hw
    cases halive : c.state.isTerminal with
    | true =>
      rw [Compiler.feed_of_terminal host halive]
      simpa [Compiler.givenUp?, halive] using h
    | false =>
      obtain ⟨⟨done, rest, mid, hflat, hdone⟩, hfilled⟩ := exists_gathered host c.bindings c.scopes
        c.spans.length loc c.scopes.flat.entries {} c.owned store
      have hgathered := h.gather hflat hdone
      rw [Compiler.feed_text halive]
      rcases hgather : gatherAttributes host c.bindings c.scopes c.spans.length loc
        c.scopes.flat.entries {} c.owned store with ⟨result, owned, store'⟩
      rw [hgather] at hgathered hfilled
      cases result with
      | error e =>
        have hgiven : c.givenUp? host (.text content loc) store = some ⟨filledBag host c.bindings
            c.scopes c.spans.length loc c.scopes.flat.entries {} c.owned store, e⟩ := by
          simp [Compiler.givenUp?, halive, hgather]
        rw [Compiler.feedText_of_gather_error content hgather, hgiven]
        have hup := hgathered.giveUp e (by simp)
        cases e <;> exact hup
      | ok attributes =>
        have hgiven : c.givenUp? host (.text content loc) store = none := by
          simp [Compiler.givenUp?, halive, hgather]
        rw [Compiler.feedText_of_gather content hgather, hgiven]
        rw [hfilled attributes rfl] at hgathered
        simpa using hgathered
  · have hgiven : c.givenUp? host w store = none := by
      cases w with
      | text content loc => exact absurd ⟨content, loc, rfl⟩ hw
      | _ => rfl
    obtain ⟨hspans, howned⟩ := Compiler.feed_tag_spans_owned host hw c store
    rw [hgiven, hspans, howned]
    simpa using h

/-- In every run of feeds the claims are accounted for. -/
theorem accounted_of_fedTo {bindings : NameMap Value} {given : List GivenUp} {c : Compiler}
    (h : Compiler.FedTo bindings given c) :
    Accounted given c.owned (c.spans.map Span.attributes) (c.spans.map Span.loc) := by
  induction h with
  | start =>
    refine ⟨recorded_of_reachable .start, ?_, ?_⟩
    · intro self claim hlookup
      cases hlookup
    · rintro self ⟨g, hmem, -⟩
      cases hmem
  | feed host w store _ ih => exact ih.feed host w store

/-- As long as a compiler has not ended, no text of its run failed with a compile error. -/
theorem ne_compile_of_fedTo {bindings : NameMap Value} {given : List GivenUp} {c : Compiler}
    (h : Compiler.FedTo bindings given c) (halive : c.state.isTerminal = false) :
    ∀ g ∈ given, ∀ e, g.failure ≠ .compile e := by
  induction h with
  | start => simp
  | @feed σ given c host w store _ ih =>
    have hbefore : c.state.isTerminal = false := by
      cases hterminal : c.state.isTerminal with
      | false => rfl
      | true =>
        rw [Compiler.feed_of_terminal host hterminal] at halive
        exact hterminal ▸ halive
    intro g hmem e hfailure
    rcases List.mem_append.mp hmem with hmem | hmem
    · exact ih hbefore g hmem e hfailure
    · rw [Option.mem_toList] at hmem
      rw [(Compiler.feed_of_givenUp hmem).2, hfailure] at halive
      cases halive

/-! ## The moment of a claim -/

/-- A moment in the feeding of a text: some of its attributes are in the bag, and the next one has
been evaluated to a move-only value that is to be claimed. -/
structure ClaimAt (host : Host σ) (c : Compiler) (content : String) (loc : Option String)
    (store : Store σ) where
  /-- The attributes that were gathered, and those that are still to come. -/
  (done rest : List (String × Value))
  name : String
  /-- Its value as the words give it. -/
  written : Value
  /-- The bag so far. -/
  bag : Bag
  /-- The claims so far. -/
  owned : Claims
  /-- The states before the evaluation and after it. -/
  (gathered evaluated : Store σ)
  value : Value
  self : Identity
  alive : c.state.isTerminal = false
  flat_eq : c.scopes.flat.entries = done ++ (name, written) :: rest
  gather_eq : gatherAttributes host c.bindings c.scopes c.spans.length loc done {} c.owned store =
    (.ok bag, owned, gathered)
  value_eq : attributeValue host c.bindings ((c.scopes.definingEntry? name).bind ScopeEntry.loc)
    written gathered = (.ok value, evaluated)
  moveOnly_eq : value.moveOnly? = some self

namespace ClaimAt

variable {host : Host σ} {c : Compiler} {content : String} {loc : Option String} {store : Store σ}

/-- The place of the tag that defines the attribute. -/
def tagLoc (m : ClaimAt host c content loc store) : Option String :=
  (c.scopes.definingEntry? m.name).bind ScopeEntry.loc

/-- What the claim comes to. -/
def result (m : ClaimAt host c content loc store) : Except CompileError Claims :=
  claimValue c.spans.length loc m.tagLoc m.name m.value m.owned

/-- The error of a refused claim that names an owner. -/
def refusal (m : ClaimAt host c content loc store) (owner : String) : CompileError :=
  sharedError m.name m.value.sortName owner (placeOr m.tagLoc loc)

/-- A claim is refused exactly if the value has been claimed before. -/
theorem result_eq_error_iff (m : ClaimAt host c content loc store) (e : CompileError) :
    m.result = .error e ↔
      ∃ claim, m.owned.lookup m.self = some claim ∧
        e = m.refusal (claim.describe c.spans.length) := by
  unfold result claimValue
  rw [m.moveOnly_eq]
  cases hlookup : m.owned.lookup m.self with
  | none => simp [hlookup]
  | some claim =>
    simp only [hlookup, Except.error.injEq, Option.some.injEq, exists_eq_left']
    exact eq_comm

/-- A refused claim is what the feed comes to. -/
theorem feed_of_error (m : ClaimAt host c content loc store) {e : CompileError}
    (h : m.result = .error e) :
    (c.feed host (.text content loc) store).1 = .error (.compile e) := by
  have hgather : gatherAttributes host c.bindings c.scopes c.spans.length loc
      c.scopes.flat.entries {} c.owned store = (.error (.compile e), m.owned, m.evaluated) := by
    rw [m.flat_eq, gatherAttributes_append, m.gather_eq]
    simp only [gatherAttributes, m.value_eq]
    rw [result, tagLoc] at h
    rw [h]
  rw [Compiler.feed_text m.alive, Compiler.feedText_of_gather_error content hgather]

end ClaimAt

/-- How a refused claim names an attribute of the span that is being built. -/
def sameSpanOwner (name : String) : String := "attribute '" ++ name ++ "' of the same span"

/-- How a refused claim names an earlier span, by its place if there is one. -/
def earlierSpanOwner (loc : Option String) : String :=
  match placeOr loc none with
  | some place => "another span, at " ++ place
  | none => "another, earlier span"

/-- Where claims are accounted for, exactly the values are claimed that are held or left over. -/
theorem Accounted.claimed_iff {given : List GivenUp} {owned : Claims} {bags : List Bag}
    {locs : List (Option String)} (h : Accounted given owned bags locs) (self : Identity) :
    (∃ claim, owned.lookup self = some claim) ↔
      (∃ i name, HeldAt bags i name self) ∨ LeftOver given self := by
  constructor
  · rintro ⟨claim, hlookup⟩
    rcases h.charged self claim hlookup with ⟨hheld, -⟩ | hleft
    · exact .inl ⟨_, _, hheld⟩
    · exact .inr hleft
  · rintro (⟨i, name, hheld⟩ | hleft)
    · obtain ⟨claim, hlookup, -⟩ := h.recorded i name self hheld
      exact ⟨claim, hlookup⟩
    · exact h.kept self hleft

/-- A value is held by the spans or the last bag exactly if a span or that bag holds it. -/
theorem exists_heldAt_spans_iff (spans : Spans) (bag : Bag) (self : Identity) :
    (∃ i name, HeldAt (spans.map Span.attributes ++ [bag]) i name self) ↔
      (∃ span ∈ spans, ∃ name, span.attributes.Holds name self) ∨ ∃ name, bag.Holds name self := by
  constructor
  · rintro ⟨i, name, hheld⟩
    rcases (heldAt_append_iff _ _ _ _ _).mp hheld with ⟨held, hget, hholds⟩ | ⟨-, hholds⟩
    · rw [List.getElem?_map, Option.map_eq_some_iff] at hget
      obtain ⟨span, hspan, rfl⟩ := hget
      exact .inl ⟨span, List.mem_of_getElem? hspan, name, hholds⟩
    · exact .inr ⟨name, hholds⟩
  · rintro (⟨span, hmem, name, hholds⟩ | ⟨name, hholds⟩)
    · obtain ⟨i, hi⟩ := List.getElem?_of_mem hmem
      exact ⟨i, name, (heldAt_append_iff _ _ _ _ _).mpr
        (.inl ⟨span.attributes, by simp [hi], hholds⟩)⟩
    · exact ⟨_, name, (heldAt_append_iff _ _ _ _ _).mpr (.inr ⟨rfl, hholds⟩)⟩

/-- A claim that tells a place right is described as one of the attribute or the span there. -/
theorem describe_of_heldAt {spans : Spans} {bag : Bag} {loc : Option String} {claim : Claim}
    {self : Identity}
    (hheld : HeldAt (spans.map Span.attributes ++ [bag]) claim.spanIndex claim.name self)
    (hplace : (spans.map Span.loc ++ [loc])[claim.spanIndex]? = some claim.spanLoc) :
    (bag.Holds claim.name self ∧ claim.describe spans.length = sameSpanOwner claim.name) ∨
      ∃ span ∈ spans, span.attributes.Holds claim.name self ∧
        claim.describe spans.length = earlierSpanOwner span.loc := by
  rcases (heldAt_append_iff _ _ _ _ _).mp hheld with ⟨held, hget, hholds⟩ | ⟨hi, hholds⟩
  · right
    rw [List.getElem?_map, Option.map_eq_some_iff] at hget
    obtain ⟨span, hspan, rfl⟩ := hget
    have hlt : claim.spanIndex < spans.length := (List.getElem?_eq_some_iff.mp hspan).1
    have hloc : span.loc = claim.spanLoc := by
      rw [List.getElem?_append_left (by simpa using hlt), List.getElem?_map, hspan,
        Option.map_some, Option.some.injEq] at hplace
      exact hplace
    refine ⟨span, List.mem_of_getElem? hspan, hholds, ?_⟩
    rw [Claim.describe, if_neg (by omega), hloc]
    rfl
  · left
    rw [List.length_map] at hi
    exact ⟨hholds, if_pos hi⟩

/-- Why claims are refused, in every run of feeds: the value is held by a span or by the bag that
is being filled, or it is left over from a text that was given up.  If it is not left over, the
owner that the error names is the true one. -/
theorem claim_refused_iff {bindings : NameMap Value} {given : List GivenUp} {c : Compiler}
    (hfed : Compiler.FedTo bindings given c) (host : Host σ) (content : String)
    (loc : Option String) (store : Store σ) (m : ClaimAt host c content loc store) :
    ((∃ e, m.result = .error e) ↔
      ((∃ span ∈ c.spans, ∃ name, span.attributes.Holds name m.self) ∨
        ∃ name, m.bag.Holds name m.self) ∨ LeftOver given m.self) ∧
    (¬ LeftOver given m.self → ∀ e, m.result = .error e →
      (∃ owner, m.bag.Holds owner m.self ∧ e = m.refusal (sameSpanOwner owner)) ∨
        ∃ span ∈ c.spans, (∃ owner, span.attributes.Holds owner m.self) ∧
          e = m.refusal (earlierSpanOwner span.loc)) ∧
    -- a refused claim is what the feed comes to
    (∀ e, m.result = .error e → e.kind = .sharedResource ∧
      (c.feed host (.text content loc) store).1 = .error (.compile e)) ∧
    -- and only texts that did not fail with a compile error were given up before it
    ∀ g ∈ given, ∀ e, g.failure ≠ .compile e := by
  have haccounted := (accounted_of_fedTo hfed).gather m.flat_eq m.gather_eq
  refine ⟨?_, ?_, ?_, ne_compile_of_fedTo hfed m.alive⟩
  · rw [← exists_heldAt_spans_iff, ← haccounted.claimed_iff]
    simp only [m.result_eq_error_iff]
    constructor
    · rintro ⟨_, claim, hlookup, -⟩
      exact ⟨claim, hlookup⟩
    · rintro ⟨claim, hlookup⟩
      exact ⟨_, claim, hlookup, rfl⟩
  · intro hnothing e herror
    obtain ⟨claim, hlookup, rfl⟩ := (m.result_eq_error_iff e).mp herror
    obtain ⟨hheld, hplace⟩ := (haccounted.charged m.self claim hlookup).resolve_right hnothing
    rcases describe_of_heldAt hheld hplace with ⟨hholds, howner⟩ | ⟨span, hmem, hholds, howner⟩
    · rw [howner]
      exact .inl ⟨claim.name, hholds, rfl⟩
    · rw [howner]
      exact .inr ⟨span, hmem, ⟨claim.name, hholds⟩, rfl⟩
  · intro e herror
    refine ⟨?_, m.feed_of_error herror⟩
    obtain ⟨claim, -, rfl⟩ := (m.result_eq_error_iff e).mp herror
    rfl

end

/-! ## Texts that fail -/

/-- Bindings with a function `f`. -/
def idleBindings : NameMap Value := .ofList [("f", .function (.given 0) "f")]

/-- Some words fed to a compiler whose functions always fail. -/
def idleRun (ws : List Word) : List GivenUp × Compiler × Store Unit :=
  Compiler.feedEach idleHost ws [] (Compiler.start idleBindings) ⟨(), [], 0⟩

/-- A run without calls of bound functions is one that a compiler has been fed to. -/
theorem fedTo_idleRun (ws : List Word) :
    Compiler.FedTo idleBindings (idleRun ws).1 (idleRun ws).2.1 :=
  Compiler.FedTo.start.feedEach idleHost ws ⟨(), [], 0⟩

/-- A text whose attribute fails, and then one with a handle, in another element. -/
def recoveringWords : List Word :=
  [.startTag "a" (.ofList [("y", .expr (.call "f" []))]) none, .text "t" none, .endTag "a" none,
    .startTag "b" (.ofList [("x", .handle (.given 1) [])]) none, .text "one" (some "1:4")]

/-- The claim of a second text in the element with the handle. -/
def recoveringClaim :
    ClaimAt idleHost (idleRun recoveringWords).2.1 "two" (some "1:9") ⟨(), [], 0⟩ where
  done := []
  rest := []
  name := "x"
  written := .handle (.given 1) []
  bag := {}
  owned := [(.given 1, ⟨0, "x", some "1:4"⟩)]
  gathered := ⟨(), [], 0⟩
  evaluated := ⟨(), [], 0⟩
  value := .handle (.given 1) []
  self := .given 1
  alive := rfl
  flat_eq := rfl
  gather_eq := rfl
  value_eq := rfl
  moveOnly_eq := rfl

/-- The text that was given up had no handle, so the claim names the text in front as the owner. -/
theorem claim_refused_recoveringWords :
    ¬ LeftOver (idleRun recoveringWords).1 recoveringClaim.self ∧
      recoveringClaim.result = .error (recoveringClaim.refusal "another span, at 1:4") := by
  have hnothing : ¬ LeftOver (idleRun recoveringWords).1 recoveringClaim.self := by
    rintro ⟨g, hmem, name, hholds⟩
    have hgiven : (idleRun recoveringWords).1 = [⟨{}, .wrongType⟩] := rfl
    rw [hgiven, List.mem_singleton] at hmem
    rw [hmem] at hholds
    exact not_holds_empty name _ hholds
  have hspans : (idleRun recoveringWords).2.1.spans =
      [⟨"one", ["b"], ⟨.ofList [("x", .handle (.given 1) [])]⟩, some "1:4"⟩] := rfl
  have hheld : (⟨.ofList [("x", .handle (.given 1) [])]⟩ : Bag).Holds "x" (.given 1) :=
    ⟨.handle (.given 1) [], rfl, rfl⟩
  obtain ⟨hiff, howner, -, -⟩ := claim_refused_iff (fedTo_idleRun recoveringWords) idleHost "two"
    (some "1:9") ⟨(), [], 0⟩ recoveringClaim
  obtain ⟨e, he⟩ := hiff.mpr (.inl (.inl ⟨_, hspans ▸ List.mem_singleton_self _, "x", hheld⟩))
  refine ⟨hnothing, ?_⟩
  rcases howner hnothing e he with ⟨owner, hholds, -⟩ | ⟨span, hmem, -, heq⟩
  · exact absurd hholds (not_holds_empty owner _)
  · rw [hspans, List.mem_singleton] at hmem
    rw [he, heq, hmem]
    rfl

/-- A text with a handle whose other attribute fails, and then an element without that failure. -/
def strandedWords : List Word :=
  [.startTag "a" (.ofList [("x", .handle (.given 1) []), ("y", .expr (.call "f" []))]) none,
    .text "t" none, .startTag "b" (.ofList [("y", .text "ok")]) none]

/-- The claim of the next text, which would be the first span. -/
def strandedClaim : ClaimAt idleHost (idleRun strandedWords).2.1 "u" none ⟨(), [], 0⟩ where
  done := []
  rest := [("y", .text "ok")]
  name := "x"
  written := .handle (.given 1) []
  bag := {}
  owned := [(.given 1, ⟨0, "x", none⟩)]
  gathered := ⟨(), [], 0⟩
  evaluated := ⟨(), [], 0⟩
  value := .handle (.given 1) []
  self := .given 1
  alive := rfl
  flat_eq := rfl
  gather_eq := rfl
  value_eq := rfl
  moveOnly_eq := rfl

/-- The claim is refused though there is no span and the bag is empty, and the error names the
attribute that is to be filled as the owner. -/
theorem strandedClaim_refused :
    Compiler.FedTo idleBindings (idleRun strandedWords).1 (idleRun strandedWords).2.1 ∧
      (idleRun strandedWords).2.1.spans = [] ∧ strandedClaim.bag = {} ∧
      strandedClaim.result =
        .error (strandedClaim.refusal "attribute 'x' of the same span") :=
  ⟨fedTo_idleRun strandedWords, rfl, rfl, rfl⟩

end MarkupSpans
