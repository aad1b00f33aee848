import MarkupSpans.Proofs.InForce

/-!
# Runs of a scope stack

Elements are opened and closed in any order, and end tags that do not fit are refused.  After
every such run the cached views of the stack are what its open elements give anew
(`UpToDate.run`), and a whole element, with whole elements inside it, leaves everything as it
was (`pop_run_of_balanced`).  `views_after_run` puts together what that says about the answers of
a stack.
-/

set_option autoImplicit false

namespace MarkupSpans

/-- A call on a scope stack. -/
inductive ScopeCall where
  | push (element : ScopeEntry)
  | pop (tag : String) (loc : Option String)

namespace ScopeStack

/-- The answer to a call, and the stack behind it: the opened or closed element, or an error. -/
def perform (s : ScopeStack) : ScopeCall → Except CompileError ScopeEntry × ScopeStack
  | .push element => (.ok element, s.push element)
  | .pop tag loc =>
    match s.pop tag loc with
    | .ok (top, s') => (.ok top, s')
    | .error e => (.error e, s)

/-- The stack behind some calls, whatever they answer. -/
def run (s : ScopeStack) (calls : List ScopeCall) : ScopeStack :=
  calls.foldl (fun acc call => (acc.perform call).2) s

end ScopeStack

/-- Calls that come between an element's start tag and its end tag: whole elements, and end tags
that are refused because another element is the innermost one. -/
inductive Balanced : String → List ScopeCall → Prop
  | nil (tag : String) : Balanced tag []
  | refused {tag other : String} {rest : List ScopeCall} (loc : Option String) :
      tag ≠ other → Balanced tag rest → Balanced tag (.pop other loc :: rest)
  | whole {tag : String} {inside rest : List ScopeCall} (element : ScopeEntry)
      (loc : Option String) : Balanced element.tag inside → Balanced tag rest →
      Balanced tag (.push element :: (inside ++ .pop element.tag loc :: rest))

namespace ScopeStack

/-! ## One call -/

/-- An end tag is refused if nothing is open, or if the innermost element has another tag. -/
theorem pop_eq_error {s : ScopeStack} {tag : String} {loc : Option String} {e : CompileError}
    (h : s.pop tag loc = .error e) :
    s.entries = [] ∧ e.kind = .unstartedTag ∨
      ∃ outer top, s.entries = outer ++ [top] ∧ top.tag ≠ tag ∧ e.kind = .mismatchedTag := by
  rcases List.eq_nil_or_concat s.entries with hnil | ⟨outer, top, hconcat⟩
  · rw [pop_nil hnil, Except.error.injEq] at h
    subst h
    exact .inl ⟨hnil, rfl⟩
  · rw [List.concat_eq_append] at hconcat
    by_cases htag : top.tag = tag
    · subst htag
      obtain ⟨s', hpop, -⟩ := pop_concat hconcat loc
      rw [hpop] at h
      cases h
    · rw [pop_mismatch hconcat htag, Except.error.injEq] at h
      subst h
      exact .inr ⟨outer, top, hconcat, htag, rfl⟩

/-- A refused end tag is refused at its place. -/
theorem loc_of_pop_error {s : ScopeStack} {tag : String} {loc : Option String} {e : CompileError}
    (h : s.pop tag loc = .error e) : e.loc = loc := by
  unfold pop at h
  split at h
  · cases h
    rfl
  · split at h
    · cases h
    · cases h
      rfl

/-- A call keeps the views up to date. -/
theorem UpToDate.perform {s : ScopeStack} (h : s.UpToDate) (call : ScopeCall) :
    (s.perform call).2.UpToDate := by
  cases call with
  | push element => exact h.push element
  | pop tag loc =>
    unfold ScopeStack.perform
    dsimp only
    cases hpop : s.pop tag loc with
    | error e => exact h
    | ok r => exact h.pop hpop

/-! ## Answers -/

/-- A tag is open exactly if it is one of the tags. -/
theorem UpToDate.isOpen_iff {s : ScopeStack} (h : s.UpToDate) (tag : String) :
    s.isOpen tag = true ↔ tag ∈ s.tags := by
  unfold isOpen
  rw [decide_eq_true_iff, h.countOf_eq, List.count_pos_iff]

/-- The defining element of a name is open, and gives it the value that the flattened view has. -/
theorem UpToDate.get?_definingEntry {s : ScopeStack} (h : s.UpToDate) {name : String}
    {element : ScopeEntry} (hdefining : s.definingEntry? name = some element) :
    element ∈ s.entries ∧ ∃ value, element.attributes.get? name = some value ∧
      s.flat.get? name = some value := by
  rw [definingEntry?_eq, Option.map_eq_some_iff] at hdefining
  obtain ⟨⟨definer, value⟩, hinnermost, rfl⟩ := hdefining
  have hflat : s.flat.get? name = some value := by
    rw [h.flat_eq, get?_flatten, hinnermost]
    rfl
  obtain ⟨outer, inner, hentries, hget, -⟩ := split_of_innermostDefinition? hinnermost
  exact ⟨by simp [hentries], value, hget, hflat⟩

/-- A name has a defining element exactly if it is one of the attributes. -/
theorem UpToDate.definingEntry?_isSome_iff {s : ScopeStack} (h : s.UpToDate) (name : String) :
    (∃ element, s.definingEntry? name = some element) ↔ name ∈ s.flat.names := by
  constructor
  · rintro ⟨element, hdefining⟩
    obtain ⟨-, value, -, hflat⟩ := h.get?_definingEntry hdefining
    apply Classical.byContradiction
    intro hnot
    rw [(NameMap.get?_eq_none_iff _ _).mpr hnot] at hflat
    cases hflat
  · intro hmem
    rw [definingEntry?_eq]
    cases hinnermost : innermostDefinition? s.entries name with
    | some definition => exact ⟨definition.1, rfl⟩
    | none =>
      have hnone : s.flat.get? name = none := by
        rw [h.flat_eq, get?_flatten, hinnermost]
        rfl
      exact absurd hmem ((NameMap.get?_eq_none_iff _ _).mp hnone)

/-- Stacks with the same open elements, both up to date, give the same answers. -/
theorem UpToDate.answers_congr {s s' : ScopeStack} (h : s.UpToDate) (h' : s'.UpToDate)
    (hentries : s'.entries = s.entries) :
    s'.flat = s.flat ∧ s'.tags = s.tags ∧ (∀ tag, s'.isOpen tag = s.isOpen tag) ∧
      ∀ name, s'.definingEntry? name = s.definingEntry? name := by
  have htags : s'.tags = s.tags := by rw [tags, tags, hentries]
  refine ⟨?_, htags, ?_, ?_⟩
  · rw [h'.flat_eq, h.flat_eq, hentries]
  · intro tag
    rw [Bool.eq_iff_iff, h'.isOpen_iff, h.isOpen_iff, htags]
  · intro name
    unfold definingEntry?
    rw [hentries]

/-! ## Runs -/

/-- Calls in a row are performed one after another. -/
theorem run_append (s : ScopeStack) (calls more : List ScopeCall) :
    s.run (calls ++ more) = (s.run calls).run more :=
  List.foldl_append

/-- A run keeps the views up to date. -/
theorem UpToDate.run {s : ScopeStack} (h : s.UpToDate) (calls : List ScopeCall) :
    (s.run calls).UpToDate := by
  induction calls generalizing s with
  | nil => exact h
  | cons call rest ih => exact ih (h.perform call)

/-- Between the start tag and the end tag of an element the stack comes back to where it was. -/
theorem entries_run_of_balanced {tag : String} {calls : List ScopeCall} (h : Balanced tag calls)
    {s : ScopeStack} {outer : List ScopeEntry} {top : ScopeEntry}
    (hentries : s.entries = outer ++ [top]) (htag : top.tag = tag) :
    (s.run calls).entries = outer ++ [top] := by
  -- by induction on the calls: what must not change is the innermost element, whatever it is
  induction h generalizing s outer top with
  | nil tag => exact hentries
  | @refused tag other rest loc hother _ ih =>
    have hpop := pop_mismatch hentries (htag ▸ hother) loc
    have hperform : (s.perform (.pop other loc)).2 = s := by
      simp only [perform, hpop]
    show ((s.perform (.pop other loc)).2.run rest).entries = outer ++ [top]
    rw [hperform]
    exact ih hentries htag
  | @whole tag inside rest element loc _ _ ihInside ihRest =>
    -- inside the element it is the innermost one, and its end tag takes it off again
    have hopened : (s.push element).entries = (outer ++ [top]) ++ [element] := by
      rw [push, hentries]
    have hinside := ihInside hopened rfl
    obtain ⟨s', hpop, hclosed⟩ := pop_concat hinside loc
    have hperform : (((s.push element).run inside).perform (.pop element.tag loc)).2 = s' := by
      simp only [perform, hpop]
    show ((s.push element).run (inside ++ .pop element.tag loc :: rest)).entries = outer ++ [top]
    rw [run_append]
    show ((((s.push element).run inside).perform (.pop element.tag loc)).2.run rest).entries =
      outer ++ [top]
    rw [hperform]
    exact ihRest hclosed htag

/-- An element with whole elements inside it can be closed by its end tag, and the open elements
are then those there were before. -/
theorem pop_run_of_balanced (s : ScopeStack) (element : ScopeEntry) {inside : List ScopeCall}
    (h : Balanced element.tag inside) (loc : Option String) :
    ∃ s', ((s.push element).run inside).pop element.tag loc = .ok (element, s') ∧
      s'.entries = s.entries := by
  have hopened : (s.push element).entries = s.entries ++ [element] := rfl
  exact pop_concat (entries_run_of_balanced h hopened rfl) loc

/-! ## The main result -/

/-- After every run of calls on a new stack the views are those that the open elements give anew,
refused end tags change nothing, and what happens inside an element and its end tag leaves no
trace. -/
theorem views_after_run (calls : List ScopeCall) :
    let s := ScopeStack.run {} calls
    (s.flat = s.entries.foldl (fun acc element => acc.overlay element.attributes) ∅ ∧
      s.flat.entries = (attributesInForce s.entries).map fun a => (a.name, a.written)) ∧
    (∀ tag, s.isOpen tag = true ↔ tag ∈ s.tags) ∧
    (∀ name, (∃ element, s.definingEntry? name = some element) ↔ name ∈ s.flat.names) ∧
    (∀ name element, s.definingEntry? name = some element →
      element ∈ s.entries ∧ ∃ value, element.attributes.get? name = some value ∧
        s.flat.get? name = some value) ∧
    (∀ tag loc e s', s.perform (.pop tag loc) = (.error e, s') → s' = s ∧
      (s.entries = [] ∧ e.kind = .unstartedTag ∨
        ∃ outer top, s.entries = outer ++ [top] ∧ top.tag ≠ tag ∧ e.kind = .mismatchedTag)) ∧
    ∀ (element : ScopeEntry) (inside : List ScopeCall) (loc : Option String),
      Balanced element.tag inside →
      ∃ s', ((s.push element).run inside).perform (.pop element.tag loc) = (.ok element, s') ∧
        s'.flat = s.flat ∧ s'.tags = s.tags ∧ (∀ tag, s'.isOpen tag = s.isOpen tag) ∧
        ∀ name, s'.definingEntry? name = s.definingEntry? name := by
  intro s
  have hs : s.UpToDate := upToDate_empty.run calls
  refine ⟨⟨hs.flat_eq, ?_⟩, hs.isOpen_iff, hs.definingEntry?_isSome_iff, ?_, ?_, ?_⟩
  · rw [hs.flat_eq, entries_flatten]
  · intro name element hdefining
    exact hs.get?_definingEntry hdefining
  · intro tag loc e s' hperform
    unfold perform at hperform
    dsimp only at hperform
    cases hpop : s.pop tag loc with
    | ok r => simp [hpop] at hperform
    | error e' =>
      rw [hpop, Prod.mk.injEq, Except.error.injEq] at hperform
      obtain ⟨rfl, rfl⟩ := hperform
      exact ⟨rfl, pop_eq_error hpop⟩
  · intro element inside loc hinside
    obtain ⟨s', hpop, hentries⟩ := pop_run_of_balanced s element hinside loc
    -- the open elements are the same again, and the views of both stacks follow from those
    have hs' : s'.UpToDate := ((hs.push element).run inside).pop hpop
    refine ⟨s', ?_, hs.answers_congr hs' hentries⟩
    simp only [perform, hpop]

/-- Two elements that define a name between them, after an end tag with nothing open. -/
def overwritingCalls : List ScopeCall :=
  [.pop "a" none, .push ⟨"a", .ofList [("x", .text "1"), ("y", .text "2")], none⟩,
    .push ⟨"b", .ofList [("y", .text "3"), ("z", .text "4")], some "1:9"⟩]

/-- An element without attributes, in which one is opened and closed after a wrong end tag. -/
def insideCalls : List ScopeCall :=
  [.pop "b" none, .push ⟨"d", .ofList [("x", .text "5")], none⟩, .pop "c" none, .pop "d" none]

/-- The inner value of `y` counts, at the place of the outer one, and it does so again when the
element around `insideCalls` is closed. -/
theorem views_after_overwritingCalls :
    let s := ScopeStack.run {} overwritingCalls
    s.flat.entries = [("x", .text "1"), ("y", .text "3"), ("z", .text "4")] ∧
    Balanced "c" insideCalls ∧
    ∃ s', ((s.push ⟨"c", ∅, none⟩).run insideCalls).perform (.pop "c" none) =
        (.ok ⟨"c", ∅, none⟩, s') ∧ s'.flat = s.flat ∧ s'.tags = ["a", "b"] := by
  have hinside : Balanced "c" insideCalls :=
    .refused none (by decide) (.whole ⟨"d", .ofList [("x", .text "5")], none⟩ none
      (.refused none (by decide) (.nil "d")) (.nil "c"))
  obtain ⟨-, -, -, -, -, hbalanced⟩ := views_after_run overwritingCalls
  obtain ⟨s', hperform, hflat, htags, -⟩ := hbalanced ⟨"c", ∅, none⟩ insideCalls none hinside
  exact ⟨rfl, hinside, s', hperform, hflat, htags⟩

end ScopeStack

end MarkupSpans
