import MarkupSpans.Scope

/-!
# The attributes in force

Which attributes a row of open elements puts in force, said without the cached views of a scope
stack: every name that one of the elements defines, in the order of first definitions, with the
value that the innermost element gives it.

`entries_flatten` says that laying the elements' maps over each other gives just that, and
`ScopeStack.UpToDate` is the invariant that both cached views agree with the open elements;
opening and closing an element keep it.
-/

set_option autoImplicit false

namespace MarkupSpans

/-- An attribute in force. -/
structure AttributeInForce where
  name : String
  /-- The innermost element that defines it. -/
  definer : ScopeEntry
  /-- The value that this element gives it, not yet evaluated. -/
  written : Value

/-- The names that some elements define, each once, in the order of their first definitions. -/
def definedNames (path : List ScopeEntry) : List String :=
  (path.flatMap fun element => element.attributes.names).eraseDups

/-- The innermost element that defines a name, with the value it gives. -/
def innermostDefinition? (path : List ScopeEntry) (name : String) : Option (ScopeEntry × Value) :=
  path.reverse.findSome? fun element => (element.attributes.get? name).map (element, ·)

/-- The attributes that open elements put in force; the outermost element comes first. -/
def attributesInForce (path : List ScopeEntry) : List AttributeInForce :=
  (definedNames path).filterMap fun name =>
    (innermostDefinition? path name).map fun definition => ⟨name, definition.1, definition.2⟩

/-! ## Elements laid over each other -/

/-- Laying maps over each other is writing all their entries one after the other. -/
theorem flatten_eq_ofList (path : List ScopeEntry) :
    ScopeStack.flatten path = .ofList (path.flatMap fun element => element.attributes.entries) := by
  rw [NameMap.ofList, List.foldl_flatMap]
  rfl

/-- One element more lays its attributes over those of the path. -/
theorem flatten_append_singleton (path : List ScopeEntry) (element : ScopeEntry) :
    ScopeStack.flatten (path ++ [element]) =
      (ScopeStack.flatten path).overlay element.attributes := by
  simp [ScopeStack.flatten]

/-- The attributes of a path are the ones that its elements define. -/
theorem names_flatten (path : List ScopeEntry) :
    (ScopeStack.flatten path).names = definedNames path := by
  rw [flatten_eq_ofList, NameMap.names_ofList, List.map_flatMap]
  rfl

/-- The last entry of a map that lists a name is the only one. -/
theorem lookup_reverse_entries (m : NameMap Value) (name : String) :
    m.entries.reverse.lookup name = m.get? name := by
  rw [← NameMap.get?_ofList, NameMap.ofList_entries]

/-- The value that counts is that of the innermost definition. -/
theorem get?_flatten (path : List ScopeEntry) (name : String) :
    (ScopeStack.flatten path).get? name = (innermostDefinition? path name).map Prod.snd := by
  rw [flatten_eq_ofList, NameMap.get?_ofList, List.reverse_flatMap, innermostDefinition?]
  induction path.reverse with
  | nil => rfl
  | cons element outer ih =>
    rw [List.flatMap_cons, List.lookup_append, ih, Function.comp_apply, lookup_reverse_entries,
      List.findSome?_cons]
    cases element.attributes.get? name <;> rfl

/-- The flattened view lists the attributes in force. -/
theorem entries_flatten (path : List ScopeEntry) :
    (ScopeStack.flatten path).entries =
      (attributesInForce path).map fun a => (a.name, a.written) := by
  rw [NameMap.entries_eq, names_flatten, attributesInForce, List.map_filterMap]
  congr 1
  funext name
  rw [get?_flatten]
  cases innermostDefinition? path name <;> rfl

/-- The names of the attributes in force are those that are defined. -/
theorem names_attributesInForce (path : List ScopeEntry) :
    (attributesInForce path).map AttributeInForce.name = definedNames path := by
  rw [← names_flatten, NameMap.names, entries_flatten, List.map_map]
  rfl

/-- No name is defined twice in the list of names. -/
theorem nodup_definedNames (path : List ScopeEntry) : (definedNames path).Nodup := by
  rw [← names_flatten]
  exact (ScopeStack.flatten path).nodup_names

/-! ## Defining elements -/

/-- The innermost definition of a name stands in an open element, and in none inside that one. -/
theorem split_of_innermostDefinition? {path : List ScopeEntry} {name : String}
    {definer : ScopeEntry} {value : Value}
    (h : innermostDefinition? path name = some (definer, value)) :
    ∃ outer inner, path = outer ++ definer :: inner ∧
      definer.attributes.get? name = some value ∧
      ∀ element ∈ inner, element.attributes.get? name = none := by
  rw [innermostDefinition?, List.findSome?_eq_some_iff] at h
  obtain ⟨inner, element, outer, hpath, hvalue, hinner⟩ := h
  simp only [Option.map_eq_some_iff, Prod.mk.injEq] at hvalue
  obtain ⟨_, hget, rfl, rfl⟩ := hvalue
  refine ⟨outer.reverse, inner.reverse, ?_, hget, ?_⟩
  · rw [← List.reverse_reverse path, hpath]
    simp
  · intro other hother
    simpa using hinner other (List.mem_reverse.mp hother)

/-- An attribute in force has its innermost definition as definer and value. -/
theorem innermostDefinition?_of_mem {path : List ScopeEntry} {a : AttributeInForce}
    (h : a ∈ attributesInForce path) :
    innermostDefinition? path a.name = some (a.definer, a.written) := by
  simp only [attributesInForce, List.mem_filterMap, Option.map_eq_some_iff] at h
  obtain ⟨name, _, definition, hdefinition, rfl⟩ := h
  exact hdefinition

/-- An attribute in force is one of those that its element defines, and the element is open. -/
theorem definition_of_mem {path : List ScopeEntry} {a : AttributeInForce}
    (h : a ∈ attributesInForce path) :
    a.definer ∈ path ∧ (a.name, a.written) ∈ a.definer.attributes.entries := by
  obtain ⟨outer, inner, hpath, hget, -⟩ :=
    split_of_innermostDefinition? (innermostDefinition?_of_mem h)
  refine ⟨?_, (NameMap.get?_eq_some_iff _ _ _).mp hget⟩
  rw [hpath]
  simp

/-- The search for the defining element of a name ends at the innermost definition. -/
theorem definingEntry?_eq (s : ScopeStack) (name : String) :
    s.definingEntry? name = (innermostDefinition? s.entries name).map Prod.fst := by
  rw [ScopeStack.definingEntry?, innermostDefinition?]
  induction s.entries.reverse with
  | nil => rfl
  | cons element outer ih =>
    rw [List.find?_cons, List.findSome?_cons, ih]
    cases hget : element.attributes.get? name with
    | none =>
      have hcontains : element.attributes.contains name = false := by
        simpa [NameMap.contains] using (NameMap.get?_eq_none_iff _ _).mp hget
      simp [hcontains]
    | some value =>
      have hmem : name ∈ element.attributes.names :=
        List.mem_map.mpr ⟨_, (NameMap.get?_eq_some_iff _ _ _).mp hget, rfl⟩
      have hcontains : element.attributes.contains name = true := by
        simpa [NameMap.contains] using hmem
      simp [hcontains]

/-! ## Views that are up to date -/

namespace ScopeStack

/-- Both cached views of a stack agree with its open elements. -/
structure UpToDate (s : ScopeStack) : Prop where
  /-- The flattened view is what flattening anew would give. -/
  flat_eq : s.flat = flatten s.entries
  /-- The counts are the numbers of open elements with a tag. -/
  countOf_eq : ∀ tag, s.countOf tag = s.tags.count tag

/-- The views of an empty stack are up to date. -/
theorem upToDate_empty : UpToDate {} where
  flat_eq := rfl
  countOf_eq _ := rfl

/-- Opening an element keeps the views up to date: only overriding is needed. -/
theorem UpToDate.push {s : ScopeStack} (h : s.UpToDate) (element : ScopeEntry) :
    (s.push element).UpToDate where
  flat_eq := by
    rw [ScopeStack.push, flatten_append_singleton, ← h.flat_eq]
  countOf_eq tag := by
    simp only [countOf, ScopeStack.push, NameMap.get?_insert, tags, List.map_append, List.map_cons,
      List.map_nil, List.count_append, List.count_singleton]
    by_cases htag : tag = element.tag
    · subst htag
      have := h.countOf_eq element.tag
      simp only [countOf, tags] at this
      simp [this]
    · have := h.countOf_eq tag
      simp only [countOf, tags] at this
      simp [htag, this, Ne.symm htag]

/-- What closing the innermost element does. -/
theorem pop_eq_ok {s s' : ScopeStack} {top : ScopeEntry} {tag : String} {loc : Option String}
    (h : s.pop tag loc = .ok (top, s')) :
    s.entries = s'.entries ++ [top] ∧ top.tag = tag ∧
      s'.tagCounts = s.tagCounts.insert tag (s.countOf tag - 1) ∧
      s'.flat = if top.attributes.isEmpty then s.flat else flatten s'.entries := by
  rw [ScopeStack.pop] at h
  rcases List.eq_nil_or_concat s.entries with hentries | ⟨outer, last, hentries⟩
  · simp [hentries] at h
  · simp only [List.concat_eq_append] at hentries
    simp only [hentries, List.getLast?_append, List.getLast?_singleton, Option.some_or,
      List.dropLast_concat] at h
    by_cases htag : last.tag = tag
    · simp only [htag, if_true, Except.ok.injEq, Prod.mk.injEq] at h
      obtain ⟨rfl, rfl⟩ := h
      exact ⟨hentries, htag, rfl, rfl⟩
    · simp [htag] at h

/-- The innermost element can be closed by its tag. -/
theorem pop_concat {s : ScopeStack} {outer : List ScopeEntry} {top : ScopeEntry}
    (h : s.entries = outer ++ [top]) (loc : Option String) :
    ∃ s', s.pop top.tag loc = .ok (top, s') ∧ s'.entries = outer := by
  simp [ScopeStack.pop, h]

/-- Nothing can be closed while nothing is open. -/
theorem pop_nil {s : ScopeStack} (h : s.entries = []) (tag : String) (loc : Option String) :
    s.pop tag loc = .error (unstartedError tag loc) := by
  simp [ScopeStack.pop, h]

/-- The innermost element cannot be closed by another tag. -/
theorem pop_mismatch {s : ScopeStack} {outer : List ScopeEntry} {top : ScopeEntry}
    (h : s.entries = outer ++ [top]) {tag : String} (htag : top.tag ≠ tag)
    (loc : Option String) : s.pop tag loc = .error (s.mismatchedError top tag loc) := by
  simp [ScopeStack.pop, h, htag]

/-- Closing an element keeps the views up to date: an element without attributes has left nothing
in the flattened view. -/
theorem UpToDate.pop {s s' : ScopeStack} {top : ScopeEntry} {tag : String} {loc : Option String}
    (h : s.UpToDate) (hpop : s.pop tag loc = .ok (top, s')) : s'.UpToDate := by
  obtain ⟨hentries, htag, hcounts, hflat⟩ := pop_eq_ok hpop
  have htags : s.tags = s'.tags ++ [tag] := by
    simp [tags, hentries, htag]
  constructor
  · rw [hflat]
    split
    · rename_i hempty
      have hnone : top.attributes.entries = [] := by
        simpa [NameMap.isEmpty] using hempty
      rw [h.flat_eq, hentries, flatten_append_singleton, NameMap.overlay, hnone, List.foldl_nil]
    · rfl
  · intro other
    have hbefore := h.countOf_eq other
    rw [htags, List.count_append, List.count_singleton] at hbefore
    rw [countOf, hcounts, NameMap.get?_insert]
    by_cases hother : other = tag
    · subst hother
      simp only [beq_self_eq_true, if_true] at hbefore
      simp [hbefore]
    · rw [if_neg hother]
      simpa [countOf, Ne.symm hother] using hbefore

end ScopeStack

end MarkupSpans
