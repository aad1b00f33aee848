/-!
# Name maps

A finite map from names to values that remembers the order in which its names came in.
Writing a name that is present keeps its place and replaces its value; writing a new name puts
it last.  `names_insert`, `get?_insert`, `names_erase` and `get?_erase` say so.
-/

set_option autoImplicit false

namespace MarkupSpans

/-- A map from names to values in the order in which the names came in, each listed once. -/
structure NameMap (α : Type) where
  /-- The names with their values, oldest first. -/
  entries : List (String × α)
  /-- No name is listed twice. -/
  nodup_names : (entries.map Prod.fst).Nodup

namespace NameMap

variable {α : Type}

/-- The map without names. -/
def empty : NameMap α := ⟨[], List.nodup_nil⟩

instance : EmptyCollection (NameMap α) := ⟨empty⟩

instance : Inhabited (NameMap α) := ⟨empty⟩

/-- The names, oldest first. -/
def names (m : NameMap α) : List String := m.entries.map Prod.fst

/-- The value that a name has, if it is present. -/
def get? (m : NameMap α) (name : String) : Option α := m.entries.lookup name

/-- Whether a name is present. -/
def contains (m : NameMap α) (name : String) : Bool := m.names.contains name

/-- The number of names. -/
def size (m : NameMap α) : Nat := m.entries.length

/-- Whether there are no names. -/
def isEmpty (m : NameMap α) : Bool := m.entries.isEmpty

/-- Replaces the value of a listed name where it stands, or lists a new name last. -/
def insertEntry (name : String) (value : α) : List (String × α) → List (String × α)
  | [] => [(name, value)]
  | entry :: rest =>
    if entry.1 = name then (name, value) :: rest else entry :: insertEntry name value rest

/-- The names after a write: the same ones, with a new name last. -/
theorem names_insertEntry (name : String) (value : α) (entries : List (String × α)) :
    (insertEntry name value entries).map Prod.fst =
      if name ∈ entries.map Prod.fst then entries.map Prod.fst
      else entries.map Prod.fst ++ [name] := by
  induction entries with
  | nil => simp [insertEntry]
  | cons entry rest ih =>
    by_cases h : entry.1 = name
    · simp [insertEntry, h]
    · have h' : ¬ name = entry.1 := fun e => h e.symm
      simp only [insertEntry, h, if_false, List.map_cons, ih, List.mem_cons, h', false_or]
      split <;> simp

/-- Gives a name a value: a present name keeps its place, a new one comes last. -/
def insert (m : NameMap α) (name : String) (value : α) : NameMap α where
  entries := insertEntry name value m.entries
  nodup_names := by
    rw [names_insertEntry]
    split
    · exact m.nodup_names
    · rename_i h
      exact List.nodup_append.mpr ⟨m.nodup_names, by simp, by
        intro a ha b hb
        rw [List.mem_singleton] at hb
        subst hb
        exact fun e => h (e ▸ ha)⟩

/-- Removes a name. -/
def erase (m : NameMap α) (name : String) : NameMap α where
  entries := m.entries.filter fun entry => entry.1 != name
  nodup_names := List.Nodup.sublist (List.Sublist.map _ List.filter_sublist) m.nodup_names

/-- Writes all entries of a second map over a first one, in the second map's order. -/
def overlay (m other : NameMap α) : NameMap α :=
  other.entries.foldl (fun acc entry => acc.insert entry.1 entry.2) m

/-- Reads a list of entries: a repeated name keeps its first place and takes its last value. -/
def ofList (entries : List (String × α)) : NameMap α :=
  entries.foldl (fun acc entry => acc.insert entry.1 entry.2) empty

/-- Whether two maps have the same names with related values, whatever their orders. -/
def sameBy (same : α → α → Bool) (m other : NameMap α) : Bool :=
  m.size == other.size && m.entries.all fun entry =>
    match other.get? entry.1 with
    | some value => same entry.2 value
    | none => false

/-- A write keeps the order of the names and puts a new name last. -/
theorem names_insert (m : NameMap α) (name : String) (value : α) :
    (m.insert name value).names = if name ∈ m.names then m.names else m.names ++ [name] :=
  names_insertEntry name value m.entries

/-- Looking a name up goes from entry to entry. -/
theorem lookup_cons_entry (name : String) (entry : String × α) (rest : List (String × α)) :
    (entry :: rest).lookup name = if name = entry.1 then some entry.2 else rest.lookup name := by
  obtain ⟨key, value⟩ := entry
  by_cases h : name = key
  · simp [h]
  · simp [List.lookup_cons, beq_false_of_ne h, h]

/-- A write changes the value of its own name only. -/
theorem get?_insert (m : NameMap α) (name other : String) (value : α) :
    (m.insert name value).get? other = if other = name then some value else m.get? other := by
  change (insertEntry name value m.entries).lookup other = _
  unfold get?
  induction m.entries with
  | nil => simp [insertEntry, lookup_cons_entry]
  | cons entry rest ih =>
    by_cases hk : entry.1 = name
    · by_cases h : other = name <;> simp [insertEntry, lookup_cons_entry, hk, h]
    · by_cases h : other = entry.1
      · simp [insertEntry, lookup_cons_entry, hk, h]
      · simp [insertEntry, lookup_cons_entry, hk, h, ih]

/-- Removing a name leaves the other names in their order. -/
theorem names_erase (m : NameMap α) (name : String) :
    (m.erase name).names = m.names.filter (· != name) := by
  simp [names, erase, List.filter_map, Function.comp_def]

/-- Removing a name hides that name only. -/
theorem get?_erase (m : NameMap α) (name other : String) :
    (m.erase name).get? other = if other = name then none else m.get? other := by
  change (m.entries.filter fun entry => entry.1 != name).lookup other = _
  unfold get?
  induction m.entries with
  | nil => simp
  | cons entry rest ih =>
    by_cases hk : entry.1 = name
    · by_cases h : other = name <;>
        simpa [List.filter_cons, lookup_cons_entry, hk, h] using ih
    · by_cases h : other = entry.1
      · simp [lookup_cons_entry, hk, h]
      · simpa [List.filter_cons, lookup_cons_entry, hk, h] using ih

/-! ## Entries, and rows of writes -/

/-- The value of a name is that of its entry. -/
theorem get?_eq_some_iff (m : NameMap α) (name : String) (value : α) :
    m.get? name = some value ↔ (name, value) ∈ m.entries := by
  obtain ⟨entries, hnodup⟩ := m
  change entries.lookup name = some value ↔ (name, value) ∈ entries
  induction entries with
  | nil => simp
  | cons entry rest ih =>
    simp only [List.map_cons, List.nodup_cons, List.mem_map] at hnodup
    rw [lookup_cons_entry, List.mem_cons]
    by_cases h : name = entry.1
    · -- a second entry of the name would be listed twice
      have hrest : ¬ (name, value) ∈ rest := fun hmem => hnodup.1 ⟨_, hmem, h⟩
      rw [if_pos h, Option.some.injEq]
      constructor
      · intro hvalue
        exact .inl (Prod.ext h hvalue.symm)
      · rintro (hentry | hmem)
        · rw [← hentry]
        · exact absurd hmem hrest
    · rw [if_neg h, ih hnodup.2]
      constructor
      · exact .inr
      · rintro (hentry | hmem)
        · exact absurd (by rw [← hentry]) h
        · exact hmem

/-- A name is present exactly if it has a value. -/
theorem get?_eq_none_iff (m : NameMap α) (name : String) :
    m.get? name = none ↔ name ∉ m.names := by
  obtain ⟨entries, hnodup⟩ := m
  change entries.lookup name = none ↔ name ∉ entries.map Prod.fst
  clear hnodup
  induction entries with
  | nil => simp
  | cons entry rest ih =>
    rw [lookup_cons_entry, List.map_cons, List.mem_cons, not_or]
    by_cases h : name = entry.1
    · simp [h]
    · rw [if_neg h, ih]
      exact ⟨fun hrest => ⟨h, hrest⟩, fun hboth => hboth.2⟩

/-- A map is its names with their values. -/
theorem entries_eq (m : NameMap α) :
    m.entries = m.names.filterMap fun name => (m.get? name).map (name, ·) := by
  have hrow : ∀ row : List (String × α), (∀ entry ∈ row, m.get? entry.1 = some entry.2) →
      (row.map Prod.fst).filterMap (fun name => (m.get? name).map (name, ·)) = row := by
    intro row hget
    induction row with
    | nil => rfl
    | cons entry rest ih =>
      have hentry := hget entry (by simp)
      have hrest := ih fun other hmem => hget other (by simp [hmem])
      rw [List.map_cons, List.filterMap_cons, hentry, hrest]
      rfl
  exact (hrow m.entries fun entry hmem => (m.get?_eq_some_iff _ _).mpr hmem).symm

/-- A new name comes last. -/
theorem entries_insert_of_notMem (m : NameMap α) {name : String} (value : α)
    (h : name ∉ m.names) : (m.insert name value).entries = m.entries ++ [(name, value)] := by
  obtain ⟨entries, hnodup⟩ := m
  change name ∉ entries.map Prod.fst at h
  change insertEntry name value entries = entries ++ [(name, value)]
  clear hnodup
  induction entries with
  | nil => rfl
  | cons entry rest ih =>
    simp only [List.map_cons, List.mem_cons, not_or] at h
    rw [insertEntry, if_neg (Ne.symm h.1), ih h.2, List.cons_append]

/-- A row of writes keeps the names there were, and puts the new ones behind them, each where it
is first written. -/
theorem names_foldl_insert (row : List (String × α)) (m : NameMap α) :
    (row.foldl (fun acc entry => acc.insert entry.1 entry.2) m).names =
      m.names ++ ((row.map Prod.fst).removeAll m.names).eraseDups := by
  induction row generalizing m with
  | nil => simp
  | cons entry rest ih =>
    rw [List.foldl_cons, ih, names_insert, List.map_cons, List.cons_removeAll]
    by_cases h : entry.1 ∈ m.names
    · simp [h]
    · have hcontains : m.names.contains entry.1 = false := by simpa using h
      rw [if_neg h, if_pos hcontains, List.eraseDups_cons, List.append_assoc,
        List.singleton_append, List.removeAll, List.removeAll, List.filter_filter]
      congr 4
      funext name
      rw [List.elem_eq_contains, List.elem_eq_contains, Bool.eq_iff_iff]
      simp [and_comm]

/-- Of several writes of a name the last one counts. -/
theorem get?_foldl_insert (row : List (String × α)) (m : NameMap α) (name : String) :
    (row.foldl (fun acc entry => acc.insert entry.1 entry.2) m).get? name =
      (row.reverse.lookup name).or (m.get? name) := by
  induction row generalizing m with
  | nil => rfl
  | cons entry rest ih =>
    rw [List.foldl_cons, ih, get?_insert, List.reverse_cons, List.lookup_append,
      lookup_cons_entry]
    by_cases h : name = entry.1
    · simp [h]
    · simp [h]

/-- The names of a row stand in the order of their first occurrences. -/
theorem names_ofList (row : List (String × α)) :
    (ofList row).names = (row.map Prod.fst).eraseDups := by
  rw [ofList, names_foldl_insert]
  simp [names, empty]

/-- A name of a row has the value of its last occurrence. -/
theorem get?_ofList (row : List (String × α)) (name : String) :
    (ofList row).get? name = row.reverse.lookup name := by
  rw [ofList, get?_foldl_insert]
  simp [get?, empty]

/-- The entries that a row of writes leaves are among those written. -/
theorem mem_of_mem_ofList {row : List (String × α)} {entry : String × α}
    (h : entry ∈ (ofList row).entries) : entry ∈ row := by
  have hlookup := ((ofList row).get?_eq_some_iff entry.1 entry.2).mpr h
  rw [get?_ofList, List.lookup_eq_some_iff] at hlookup
  obtain ⟨front, back, heq, -⟩ := hlookup
  rw [← List.mem_reverse, heq]
  simp

/-- A row of writes of new names puts its entries last. -/
theorem entries_foldl_insert (row : List (String × α)) (m : NameMap α)
    (h : (m.names ++ row.map Prod.fst).Nodup) :
    (row.foldl (fun acc entry => acc.insert entry.1 entry.2) m).entries = m.entries ++ row := by
  induction row generalizing m with
  | nil => simp
  | cons entry rest ih =>
    have hnew : entry.1 ∉ m.names := by
      rw [List.nodup_append] at h
      exact fun hmem => h.2.2 _ hmem _ (by simp) rfl
    rw [List.foldl_cons, ih, entries_insert_of_notMem m entry.2 hnew]
    · simp
    · rw [names_insert, if_neg hnew]
      simpa using h

/-- A map is made of its entries. -/
theorem ofList_entries (m : NameMap α) : ofList m.entries = m := by
  have h : (ofList m.entries).entries = m.entries :=
    entries_foldl_insert m.entries empty m.nodup_names
  cases m
  cases hmap : ofList _
  rw [hmap] at h
  simpa using h

/-! ## The values that are held -/

/-- The values, in the order of their names. -/
def held (m : NameMap α) : List α := m.entries.map Prod.snd

/-- A write puts its value in and lets the value that the name had out. -/
theorem held_insert_perm (m : NameMap α) (name : String) (value : α) :
    (m.held ++ [value]).Perm ((m.get? name).toList ++ (m.insert name value).held) := by
  change (m.entries.map Prod.snd ++ [value]).Perm
    ((m.entries.lookup name).toList ++ (insertEntry name value m.entries).map Prod.snd)
  induction m.entries with
  | nil => exact .refl _
  | cons entry rest ih =>
    rw [lookup_cons_entry, insertEntry]
    by_cases h : entry.1 = name
    · rw [if_pos h, if_pos h.symm]
      exact (List.perm_append_singleton value (rest.map Prod.snd)).cons entry.2
    · rw [if_neg h, if_neg (Ne.symm h)]
      exact (ih.cons entry.2).trans List.perm_middle.symm

/-- Removing a name lets its value out. -/
theorem held_erase_perm (m : NameMap α) {name : String} {value : α}
    (h : m.get? name = some value) : m.held.Perm (value :: (m.erase name).held) := by
  obtain ⟨entries, hnodup⟩ := m
  change entries.lookup name = some value at h
  change (entries.map Prod.snd).Perm
    (value :: (entries.filter fun entry => entry.1 != name).map Prod.snd)
  induction entries with
  | nil => cases h
  | cons entry rest ih =>
    rw [List.map_cons, List.nodup_cons] at hnodup
    rw [lookup_cons_entry] at h
    by_cases hname : entry.1 = name
    · -- no later entry has the name, so that nothing else is removed
      have hrest : rest.filter (fun entry => entry.1 != name) = rest := by
        rw [List.filter_eq_self]
        intro other hmem
        have hne : other.1 ≠ name := fun heq =>
          hnodup.1 (hname.trans heq.symm ▸ List.mem_map_of_mem hmem)
        simpa using hne
      rw [if_pos hname.symm, Option.some.injEq] at h
      rw [List.filter_cons_of_neg (by simp [hname]), hrest, List.map_cons, h]
    · rw [if_neg (Ne.symm hname)] at h
      rw [List.filter_cons_of_pos (by simpa using hname), List.map_cons, List.map_cons]
      exact ((ih hnodup.2 h).cons entry.2).trans (.swap value entry.2 _)

end NameMap

end MarkupSpans
