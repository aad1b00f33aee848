import Mathlib.Data.List.Induction
import MarkupSpans.Scope
import MarkupSpans.Word

/-!
# Words that nest

A forest of elements, its linear form as a row of words, and the rows that can still become one.
The forest is nowhere in the compiler, which sees words only; `walk` is the pass over the words
that keeps the open elements, and the statements here say what it has to do with forests.

`extendable_iff` is the viable-prefix statement: a row of words can be completed to the linear
form of a forest exactly when it leaves some elements open, and `Opens` says which.  The ladder
above it shows how one more word changes that.
-/

set_option autoImplicit false

namespace MarkupSpans

/-- A forest of elements and texts, given by its first tree and the trees behind that. -/
inductive Forest where
  /-- No tree. -/
  | empty
  /-- A text, and the trees behind it. -/
  | leaf (content : String) (loc : Option String) (rest : Forest)
  /-- An element with the forest inside it, and the trees behind it. -/
  | node (element : ScopeEntry) (endLoc : Option String) (inside rest : Forest)

/-- The start tag of an element. -/
def ScopeEntry.startTag (element : ScopeEntry) : Word :=
  .startTag element.tag element.attributes element.loc

/-- A text of a forest with the elements around it, outermost first. -/
structure Leaf where
  /-- The text. -/
  content : String
  /-- The place of the text. -/
  loc : Option String
  /-- The elements on the way from the root to the text. -/
  path : List ScopeEntry

namespace Forest

/-- The linear form of a forest: texts, start tags and end tags from left to right. -/
def words : Forest → List Word
  | empty => []
  | leaf content loc rest => .text content loc :: rest.words
  | node element endLoc inside rest =>
    element.startTag :: (inside.words ++ .endTag element.tag endLoc :: rest.words)

/-- The texts of a forest from left to right, where `path` are the elements around it. -/
def leaves (path : List ScopeEntry) : Forest → List Leaf
  | empty => []
  | leaf content loc rest => ⟨content, loc, path⟩ :: rest.leaves path
  | node element _ inside rest => inside.leaves (path ++ [element]) ++ rest.leaves path

/-- Two forests side by side. -/
def append : Forest → Forest → Forest
  | empty, other => other
  | leaf content loc rest, other => leaf content loc (rest.append other)
  | node element endLoc inside rest, other => node element endLoc inside (rest.append other)

/-- The words of forests in a row follow one another. -/
theorem words_append (forest other : Forest) :
    (forest.append other).words = forest.words ++ other.words := by
  induction forest with
  | empty => rfl
  | leaf content loc rest ih => simp [append, words, ih]
  | node element endLoc inside rest _ ih => simp [append, words, ih]

end Forest

/-- A row of words can be completed to the linear form of a forest. -/
def Extendable (ws : List Word) : Prop := ∃ (more : List Word) (forest : Forest),
  ws ++ more = forest.words

/-- A row of words is made of whole trees and of start tags without an end tag, which are those of
the elements given, outermost first. -/
inductive Opens : List Word → List ScopeEntry → Prop
  /-- Whole trees leave nothing open. -/
  | closed (forest : Forest) : Opens forest.words []
  /-- One more start tag, with whole trees behind it. -/
  | inside {ws : List Word} {path : List ScopeEntry} (element : ScopeEntry) (forest : Forest) :
      Opens ws path → Opens (ws ++ element.startTag :: forest.words) (path ++ [element])

/-- The texts of a row of words with the elements around them, and the elements that are open in
the end, if every end tag fits; `path` are the elements that are open in front. -/
def walk : List ScopeEntry → List Word → Option (List Leaf × List ScopeEntry)
  | path, [] => some ([], path)
  | path, .text content loc :: ws =>
    (walk path ws).map fun r => (⟨content, loc, path⟩ :: r.1, r.2)
  | path, .startTag tag attributes loc :: ws => walk (path ++ [⟨tag, attributes, loc⟩]) ws
  | path, .endTag tag _ :: ws =>
    match path.getLast? with
    | none => none
    | some top => if top.tag = tag then walk path.dropLast ws else none

/-! ## The walk over words -/

/-- A walk over two rows is a walk over the first one and then over the second one. -/
theorem walk_append (path : List ScopeEntry) (ws more : List Word) :
    walk path (ws ++ more) = (walk path ws).bind fun r =>
      (walk r.2 more).map fun r' => (r.1 ++ r'.1, r'.2) := by
  induction ws generalizing path with
  | nil =>
    simp only [List.nil_append, walk, Option.bind_some]
    cases walk path more <;> rfl
  | cons w ws ih =>
    cases w with
    | text content loc =>
      simp only [List.cons_append, walk, ih]
      cases walk path ws with
      | none => rfl
      | some r => simp [Function.comp_def]
    | startTag tag attributes loc => exact ih _
    | endTag tag loc =>
      simp only [List.cons_append, walk]
      cases path.getLast? with
      | none => rfl
      | some top =>
        by_cases htag : top.tag = tag
        · simp only [htag, if_true, ih]
        · simp [htag]

/-- A walk over the linear form of a forest comes upon its leaves, and leaves nothing open. -/
theorem walk_forest (forest : Forest) (path : List ScopeEntry) :
    walk path forest.words = some (forest.leaves path, path) := by
  induction forest generalizing path with
  | empty => rfl
  | leaf content loc rest ih => simp [Forest.words, Forest.leaves, walk, ih]
  | node element endLoc inside rest ihInside ihRest =>
    have hinside := ihInside (path ++ [element])
    simp only [Forest.words, Forest.leaves, ScopeEntry.startTag, walk, walk_append, hinside,
      Option.bind_some, List.getLast?_append, List.getLast?_singleton, Option.some_or, if_true,
      List.dropLast_concat, ihRest, Option.map_some]

/-- What is open after a row of words is what the walk over it ends with. -/
theorem Opens.walk_eq {ws : List Word} {path : List ScopeEntry} (h : Opens ws path) :
    ∃ leaves, walk [] ws = some (leaves, path) := by
  induction h with
  | closed forest => exact ⟨_, walk_forest forest []⟩
  | @inside ws path element forest _ ih =>
    obtain ⟨leaves, hwalk⟩ := ih
    refine ⟨leaves ++ forest.leaves (path ++ [element]), ?_⟩
    simp [walk_append, hwalk, ScopeEntry.startTag, walk, walk_forest]

/-! ## One more word -/

/-- Whole trees behind a row of words change nothing about what is open. -/
theorem Opens.append_forest {ws : List Word} {path : List ScopeEntry} (h : Opens ws path)
    (forest : Forest) : Opens (ws ++ forest.words) path := by
  cases h with
  | closed first =>
    rw [← Forest.words_append]
    exact .closed _
  | inside element first hbefore =>
    rw [List.append_assoc, List.cons_append, ← Forest.words_append]
    exact .inside element _ hbefore

/-- A text opens no element. -/
theorem Opens.text {ws : List Word} {path : List ScopeEntry} (h : Opens ws path)
    (content : String) (loc : Option String) : Opens (ws ++ [.text content loc]) path :=
  h.append_forest (.leaf content loc .empty)

/-- A start tag opens its element inside those that are open. -/
theorem Opens.startTag {ws : List Word} {path : List ScopeEntry} (h : Opens ws path)
    (element : ScopeEntry) : Opens (ws ++ [element.startTag]) (path ++ [element]) :=
  .inside element .empty h

/-- The end tag of the innermost open element closes it. -/
theorem Opens.endTag {ws : List Word} {path : List ScopeEntry} {top : ScopeEntry}
    (h : Opens ws (path ++ [top])) (loc : Option String) :
    Opens (ws ++ [.endTag top.tag loc]) path := by
  generalize hpath : path ++ [top] = whole at h
  cases h with
  | closed forest => simp at hpath
  | @inside before outer element forest hbefore =>
    obtain ⟨rfl, helement⟩ := List.append_inj' hpath rfl
    obtain rfl : top = element := by simpa using helement
    -- the start tag, the trees behind it and the end tag are one tree more
    have := hbefore.append_forest (.node top loc forest .empty)
    simpa [Forest.words] using this

/-- A row of words over which the walk goes leaves open what the walk ends with. -/
theorem opens_of_walk {ws : List Word} {leaves : List Leaf} {path : List ScopeEntry}
    (h : walk [] ws = some (leaves, path)) : Opens ws path := by
  -- from the end of the row: the walk over the words in front is known to go well
  induction ws using List.reverseRecOn generalizing leaves path with
  | nil =>
    simp only [walk, Option.some.injEq, Prod.mk.injEq] at h
    rw [← h.2]
    exact .closed .empty
  | append_singleton ws w ih =>
    rw [walk_append] at h
    cases hbefore : walk [] ws with
    | none => simp [hbefore] at h
    | some r =>
      obtain ⟨leaves', before⟩ := r
      have hopens := ih hbefore
      simp only [hbefore, Option.bind_some, Option.map_eq_some_iff] at h
      obtain ⟨last, hlast, hr⟩ := h
      simp only [Prod.mk.injEq] at hr
      cases w with
      | text content loc =>
        simp only [walk, Option.map_some, Option.some.injEq] at hlast
        rw [← hr.2, ← hlast]
        exact hopens.text content loc
      | startTag tag attributes loc =>
        simp only [walk, Option.some.injEq] at hlast
        rw [← hr.2, ← hlast]
        exact hopens.startTag ⟨tag, attributes, loc⟩
      | endTag tag loc =>
        rcases List.eq_nil_or_concat before with rfl | ⟨outer, top, rfl⟩
        · simp [walk] at hlast
        · simp only [List.concat_eq_append] at hopens hlast
          by_cases htag : top.tag = tag
          · simp only [walk, List.getLast?_append, List.getLast?_singleton, Option.some_or, htag,
              if_true, List.dropLast_concat, Option.some.injEq] at hlast
            rw [← hr.2, ← hlast, ← htag]
            exact hopens.endTag loc
          · simp [walk, htag] at hlast

/-! ## Viable prefixes -/

/-- With whole trees and then the missing end tags behind it, a row of words is the linear form of
a forest. -/
theorem Opens.completion {ws : List Word} {path : List ScopeEntry} (h : Opens ws path)
    (behind : Forest) : ∃ (more : List Word) (forest : Forest),
      ws ++ (behind.words ++ more) = forest.words := by
  induction h generalizing behind with
  | closed forest => exact ⟨[], forest.append behind, by simp [Forest.words_append]⟩
  | @inside ws path element forest _ ih =>
    -- the innermost open element is closed behind `behind`, and is a whole tree then
    obtain ⟨more, whole, hwhole⟩ := ih (.node element none (forest.append behind) .empty)
    refine ⟨.endTag element.tag none :: more, whole, ?_⟩
    rw [← hwhole]
    simp [Forest.words, Forest.words_append]

/-- Viable prefixes: a row of words can be completed exactly when some elements are open after
it. -/
theorem extendable_iff (ws : List Word) : Extendable ws ↔ ∃ path, Opens ws path := by
  constructor
  · rintro ⟨more, forest, hforest⟩
    have hwalk : walk [] (ws ++ more) = some (forest.leaves [], []) := by
      rw [hforest]
      exact walk_forest forest []
    rw [walk_append] at hwalk
    cases hws : walk [] ws with
    | none => simp [hws] at hwalk
    | some r =>
      obtain ⟨leaves, path⟩ := r
      exact ⟨path, opens_of_walk hws⟩
  · rintro ⟨path, h⟩
    obtain ⟨more, forest, hforest⟩ := h.completion .empty
    exact ⟨_, forest, hforest⟩

/-- A row of words that cannot be completed has a first word with which that begins. -/
theorem exists_first_not_extendable {ws : List Word} (h : ¬ Extendable ws) :
    ∃ (before after : List Word) (w : Word), ws = before ++ w :: after ∧ Extendable before ∧
      ¬ Extendable (before ++ [w]) := by
  induction ws using List.reverseRecOn with
  | nil => exact absurd ⟨[], .empty, rfl⟩ h
  | append_singleton ws w ih =>
    by_cases hws : Extendable ws
    · exact ⟨ws, [], w, rfl, hws, h⟩
    · obtain ⟨before, after, first, rfl, hbefore, hfirst⟩ := ih hws
      exact ⟨before, after ++ [w], first, by simp, hbefore, hfirst⟩

/-- What is open after a row of words is determined by the row. -/
theorem Opens.unique {ws : List Word} {path other : List ScopeEntry} (h : Opens ws path)
    (h' : Opens ws other) : path = other := by
  obtain ⟨leaves, hwalk⟩ := h.walk_eq
  obtain ⟨leaves', hwalk'⟩ := h'.walk_eq
  rw [hwalk] at hwalk'
  simp only [Option.some.injEq, Prod.mk.injEq] at hwalk'
  exact hwalk'.2

/-- A row of words after which nothing is open is the linear form of a forest. -/
theorem opens_nil_iff (ws : List Word) : Opens ws [] ↔ ∃ forest : Forest, ws = forest.words := by
  constructor
  · intro h
    generalize hpath : ([] : List ScopeEntry) = path at h
    cases h with
    | closed forest => exact ⟨forest, rfl⟩
    | inside element forest hbefore => simp at hpath
  · rintro ⟨forest, rfl⟩
    exact .closed forest

end MarkupSpans
