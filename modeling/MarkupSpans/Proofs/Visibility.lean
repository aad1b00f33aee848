import Mathlib.Data.List.Forall2
import MarkupSpans.Proofs.Execution

/-!
# What a text sees

A value that no text sees is stored with its element, laid over other values and uncovered again,
and it must not be told from any other value by what a compilation comes to.

Two rows of words that differ in such values only, among bindings that may differ where no seen
value asks for them, have plans whose steps have the same effect one by one
(`sameEffect_reached`).  That compiling is executing the plan does the rest
(`compileWords_eq_of_seen_eq`).
-/

set_option autoImplicit false

namespace MarkupSpans

/-! ## Words of the same shape -/

/-- Two words are the same but for the values of attributes. -/
inductive Word.SameShape : Word → Word → Prop
  | text (content : String) (loc : Option String) :
      SameShape (.text content loc) (.text content loc)
  | startTag (tag : String) {attributes attributes' : NameMap Value} (loc : Option String) :
      attributes'.names = attributes.names →
      SameShape (.startTag tag attributes loc) (.startTag tag attributes' loc)
  | endTag (tag : String) (loc : Option String) : SameShape (.endTag tag loc) (.endTag tag loc)

/-- Two elements are the same but for the values of attributes. -/
structure ScopeEntry.SameShape (element element' : ScopeEntry) : Prop where
  tag_eq : element'.tag = element.tag
  loc_eq : element'.loc = element.loc
  names_eq : element'.attributes.names = element.attributes.names

/-! ## What is seen -/

mutual

/-- The names of the references and the calls in an expression, however deep they stand. -/
def Expr.names : Expr → List String
  | .text _ => []
  | .number _ => []
  | .ref name => [name]
  | .call name args => name :: namesAll args

/-- The names of the references and the calls in several expressions. -/
def Expr.namesAll : List Expr → List String
  | [] => []
  | e :: rest => e.names ++ namesAll rest

end

/-- The names of the references and the calls in an attribute's value. -/
def Value.names : Value → List String
  | .expr e => e.names
  | _ => []

/-- In the words behind a start tag, every text inside its element lies in an element further
inside that defines a name. -/
def HiddenBehind (name : String) (behind : List Word) : Prop :=
  ∀ (between after : List Word) (content : String) (loc : Option String)
    (inner : List ScopeEntry), behind = between ++ .text content loc :: after →
    Opens between inner → ∃ element ∈ inner, name ∈ element.attributes.names

/-- Two start tags at the same place of two rows of words give a name the same value, unless that
is hidden from every text inside the element. -/
def AlikeWhereSeen (ws ws' : List Word) : Prop :=
  ∀ (before before' behind behind' : List Word) (element element' : ScopeEntry)
    (outer : List ScopeEntry), ws = before ++ element.startTag :: behind →
    ws' = before' ++ element'.startTag :: behind' → before'.length = before.length →
    Opens before outer → ∀ name,
      element'.attributes.get? name ≠ element.attributes.get? name → HiddenBehind name behind

/-- Two bindings agree on the first parts of all names in values that are in force at a text. -/
def AgreeWhereSeen (bindings bindings' : NameMap Value) (ws : List Word) : Prop :=
  ∀ (before after : List Word) (content : String) (loc : Option String)
    (path : List ScopeEntry), ws = before ++ .text content loc :: after → Opens before path →
    ∀ a ∈ attributesInForce path, ∀ name ∈ a.written.names,
      bindings'.get? (headName name) = bindings.get? (headName name)

/-! ## Elements around a place -/

/-- Each open element was opened by its start tag, in front of which the elements around it are
open, and behind which those inside it. -/
theorem Opens.split {ws : List Word} {outer inner : List ScopeEntry} {element : ScopeEntry}
    (h : Opens ws (outer ++ element :: inner)) :
    ∃ before between, ws = before ++ element.startTag :: between ∧ Opens before outer ∧
      Opens between inner := by
  generalize hpath : outer ++ element :: inner = path at h
  induction h generalizing inner with
  | closed forest => simp at hpath
  | @inside ws path last forest hws ih =>
    rcases List.eq_nil_or_concat inner with rfl | ⟨inner, top, rfl⟩
    · obtain ⟨rfl, hlast⟩ := List.append_inj' hpath rfl
      obtain rfl : element = last := by simpa using hlast
      exact ⟨ws, forest.words, rfl, hws, .closed forest⟩
    · rw [List.concat_eq_append, ← List.cons_append, ← List.append_assoc] at hpath
      obtain ⟨houter, hlast⟩ := List.append_inj' hpath rfl
      obtain rfl : top = last := by simpa using hlast
      obtain ⟨before, between, rfl, hbefore, hbetween⟩ := ih houter
      refine ⟨before, between ++ top.startTag :: forest.words, by simp, hbefore, ?_⟩
      rw [List.concat_eq_append]
      exact .inside top forest hbetween

/-- Elements that are opened one inside the other make up one path. -/
theorem Opens.append {before between : List Word} {outer inner : List ScopeEntry}
    (h : Opens before outer) (element : ScopeEntry) (h' : Opens between inner) :
    Opens (before ++ element.startTag :: between) (outer ++ element :: inner) := by
  induction h' with
  | closed forest => exact .inside element forest h
  | @inside between inner last forest _ ih =>
    have hlonger := Opens.inside last forest ih
    rwa [List.append_assoc, List.cons_append, List.append_assoc, List.cons_append] at hlonger

/-- What is related to a row with an element in the middle is such a row itself. -/
theorem forall₂_append_cons {α β : Type} {R : α → β → Prop} {as cs : List α} {b : α}
    {ds : List β} (h : List.Forall₂ R (as ++ b :: cs) ds) :
    ∃ as' b' cs', ds = as' ++ b' :: cs' ∧ List.Forall₂ R as as' ∧ R b b' ∧
      List.Forall₂ R cs cs' := by
  induction as generalizing ds with
  | nil =>
    cases h with
    | cons hb hcs => exact ⟨[], _, _, rfl, .nil, hb, hcs⟩
  | cons a as ih =>
    cases h with
    | cons ha has =>
      obtain ⟨as', b', cs', rfl, has', hb, hcs⟩ := ih has
      exact ⟨_ :: as', b', cs', rfl, .cons ha has', hb, hcs⟩

/-- Rows of words of the same shape leave elements of the same shape open. -/
theorem walk_of_sameShape {ws ws' : List Word} (hws : List.Forall₂ Word.SameShape ws ws')
    {path path' : List ScopeEntry} (hpath : List.Forall₂ ScopeEntry.SameShape path path')
    {leaves : List Leaf} {out : List ScopeEntry} (h : walk path ws = some (leaves, out)) :
    ∃ leaves' out', walk path' ws' = some (leaves', out') ∧
      List.Forall₂ ScopeEntry.SameShape out out' := by
  induction hws generalizing path path' leaves with
  | nil =>
    simp only [walk, Option.some.injEq, Prod.mk.injEq] at h
    obtain ⟨-, rfl⟩ := h
    exact ⟨[], path', rfl, hpath⟩
  | @cons w w' ws ws' hw _ ih =>
    cases hw with
    | text content loc =>
      simp only [walk, Option.map_eq_some_iff, Prod.mk.injEq] at h
      obtain ⟨⟨leaves, out⟩, hwalk, -, rfl⟩ := h
      obtain ⟨leaves', out', hwalk', hout⟩ := ih hpath hwalk
      exact ⟨_, out', by rw [walk, hwalk']; rfl, hout⟩
    | @startTag tag attributes attributes' loc hnames =>
      have helement : ScopeEntry.SameShape ⟨tag, attributes, loc⟩ ⟨tag, attributes', loc⟩ :=
        ⟨rfl, rfl, hnames⟩
      exact ih (List.rel_append hpath (.cons helement .nil)) h
    | endTag tag loc =>
      rcases List.eq_nil_or_concat path with rfl | ⟨outer, top, rfl⟩
      · simp [walk] at h
      · rw [List.concat_eq_append] at hpath h
        obtain ⟨outer', top', rest, rfl, houter, htop, hrest⟩ := forall₂_append_cons hpath
        cases hrest
        by_cases htag : top.tag = tag
        · simp only [walk, List.getLast?_append, List.getLast?_singleton, Option.some_or, htag,
            if_true, List.dropLast_concat] at h
          simp only [walk, List.getLast?_append, List.getLast?_singleton, Option.some_or,
            htop.tag_eq, htag, if_true, List.dropLast_concat]
          exact ih houter h
        · simp [walk, htag] at h

/-- Words of the same shape open elements of the same shape. -/
theorem Opens.of_sameShape {ws ws' : List Word} {path : List ScopeEntry} (h : Opens ws path)
    (hws : List.Forall₂ Word.SameShape ws ws') :
    ∃ path', Opens ws' path' ∧ List.Forall₂ ScopeEntry.SameShape path path' := by
  obtain ⟨leaves, hwalk⟩ := h.walk_eq
  obtain ⟨leaves', path', hwalk', hpath⟩ := walk_of_sameShape hws .nil hwalk
  exact ⟨path', opens_of_walk hwalk', hpath⟩

/-- Beside a row of words of the same shape, the start tags of an open element stand at the same
place, and the elements further inside have the same shape. -/
theorem Opens.split_of_sameShape {before before' : List Word} {outer inner : List ScopeEntry}
    {element : ScopeEntry} {path' : List ScopeEntry} (h : Opens before (outer ++ element :: inner))
    (hbefore : List.Forall₂ Word.SameShape before before') (h' : Opens before' path') :
    ∃ front between front' between' outer' element' inner',
      before = front ++ element.startTag :: between ∧ Opens front outer ∧ Opens between inner ∧
      before' = front' ++ element'.startTag :: between' ∧ front'.length = front.length ∧
      path' = outer' ++ element' :: inner' ∧ element.SameShape element' ∧
      List.Forall₂ ScopeEntry.SameShape inner inner' := by
  obtain ⟨front, between, rfl, hfront, hbetween⟩ := h.split
  obtain ⟨front', w', between', rfl, hfronts, hw, hbetweens⟩ := forall₂_append_cons hbefore
  obtain ⟨outer', hfront', -⟩ := hfront.of_sameShape hfronts
  obtain ⟨inner', hbetween', hinner⟩ := hbetween.of_sameShape hbetweens
  have hlength : front'.length = front.length := hfronts.length_eq.symm
  cases hw with
  | @startTag _ _ attributes' _ hnames =>
    have hopens := hfront'.append ⟨element.tag, attributes', element.loc⟩ hbetween'
    exact ⟨front, between, front', between', outer', ⟨element.tag, attributes', element.loc⟩,
      inner', rfl, hfront, hbetween, rfl, hlength, h'.unique hopens, ⟨rfl, rfl, hnames⟩, hinner⟩

/-! ## Definitions that are seen -/

/-- What evaluating an attribute depends on: its name, its value, and the place of the element. -/
def AttributeInForce.seen (a : AttributeInForce) : String × Option String × Value :=
  (a.name, a.definer.loc, a.written)

/-- The innermost definition of a name has no other one inside it. -/
theorem innermostDefinition?_of_split {outer inner : List ScopeEntry} {definer : ScopeEntry}
    {name : String} {value : Value} (hvalue : definer.attributes.get? name = some value)
    (hinner : ∀ element ∈ inner, element.attributes.get? name = none) :
    innermostDefinition? (outer ++ definer :: inner) name = some (definer, value) := by
  have hnone : inner.reverse.findSome?
      (fun element => (element.attributes.get? name).map (element, ·)) = none := by
    rw [List.findSome?_eq_none_iff]
    intro element helement
    rw [hinner element (List.mem_reverse.mp helement)]
    rfl
  simp [innermostDefinition?, List.findSome?_append, hnone, hvalue]

/-- A name has no definition exactly if no element of the path defines it. -/
theorem innermostDefinition?_eq_none_iff (path : List ScopeEntry) (name : String) :
    innermostDefinition? path name = none ↔
      ∀ element ∈ path, element.attributes.get? name = none := by
  simp [innermostDefinition?]

/-- Elements of the same shape lack the same attributes. -/
theorem ScopeEntry.SameShape.get?_eq_none {element element' : ScopeEntry}
    (h : element.SameShape element') {name : String}
    (hnone : element.attributes.get? name = none) : element'.attributes.get? name = none := by
  rw [NameMap.get?_eq_none_iff] at hnone ⊢
  rwa [h.names_eq]

/-- Elements of the same shape are shown alike. -/
theorem ScopeEntry.SameShape.print_eq {element element' : ScopeEntry}
    (h : element.SameShape element') : element'.print = element.print := by
  rw [print, print, h.tag_eq, h.loc_eq]

/-- On paths of the same shape the same attributes are lacking. -/
theorem get?_eq_none_of_sameShape {path path' : List ScopeEntry}
    (h : List.Forall₂ ScopeEntry.SameShape path path') {name : String}
    (hnone : ∀ element ∈ path, element.attributes.get? name = none) :
    ∀ element' ∈ path', element'.attributes.get? name = none := by
  induction h with
  | nil => simp
  | @cons element element' path path' helement _ ih =>
    rw [List.forall_mem_cons] at hnone ⊢
    exact ⟨helement.get?_eq_none hnone.1, ih hnone.2⟩

/-- Around a text, elements of the same shape define a name at the same place with the same
value. -/
theorem innermostDefinition?_of_alike {ws ws' before before' after after' : List Word}
    {content : String} {loc : Option String} {path path' : List ScopeEntry}
    (halike : AlikeWhereSeen ws ws') (hws : ws = before ++ .text content loc :: after)
    (hws' : ws' = before' ++ .text content loc :: after')
    (hbefore : List.Forall₂ Word.SameShape before before') (hopens : Opens before path)
    (hopens' : Opens before' path') (hpath : List.Forall₂ ScopeEntry.SameShape path path')
    (name : String) :
    (innermostDefinition? path' name).map (fun d => (d.1.loc, d.2)) =
      (innermostDefinition? path name).map (fun d => (d.1.loc, d.2)) := by
  cases hdefinition : innermostDefinition? path name with
  | none =>
    rw [innermostDefinition?_eq_none_iff] at hdefinition
    rw [(innermostDefinition?_eq_none_iff path' name).mpr
      (get?_eq_none_of_sameShape hpath hdefinition)]
  | some d =>
    obtain ⟨definer, value⟩ := d
    obtain ⟨outer, inner, rfl, hvalue, hinner⟩ := split_of_innermostDefinition? hdefinition
    obtain ⟨front, between, front', between', outer', definer', inner', rfl, hfront, hbetween, rfl,
      hlength, rfl, hdefiner, hinner'⟩ := hopens.split_of_sameShape hbefore hopens'
    have hsame : definer'.attributes.get? name = definer.attributes.get? name := by
      apply Classical.byContradiction
      intro hother
      -- a value that differs is hidden from this text, but none of the inner elements hides it
      have hhidden := halike front front' _ _ definer definer' outer
        (by rw [hws, List.append_assoc, List.cons_append])
        (by rw [hws', List.append_assoc, List.cons_append]) hlength hfront name hother
      obtain ⟨element, helement, hmem⟩ := hhidden between after content loc inner rfl hbetween
      have hnone := hinner element helement
      rw [NameMap.get?_eq_none_iff] at hnone
      exact hnone hmem
    rw [innermostDefinition?_of_split (hsame.trans hvalue)
      (get?_eq_none_of_sameShape hinner' hinner)]
    simp [hdefiner.loc_eq]

/-- Paths of the same shape define the same names. -/
theorem definedNames_of_sameShape {path path' : List ScopeEntry}
    (h : List.Forall₂ ScopeEntry.SameShape path path') :
    definedNames path' = definedNames path := by
  have hnames : path'.flatMap (fun element => element.attributes.names) =
      path.flatMap (fun element => element.attributes.names) := by
    induction h with
    | nil => rfl
    | cons helement _ ih => rw [List.flatMap_cons, List.flatMap_cons, helement.names_eq, ih]
  rw [definedNames, definedNames, hnames]

/-- What is seen of the attributes in force are the innermost definitions of all defined names. -/
theorem map_seen_attributesInForce (path : List ScopeEntry) :
    (attributesInForce path).map AttributeInForce.seen =
      (definedNames path).filterMap fun name =>
        ((innermostDefinition? path name).map fun d => (d.1.loc, d.2)).map (name, ·) := by
  rw [attributesInForce, List.map_filterMap]
  congr 1
  funext name
  cases innermostDefinition? path name <;> rfl

/-- Paths of the same shape are shown alike. -/
theorem map_print_of_sameShape {path path' : List ScopeEntry}
    (h : List.Forall₂ ScopeEntry.SameShape path path') :
    path'.map ScopeEntry.print = path.map ScopeEntry.print ∧
      path'.map ScopeEntry.tag = path.map ScopeEntry.tag := by
  induction h with
  | nil => exact ⟨rfl, rfl⟩
  | @cons element element' path path' helement _ ih =>
    simp only [List.map_cons, helement.print_eq, helement.tag_eq, ih, and_self]

/-! ## Steps with the same effect -/

section

variable {σ : Type} (host : Host σ) (bindings bindings' : NameMap Value)

/-- Two steps, each among its own bindings, do the same to every machine. -/
def Step.SameEffect (s s' : Step) : Prop :=
  ∀ m : Machine σ, m.step host bindings' s' = m.step host bindings s

variable {host bindings bindings'}

/-- Steps with the same effect one by one execute alike. -/
theorem execute_of_sameEffect {steps steps' : List Step}
    (h : List.Forall₂ (Step.SameEffect host bindings bindings') steps steps') (m : Machine σ) :
    execute host bindings' steps' m = execute host bindings steps m := by
  induction h generalizing m with
  | nil => rfl
  | @cons s s' steps steps' hs _ ih =>
    rw [execute, execute, hs m]
    rcases m.step host bindings s with ⟨result, m'⟩
    cases result with
    | error e => rfl
    | ok _ => exact ih m'

mutual

/-- A name that is looked up for an expression is one of its names. -/
theorem Expr.mem_names_of_lookup {name : String} : (e : Expr) → .lookup name ∈ e.operations →
    name ∈ e.names
  | .text _, h => by simp [operations] at h
  | .number _, h => by simp [operations] at h
  | .ref _, h => by simpa [operations, names] using h
  | .call other args, h => by
    simp only [operations, List.mem_cons, List.mem_append, Operation.lookup.injEq, reduceCtorEq,
      List.not_mem_nil, or_false, false_or] at h
    rw [names, List.mem_cons]
    exact h.imp_right (mem_namesAll_of_lookup args)

/-- A name that is looked up for expressions is one of their names. -/
theorem Expr.mem_namesAll_of_lookup {name : String} : (es : List Expr) →
    .lookup name ∈ operationsAll es → name ∈ namesAll es
  | [], h => by simp [operationsAll] at h
  | e :: rest, h => by
    rw [operationsAll, List.mem_append] at h
    rw [namesAll, List.mem_append]
    exact h.imp (mem_names_of_lookup e) (mem_namesAll_of_lookup rest)

end

/-- Only what finds names looks at the bindings, and there only at first parts. -/
theorem Machine.operate_of_agree {op : Operation}
    (h : ∀ name, op = .lookup name →
      bindings'.get? (headName name) = bindings.get? (headName name))
    (loc : Option String) (m : Machine σ) :
    m.operate host bindings' loc op = m.operate host bindings loc op := by
  cases op with
  | lookup name => simp only [operate, resolveName, h name rfl]
  | constant v => rfl
  | check name => rfl
  | call name count => rfl

/-- A name that is looked up for a value is one of its names. -/
theorem Value.mem_names_of_lookup {name : String} {v : Value} (h : .lookup name ∈ v.operations) :
    name ∈ v.names := by
  cases v with
  | expr e => exact Expr.mem_names_of_lookup e h
  | _ => simp [operations] at h

/-- The steps of an attribute depend on what is seen of it. -/
theorem sameEffect_attribute {a a' : AttributeInForce} (hseen : a'.seen = a.seen)
    (hagree : ∀ name ∈ a.written.names,
      bindings'.get? (headName name) = bindings.get? (headName name))
    (spanLoc : Option String) :
    List.Forall₂ (Step.SameEffect host bindings bindings') (a.steps spanLoc)
      (a'.steps spanLoc) := by
  simp only [AttributeInForce.seen, Prod.mk.injEq] at hseen
  obtain ⟨hname, hloc, hwritten⟩ := hseen
  rw [AttributeInForce.steps, AttributeInForce.steps, hwritten]
  refine List.rel_append ?_ (.cons ?_ .nil)
  · rw [List.forall₂_map_left_iff, List.forall₂_map_right_iff, List.forall₂_same]
    intro op hop m
    have hnames : ∀ name, op = .lookup name →
        bindings'.get? (headName name) = bindings.get? (headName name) := by
      rintro name rfl
      exact hagree name (Value.mem_names_of_lookup hop)
    rw [Machine.step, Machine.step, hloc]
    exact Machine.operate_of_agree hnames a.definer.loc m
  · intro m
    rw [Machine.step, Machine.step, hloc, hname]

/-- Attributes that look the same have steps of the same effect. -/
theorem sameEffect_attributes {row row' : List AttributeInForce}
    (hseen : row'.map AttributeInForce.seen = row.map AttributeInForce.seen)
    (hagree : ∀ a ∈ row, ∀ name ∈ a.written.names,
      bindings'.get? (headName name) = bindings.get? (headName name))
    (spanLoc : Option String) :
    List.Forall₂ (Step.SameEffect host bindings bindings')
      (row.flatMap (AttributeInForce.steps spanLoc))
      (row'.flatMap (AttributeInForce.steps spanLoc)) := by
  induction row generalizing row' with
  | nil =>
    rw [List.map_nil, List.map_eq_nil_iff] at hseen
    subst hseen
    exact .nil
  | cons a row ih =>
    rw [List.map_cons, List.map_eq_cons_iff] at hseen
    obtain ⟨a', rest', rfl, ha, hrest⟩ := hseen
    rw [List.forall_mem_cons] at hagree
    exact List.rel_append (sameEffect_attribute ha hagree.1 spanLoc) (ih hrest hagree.2)

/-- Leaves on paths that look the same have steps of the same effect. -/
theorem sameEffect_leaf (content : String) (loc : Option String) {path path' : List ScopeEntry}
    (hpath : List.Forall₂ ScopeEntry.SameShape path path')
    (hseen : (attributesInForce path').map AttributeInForce.seen =
      (attributesInForce path).map AttributeInForce.seen)
    (hagree : ∀ a ∈ attributesInForce path, ∀ name ∈ a.written.names,
      bindings'.get? (headName name) = bindings.get? (headName name)) :
    List.Forall₂ (Step.SameEffect host bindings bindings') (Leaf.steps ⟨content, loc, path⟩)
      (Leaf.steps ⟨content, loc, path'⟩) := by
  refine List.rel_append (sameEffect_attributes hseen hagree loc) (.cons ?_ .nil)
  intro m
  simp only [Machine.step, Leaf.tags, (map_print_of_sameShape hpath).2]

/-- A failure has the same effect whatever is bound. -/
theorem sameEffect_fail (e : CompileError) :
    Step.SameEffect host bindings bindings' (.fail e) (.fail e) :=
  fun _ => rfl

/-! ## Plans of words of the same shape -/

/-- From wherever two rows of words of the same shape have come to, they ask for steps with the
same effect. -/
theorem sameEffect_reached {ws ws' : List Word} (halike : AlikeWhereSeen ws ws')
    (hagree : AgreeWhereSeen bindings bindings' ws) {rest rest' : List Word}
    (hrest : List.Forall₂ Word.SameShape rest rest') {before before' : List Word}
    (hws : ws = before ++ rest) (hws' : ws' = before' ++ rest')
    (hbefore : List.Forall₂ Word.SameShape before before') {path path' : List ScopeEntry}
    (hopens : Opens before path) (hopens' : Opens before' path')
    (hpath : List.Forall₂ ScopeEntry.SameShape path path') :
    List.Forall₂ (Step.SameEffect host bindings bindings')
      (stepsOf (reached path rest).1 (reached path rest).2)
      (stepsOf (reached path' rest').1 (reached path' rest').2) := by
  induction hrest generalizing before before' path path' with
  | nil =>
    rcases List.eq_nil_or_concat path with rfl | ⟨outer, top, rfl⟩
    · cases hpath
      exact .nil
    · rw [List.concat_eq_append] at hpath ⊢
      obtain ⟨outer', top', last, rfl, houter, htop, hlast⟩ := forall₂_append_cons hpath
      cases hlast
      have hprint := (map_print_of_sameShape hpath).1
      simp only [reached, List.getLast?_append, List.getLast?_singleton, Option.some_or,
        Option.map_some, ScopeStack.unclosedError, ScopeStack.printOpenTags, hprint, htop.loc_eq]
      exact .cons (sameEffect_fail _) .nil
  | @cons w w' rest rest' hw hrest ih =>
    have hws₁ : ws = (before ++ [w]) ++ rest := by simpa using hws
    have hws₁' : ws' = (before' ++ [w']) ++ rest' := by simpa using hws'
    have hbefore₁ : List.Forall₂ Word.SameShape (before ++ [w]) (before' ++ [w']) :=
      List.rel_append hbefore (.cons hw .nil)
    cases hw with
    | text content loc =>
      rw [reached, reached, stepsOf_cons, stepsOf_cons]
      refine List.rel_append (sameEffect_leaf content loc hpath ?_ ?_) ?_
      · rw [map_seen_attributesInForce, map_seen_attributesInForce, definedNames_of_sameShape hpath]
        congr 1
        funext name
        rw [innermostDefinition?_of_alike halike hws hws' hbefore hopens hopens' hpath name]
      · exact hagree before rest content loc path hws hopens
      · exact ih hws₁ hws₁' hbefore₁ (hopens.text content loc) (hopens'.text content loc) hpath
    | @startTag tag attributes attributes' loc hnames =>
      have helement : ScopeEntry.SameShape ⟨tag, attributes, loc⟩ ⟨tag, attributes', loc⟩ :=
        ⟨rfl, rfl, hnames⟩
      exact ih hws₁ hws₁' hbefore₁ (hopens.startTag ⟨tag, attributes, loc⟩)
        (hopens'.startTag ⟨tag, attributes', loc⟩) (List.rel_append hpath (.cons helement .nil))
    | endTag tag loc =>
      rcases List.eq_nil_or_concat path with rfl | ⟨outer, top, rfl⟩
      · cases hpath
        exact .cons (sameEffect_fail _) .nil
      · rw [List.concat_eq_append] at hpath hopens ⊢
        obtain ⟨outer', top', last, rfl, houter, htop, hlast⟩ := forall₂_append_cons hpath
        cases hlast
        by_cases htag : top.tag = tag
        · have htag' : top'.tag = tag := htop.tag_eq.trans htag
          simp only [reached, List.getLast?_append, List.getLast?_singleton, Option.some_or, htag,
            htag', if_true, List.dropLast_concat]
          subst htag
          refine ih hws₁ hws₁' hbefore₁ (hopens.endTag loc) ?_ houter
          rw [← htag']
          exact hopens'.endTag loc
        · have htag' : ¬ top'.tag = tag := htop.tag_eq ▸ htag
          have hprint := (map_print_of_sameShape hpath).1
          simp only [reached, List.getLast?_append, List.getLast?_singleton, Option.some_or,
            if_neg htag, if_neg htag', ScopeStack.mismatchedError, ScopeStack.printOpenTags,
            hprint, htop.print_eq]
          exact .cons (sameEffect_fail _) .nil

end

/-! ## Texts that are reached -/

/-- Behind words that are walked through, the leaves of the others are reached. -/
theorem reached_append_of_walk {path out : List ScopeEntry} {ws : List Word} {leaves : List Leaf}
    (h : walk path ws = some (leaves, out)) (more : List Word) :
    (reached path (ws ++ more)).1 = leaves ++ (reached out more).1 := by
  induction ws generalizing path leaves with
  | nil =>
    cases h
    rfl
  | cons w ws ih =>
    cases w with
    | text content loc =>
      simp only [walk, Option.map_eq_some_iff, Prod.mk.injEq] at h
      obtain ⟨⟨leaves, out⟩, hwalk, rfl, rfl⟩ := h
      simp only [List.cons_append, reached, ih hwalk]
    | startTag tag attributes loc => exact ih h
    | endTag tag loc =>
      rw [walk] at h
      rw [List.cons_append, reached]
      cases hlast : path.getLast? with
      | none =>
        rw [hlast] at h
        cases h
      | some top =>
        simp only [hlast] at h ⊢
        by_cases htag : top.tag = tag
        · rw [if_pos htag] at h ⊢
          exact ih h
        · rw [if_neg htag] at h
          cases h

/-- A text with elements open around it is reached. -/
theorem mem_reached_of_opens {before : List Word} {path : List ScopeEntry} (h : Opens before path)
    (content : String) (loc : Option String) (after : List Word) :
    ⟨content, loc, path⟩ ∈ (reached [] (before ++ .text content loc :: after)).1 := by
  obtain ⟨leaves, hwalk⟩ := h.walk_eq
  rw [reached_append_of_walk hwalk, reached]
  simp

/-- A name that every leaf on the way redefines is hidden. -/
theorem hiddenBehind_of_reached {name : String} {behind : List Word}
    (h : ∀ leaf ∈ (reached [] behind).1, ∃ element ∈ leaf.path, name ∈ element.attributes.names) :
    HiddenBehind name behind := by
  rintro between after content loc inner rfl hbetween
  exact h _ (mem_reached_of_opens hbetween content loc after)

/-- Bindings that agree at every leaf on the way agree where they are seen. -/
theorem agreeWhereSeen_of_reached {bindings bindings' : NameMap Value} {ws : List Word}
    (h : ∀ leaf ∈ (reached [] ws).1, ∀ a ∈ attributesInForce leaf.path, ∀ name ∈ a.written.names,
      bindings'.get? (headName name) = bindings.get? (headName name)) :
    AgreeWhereSeen bindings bindings' ws := by
  rintro before after content loc path rfl hopens
  exact h _ (mem_reached_of_opens hopens content loc after)

/-- An element can be told from its start tag. -/
theorem ScopeEntry.eq_of_startTag_eq {element element' : ScopeEntry}
    (h : element.startTag = element'.startTag) : element = element' := by
  cases element
  cases element'
  cases h
  rfl

/-- Another element with the same words behind it is alike if what differs is hidden there. -/
theorem alikeWhereSeen_cons {element element' : ScopeEntry} {behind : List Word}
    (h : ∀ name, element'.attributes.get? name ≠ element.attributes.get? name →
      HiddenBehind name behind) :
    AlikeWhereSeen (element.startTag :: behind) (element'.startTag :: behind) := by
  rintro before before' after after' opened opened' outer hws hws' hlength - name hother
  cases before with
  | nil =>
    obtain rfl := List.length_eq_zero_iff.mp hlength
    obtain ⟨helement, rfl⟩ := List.cons.inj hws
    obtain ⟨helement', -⟩ := List.cons.inj hws'
    rw [ScopeEntry.eq_of_startTag_eq helement, ScopeEntry.eq_of_startTag_eq helement'] at h
    exact h name hother
  | cons w before =>
    cases before' with
    | nil => cases hlength
    | cons w' before' =>
      -- further inside there is one row of words only
      have hboth : before' ++ opened'.startTag :: after' = before ++ opened.startTag :: after :=
        (List.cons.inj hws').2.symm.trans (List.cons.inj hws).2
      obtain ⟨-, hsame⟩ := List.append_inj hboth (Nat.succ.inj hlength)
      obtain ⟨hopened, -⟩ := List.cons.inj hsame
      exact absurd (by rw [ScopeEntry.eq_of_startTag_eq hopened]) hother

/-! ## The main result -/

/-- Compilations agree where the executions of their plans are equal. -/
theorem Agrees.eq_of_execute_eq {σ : Type} {r r' : Except Failure Spans × Compiler × Store σ}
    {x x' : Except Failure Unit × Machine σ} (h : Agrees r x) (h' : Agrees r' x') (hx : x' = x) :
    r'.1 = r.1 ∧ r'.2.1.spans = r.2.1.spans ∧ r'.2.1.owned = r.2.1.owned ∧ r'.2.2 = r.2.2 := by
  subst hx
  have hmachine : r'.2.1.machine r'.2.2 = r.2.1.machine r.2.2 := h'.2.symm.trans h.2
  simp only [Compiler.machine, Machine.mk.injEq, true_and] at hmachine
  exact ⟨h'.1.trans h.1.symm, hmachine.2.2, hmachine.2.1, hmachine.1⟩

/-- Compilations that differ only in values that no text sees, and in bindings that no seen value
asks for, come to the same: spans with the same bags or the same failure, the same claims and
calls, and the same state, whatever the bound functions do. -/
theorem compileWords_eq_of_seen_eq {σ : Type} (host : Host σ) {bindings bindings' : NameMap Value}
    {ws ws' : List Word} (hshape : List.Forall₂ Word.SameShape ws ws')
    (halike : AlikeWhereSeen ws ws') (hagree : AgreeWhereSeen bindings bindings' ws)
    (store : Store σ) :
    let r := compileWords host bindings ws store
    let r' := compileWords host bindings' ws' store
    let recorded := compileWords host.recording bindings ws (store.recorded [])
    let recorded' := compileWords host.recording bindings' ws' (store.recorded [])
    (r'.1 = r.1 ∧ r'.2.1.spans = r.2.1.spans ∧ r'.2.1.owned = r.2.1.owned ∧ r'.2.2 = r.2.2) ∧
      recorded'.1 = recorded.1 ∧ recorded'.2.2 = recorded.2.2 := by
  intro r r' recorded recorded'
  have hempty : Opens [] [] := .closed .empty
  have hplan : List.Forall₂ (Step.SameEffect host bindings bindings') (plan ws) (plan ws') :=
    sameEffect_reached halike hagree hshape rfl rfl .nil hempty hempty .nil
  have hplan' : List.Forall₂ (Step.SameEffect host.recording bindings bindings') (plan ws)
      (plan ws') :=
    sameEffect_reached halike hagree hshape rfl rfl .nil hempty hempty .nil
  have hsame := (execute_plan host bindings ws store).eq_of_execute_eq
    (execute_plan host bindings' ws' store) (execute_of_sameEffect hplan { store })
  have hrecorded := (execute_plan host.recording bindings ws (store.recorded [])).eq_of_execute_eq
    (execute_plan host.recording bindings' ws' (store.recorded []))
    (execute_of_sameEffect hplan' { store := store.recorded [] })
  exact ⟨hsame, hrecorded.1, hrecorded.2.2.2⟩

/-- An element that gives `x` and `y` values, and a place. -/
def hiddenElement (x y : Value) : ScopeEntry := ⟨"a", .ofList [("x", x), ("y", y)], some "1:1"⟩

/-- An element that gives `y` and `x` a handle and a name. -/
def hidingElement : ScopeEntry :=
  ⟨"b", .ofList [("y", .handle (.given 0) []), ("x", .expr (.ref "v"))], some "1:9"⟩

/-- A text in the second element, in the first one. -/
def hidingWords : List Word :=
  [hidingElement.startTag, .text "t" none, .endTag "b" none, .endTag "a" none]

/-- The hidden element defines no other names. -/
theorem get?_hiddenElement {x y : Value} {name : String} (hx : name ≠ "x") (hy : name ≠ "y") :
    (hiddenElement x y).attributes.get? name = none := by
  rw [hiddenElement, NameMap.get?_ofList]
  simp [NameMap.lookup_cons_entry, hx, hy]

/-- A host whose functions all fail. -/
def refusingHost : Host Unit where
  call _ _ _ _ := (.error .wrongType, ())

/-- A name that stands for nothing and a handle that the inner element claims give what a failing
call and a text give: the span of the text. -/
theorem compileWords_hidingWords :
    let bindings : NameMap Value := .ofList [("v", .text "1")]
    let bindings' : NameMap Value :=
      .ofList [("fail", .function (.given 1) "fail"), ("v", .text "1")]
    let element := hiddenElement (.expr (.ref "missing")) (.handle (.given 0) [])
    let element' := hiddenElement (.expr (.call "fail" [])) (.text "2")
    let r := compileWords refusingHost bindings (element.startTag :: hidingWords) ⟨(), [], 0⟩
    let r' := compileWords refusingHost bindings' (element'.startTag :: hidingWords) ⟨(), [], 0⟩
    r'.1 = r.1 ∧ r.1 = .ok [⟨"t", ["a", "b"],
      ⟨.ofList [("x", .text "1"), ("y", .handle (.given 0) [])]⟩, none⟩] := by
  intro bindings bindings' element element' r r'
  have hshape : List.Forall₂ Word.SameShape (element.startTag :: hidingWords)
      (element'.startTag :: hidingWords) :=
    .cons (.startTag _ _ rfl) (.cons (.startTag _ _ rfl)
      (.cons (.text _ _) (.cons (.endTag _ _) (.cons (.endTag _ _) .nil))))
  have halike : AlikeWhereSeen (element.startTag :: hidingWords)
      (element'.startTag :: hidingWords) := by
    apply alikeWhereSeen_cons
    intro name hother
    have hname : name = "x" ∨ name = "y" := by
      apply Classical.byContradiction
      intro hneither
      rw [not_or] at hneither
      exact hother ((get?_hiddenElement hneither.1 hneither.2).trans
        (get?_hiddenElement hneither.1 hneither.2).symm)
    apply hiddenBehind_of_reached
    intro leaf hleaf
    obtain rfl := List.mem_singleton.mp hleaf
    refine ⟨_, List.mem_singleton.mpr rfl, ?_⟩
    rcases hname with rfl | rfl <;> decide
  have hagree : AgreeWhereSeen bindings bindings' (element.startTag :: hidingWords) := by
    apply agreeWhereSeen_of_reached
    intro leaf hleaf
    obtain rfl := List.mem_singleton.mp hleaf
    -- the values in force are those of the inner element, of which one is a name
    have hforce : attributesInForce [element, hidingElement] =
        [⟨"x", hidingElement, .expr (.ref "v")⟩, ⟨"y", hidingElement, .handle (.given 0) []⟩] :=
      rfl
    have hnames : ∀ a ∈ attributesInForce [element, hidingElement], ∀ name ∈ a.written.names,
        name = "v" := by
      simp [hforce, Value.names, Expr.names]
    intro a ha name hname
    rw [hnames a ha name hname]
    rfl
  exact ⟨(compileWords_eq_of_seen_eq refusingHost hshape halike hagree _).1.1, rfl⟩

end MarkupSpans
