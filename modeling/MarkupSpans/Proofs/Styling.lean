import MarkupSpans.Style
import MarkupSpans.Proofs.Faults
import MarkupSpans.Proofs.Flattening
import MarkupSpans.Proofs.Number.Overflow
import MarkupSpans.Proofs.Streaming

/-!
# Styles of spans of markup

What a span of markup without bindings is to look like, told by the literals that the elements
around it write.  A name or a call stands for nothing there, so every attribute of a span is the
literal of the innermost element that writes it (`get?_of_evaluatesRow`).  A size may be an integer
of any length, and one that is too large for a floating-point number has no style; there is no
other failure (`resolveStyle_of_markup`).
-/

set_option autoImplicit false

namespace MarkupSpans

variable {σ : Type} {host : Host σ}

/-! ## Literals in force -/

/-- What a literal stands for. -/
def Expr.literal? : Expr → Option Value
  | .text content => some (.text content)
  | .number n => some (.number n)
  | _ => none

/-- What a literal that is written for an attribute stands for. -/
def Value.literal? : Value → Option Value
  | .expr e => e.literal?
  | _ => none

/-- What the innermost element that writes an attribute gives it, if that is a literal. -/
def literalInForce? (path : List ScopeEntry) (name : String) : Option Value :=
  (innermostDefinition? path name).bind fun definition => definition.2.literal?

/-- Without bindings only literals have a value. -/
theorem literal?_of_evaluate {loc : Option String} {e : Expr} {store store' : Store σ} {v : Value}
    (h : e.evaluate host ∅ loc store = (.ok v, store')) : e.literal? = some v := by
  have hunbound : ∀ name, ∃ error,
      resolveName ∅ store.fired loc name = .error error := fun name => ⟨_, rfl⟩
  cases e with
  | text content =>
    cases h
    rfl
  | number n =>
    cases h
    rfl
  | ref name =>
    obtain ⟨error, herror⟩ := hunbound name
    rw [Expr.evaluate, herror] at h
    cases h
  | call name args =>
    obtain ⟨error, herror⟩ := hunbound name
    rw [Expr.evaluate, resolveCallee, herror] at h
    cases h

/-- A row that is evaluated without bindings holds the literals that are written. -/
theorem lookup_of_evaluatesRow {row : List AttributeInForce} {values : List (String × Value)}
    {store store' : Store σ} (hrow : EvaluatesRow host ∅ row store values store')
    (hexpr : ∀ a ∈ row, ∃ e, a.written = .expr e) (name : String) :
    values.lookup name =
      ((row.map fun a => (a.name, a.written)).lookup name).bind Value.literal? := by
  induction hrow with
  | nil => rfl
  | @cons a rest store mid store' v values hvalue _ ih =>
    obtain ⟨e, he⟩ := hexpr a (by simp)
    rw [he] at hvalue
    rw [List.map_cons, List.lookup_cons, List.lookup_cons, ih fun b hb => hexpr b (by simp [hb])]
    cases name == a.name with
    | false => rfl
    | true => simp [he, Value.literal?, literal?_of_evaluate hvalue]

/-- An attribute of a span is the literal that is in force. -/
theorem get?_of_evaluatesRow {path : List ScopeEntry} {attributes : Bag} {store store' : Store σ}
    (hrow : EvaluatesRow host ∅ (attributesInForce path) store attributes.values.entries store')
    (hexpr : ∀ element ∈ path, ∀ entry ∈ element.attributes.entries, ∃ e, entry.2 = .expr e)
    (name : String) : attributes.values.get? name = literalInForce? path name := by
  have hwritten : ∀ a ∈ attributesInForce path, ∃ e, a.written = .expr e := by
    intro a ha
    obtain ⟨hopen, hdefined⟩ := definition_of_mem ha
    exact hexpr a.definer hopen _ hdefined
  have hflat := get?_flatten path name
  rw [NameMap.get?, entries_flatten] at hflat
  rw [NameMap.get?, lookup_of_evaluatesRow hrow hwritten, hflat, literalInForce?]
  cases innermostDefinition? path name <;> rfl

/-- Where a literal is in force, it is a text or a number. -/
theorem literalInForce?_cases (path : List ScopeEntry) (name : String) :
    literalInForce? path name = none ∨
      (∃ content, literalInForce? path name = some (.text content)) ∨
      ∃ n, literalInForce? path name = some (.number n) := by
  rw [literalInForce?]
  cases innermostDefinition? path name with
  | none => exact .inl rfl
  | some definition =>
    obtain ⟨definer, written⟩ := definition
    cases written with
    | expr e =>
      cases e with
      | text content => exact .inr (.inl ⟨content, rfl⟩)
      | number n => exact .inr (.inr ⟨n, rfl⟩)
      | ref name => exact .inl rfl
      | call name args => exact .inl rfl
    | _ => exact .inl rfl

/-! ## Styles by literals -/

/-- The colour that a literal asks for. -/
def colorOfLiteral? : Option Value → Option Value
  | some (.text content) => (Style.Color.ofText? content).map Style.Color.toValue
  | _ => none

/-- The size that a literal asks for, to the nearest floating-point number. -/
def sizeOfLiteral? : Option Value → Option Value
  | some (.number (.int i)) =>
    some (.number (.float (Binary64.ofQuotient (decide (i < 0)) i.natAbs 1)))
  | some (.number (.float x)) => some (.number (.float x))
  | _ => none

/-- A size that is an integer too large for a floating-point number. -/
def HasTooLargeSize (path : List ScopeEntry) : Prop :=
  ∃ i : Int, literalInForce? path "font_size" = some (.number (.int i)) ∧
    Binary64.tooLargeFrom ≤ i.natAbs

/-- The style that the literals around a text ask for. -/
def styleInForce (path : List ScopeEntry) (defaults : Style.Defaults) : Style.SpanStyle where
  bold := (path.map ScopeEntry.tag).contains defaults.boldTag
  italic := (path.map ScopeEntry.tag).contains defaults.italicTag
  color := (colorOfLiteral? (literalInForce? path "color")).getD defaults.color
  fontSize := (sizeOfLiteral? (literalInForce? path "font_size")).getD defaults.fontSize

section Attributes

variable {span : Span} {path : List ScopeEntry}

/-- The colour of a span is that of the literal in force. -/
theorem Span.color?_eq
    (h : span.attributes.values.get? "color" = literalInForce? path "color") :
    span.color? = colorOfLiteral? (literalInForce? path "color") := by
  rw [Span.color?, Bag.get, Bag.get, h]
  rcases literalInForce?_cases path "color" with hnone | ⟨content, htext⟩ | ⟨n, hnumber⟩
  · rw [hnone]
    rfl
  · rw [htext]
    rfl
  · rw [hnumber]
    rfl

/-- There is no size exactly if it is too large for a floating-point number. -/
theorem Span.fontSize?_eq
    (h : span.attributes.values.get? "font_size" = literalInForce? path "font_size") :
    (HasTooLargeSize path → span.fontSize? = .error .tooLarge) ∧
      (¬ HasTooLargeSize path →
        span.fontSize? = .ok (sizeOfLiteral? (literalInForce? path "font_size"))) := by
  by_cases hint : ∃ i, literalInForce? path "font_size" = some (.number (.int i))
  · obtain ⟨i, hi⟩ := hint
    have hsize : span.fontSize? = (Binary64.ofInt? i).elim (.error .tooLarge)
        fun x => .ok (some (.number (.float x))) := by
      have hget : span.attributes.get "font_size" .number = .number (.int i) := by
        rw [Bag.get, h, hi]
        rfl
      rw [Span.fontSize?, hget]
      simp only [Number.toBinary64?]
      cases Binary64.ofInt? i <;> rfl
    constructor
    · rintro ⟨j, hj, hlarge⟩
      cases hi.symm.trans hj
      rw [hsize, (Binary64.ofInt?_eq_none_iff i).mpr hlarge]
      rfl
    · intro hnot
      have hsmall : i.natAbs < Binary64.tooLargeFrom := Nat.lt_of_not_le fun hlarge =>
        hnot ⟨i, hi, hlarge⟩
      rw [hsize, Binary64.ofInt?_of_lt hsmall, hi]
      rfl
  · refine ⟨fun ⟨i, hi, _⟩ => absurd ⟨i, hi⟩ hint, fun _ => ?_⟩
    rw [Span.fontSize?, Bag.get, h]
    rcases literalInForce?_cases path "font_size" with hnone | ⟨content, htext⟩ | ⟨n, hnumber⟩
    · rw [hnone]
      rfl
    · rw [htext]
      rfl
    · rw [hnumber] at hint ⊢
      cases n with
      | truth b => rfl
      | float x => rfl
      | int i => exact absurd ⟨i, rfl⟩ hint

/-- A span whose attributes are the literals in force has the style that these ask for, unless its
size is too large. -/
theorem Span.resolveStyle_eq (htags : span.tags = path.map ScopeEntry.tag)
    (hget : ∀ name, span.attributes.values.get? name = literalInForce? path name)
    (defaults : Style.Defaults) :
    (HasTooLargeSize path → span.resolveStyle defaults = .error .tooLarge) ∧
      (¬ HasTooLargeSize path → span.resolveStyle defaults = .ok (styleInForce path defaults)) := by
  obtain ⟨hlarge, hsmall⟩ := Span.fontSize?_eq (hget "font_size")
  constructor
  · intro h
    rw [Span.resolveStyle, hlarge h]
    rfl
  · intro h
    rw [Span.resolveStyle, hsmall h, Span.color?_eq (hget "color"), Span.has, Span.has, htags]
    rfl

end Attributes

/-! ## Spans of markup -/

/-- What the words of a text write for attributes are expressions. -/
theorem Source.exists_expr_of_startTag {s : Source} {element : ScopeEntry}
    (h : element.startTag ∈ s.words.words) :
    ∀ entry ∈ element.attributes.entries, ∃ e, entry.2 = .expr e := by
  obtain ⟨t, k, ht, -⟩ := s.exists_wordTree_of_mem h
  cases t with
  | text inside literal inside' => cases ht
  | endTag name inside => cases ht
  | startTag name trees inside =>
    have hattributes : element.attributes = NameMap.ofList (Grammar.writtenEntries trees) := by
      simp only [Grammar.WordTree.word, Word.withLoc, ScopeEntry.startTag,
        Word.startTag.injEq] at ht
      exact ht.2.1
    intro entry hentry
    rw [hattributes] at hentry
    obtain ⟨⟨-, a⟩, -, rfl⟩ := Grammar.exists_of_mem_attributes hentry
    exact ⟨_, rfl⟩

/-- The elements around the leaves of a forest are elements of the forest. -/
theorem Forest.startTag_mem_of_leaf {forest : Forest} {path : List ScopeEntry} {leaf : Leaf}
    (hleaf : leaf ∈ forest.leaves path) {element : ScopeEntry} (hopen : element ∈ leaf.path) :
    element ∈ path ∨ element.startTag ∈ forest.words := by
  induction forest generalizing path with
  | empty => cases hleaf
  | leaf content loc rest ih =>
    rcases List.mem_cons.mp hleaf with rfl | hrest
    · exact .inl hopen
    · exact (ih hrest).imp_right fun h => by simp [Forest.words, h]
  | node inner endLoc inside rest ihInside ihRest =>
    rcases List.mem_append.mp hleaf with hinside | hrest
    · rcases ihInside hinside with hpath | hword
      · rcases List.mem_append.mp hpath with hpath | hinner
        · exact .inl hpath
        · rw [List.mem_singleton.mp hinner]
          exact .inr (by simp [Forest.words])
      · exact .inr (by simp [Forest.words, hword])
    · exact (ihRest hrest).imp_right fun h => by simp [Forest.words, h]

/-- Each span has the text of its leaf, the tags on the way to it, and the attributes in force
there. -/
theorem SpansOf.forall₂ {bindings : NameMap Value} {leaves : List Leaf} {store store' : Store σ}
    {spans : Spans} (h : SpansOf host bindings leaves store spans store') :
    List.Forall₂ (fun leaf span => span.text = leaf.content ∧
      span.tags = leaf.path.map ScopeEntry.tag ∧ ∃ mid mid',
        EvaluatesRow host bindings (attributesInForce leaf.path) mid
          span.attributes.values.entries mid') leaves spans := by
  induction h with
  | nil => exact .nil
  | cons hrow _ ih => exact .cons ⟨rfl, rfl, _, _, hrow⟩ ih

/-- A span is that of a leaf and has the style that the literals around the leaf ask for, whatever
the defaults are; the one failure is a size too large for a floating-point number. -/
structure ShownAs (leaf : Leaf) (span : Span) : Prop where
  text_eq : span.text = leaf.content
  tags_eq : span.tags = leaf.path.map ScopeEntry.tag
  style_eq : ¬ HasTooLargeSize leaf.path → ∀ defaults : Style.Defaults,
    span.resolveStyle defaults = .ok (styleInForce leaf.path defaults)
  tooLarge : HasTooLargeSize leaf.path → ∀ defaults : Style.Defaults,
    span.resolveStyle defaults = .error .tooLarge

/-- Text that compiles without bindings has the spans of a forest, and the style of each is told
by the literals around it. -/
theorem resolveStyle_of_markup {source : Source} {store : Store σ} {reporter : Reporter}
    {spans : Spans} {session : Session σ}
    (h : compileMarkup host ∅ source store reporter = (.ok spans, session)) :
    ∃ forest : Forest, source.words.words = forest.words ∧
      List.Forall₂ ShownAs (forest.leaves []) spans := by
  have hcomplete : (source.words.deliver reporter).failure = none := by
    cases hfailure : (source.words.deliver reporter).failure with
    | none => rfl
    | some e =>
      have hfails := compileMarkup_of_failure host ∅ source store reporter hfailure
      rw [h] at hfails
      split at hfails <;> cases hfails
  have hwords := (words_of_deliverItems hcomplete).2
  obtain ⟨hspans, -, -⟩ := compileMarkup_of_complete host ∅ source store reporter hcomplete
  rw [h] at hspans
  obtain ⟨forest, hforest, hof⟩ := flattened_of_compileWords
    (Prod.ext hspans.symm rfl : compileWords host ∅ _ store = (.ok spans, _, _))
  have hread : source.words.words = forest.words := hwords.symm.trans hforest
  have hexpr : ∀ leaf ∈ forest.leaves [], ∀ element ∈ leaf.path,
      ∀ entry ∈ element.attributes.entries, ∃ e, entry.2 = .expr e := by
    intro leaf hleaf element hopen
    rcases Forest.startTag_mem_of_leaf hleaf hopen with hnone | hword
    · cases hnone
    · exact Source.exists_expr_of_startTag (hread ▸ hword)
  refine ⟨forest, hread, ((List.forall₂_and_left _ _).mpr ⟨hexpr, hof.forall₂⟩).imp ?_⟩
  rintro leaf span ⟨hwritten, htext, htags, mid, mid', hrow⟩
  have hstyle := Span.resolveStyle_eq htags (get?_of_evaluatesRow hrow hwritten)
  exact ⟨htext, htags, fun h defaults => (hstyle defaults).2 h, fun h defaults =>
    (hstyle defaults).1 h⟩

/-- Bold blue text with a size. -/
def styledSource : Source where
  chars := "<b color='#00f' font_size=30>\x7b\"t\"\x7d</b>".toList

/-- The style of the example: its colour and its font size come from the tags around the text. -/
theorem resolveStyle_styledSource :
    ∃ spans session,
      compileMarkup countingHost ∅ styledSource ⟨0, [], 0⟩ { settings := {} } =
        (.ok spans, session) ∧ spans.map Span.text = ["t"] ∧
      ∃ forest : Forest, styledSource.words.words = forest.words ∧
        List.Forall₂ ShownAs (forest.leaves []) spans := by
  have hcompiles : (compileMarkup countingHost ∅ styledSource ⟨0, [], 0⟩
      { settings := {} }).1.toOption.map (·.map Span.text) = some ["t"] := by decide +kernel
  rcases hresult : compileMarkup countingHost ∅ styledSource ⟨0, [], 0⟩ { settings := {} } with
    ⟨result, session⟩
  rw [hresult] at hcompiles
  cases result with
  | error e => cases hcompiles
  | ok spans =>
    exact ⟨spans, session, rfl, Option.some.inj hcompiles, resolveStyle_of_markup hresult⟩

/-- Text whose size is an integer of 310 digits. -/
def tooLargeSource : Source where
  chars := "<a font_size=1".toList ++ List.replicate 309 '0' ++ ">\x7b\"t\"\x7d</a>".toList

/-- The text compiles, but its span has no style, not even one with the default size. -/
theorem tooLargeSource_has_no_style :
    ∃ span session,
      compileMarkup countingHost ∅ tooLargeSource ⟨0, [], 0⟩ { settings := {} } =
        (.ok [span], session) ∧
      ∀ defaults : Style.Defaults, span.resolveStyle defaults = .error .tooLarge := by
  have hsizes : (compileMarkup countingHost ∅ tooLargeSource ⟨0, [], 0⟩
      { settings := {} }).1.toOption.map
        (·.map fun span => span.fontSize?.map fun _ => ()) = some [.error .tooLarge] := by
    decide +kernel
  rcases hresult : compileMarkup countingHost ∅ tooLargeSource ⟨0, [], 0⟩ { settings := {} } with
    ⟨result, session⟩
  rw [hresult] at hsizes
  cases result with
  | error e => cases hsizes
  | ok spans =>
    obtain ⟨span, rfl, hsize⟩ := List.map_eq_singleton_iff.mp (Option.some.inj hsizes)
    refine ⟨span, session, rfl, fun defaults => ?_⟩
    rw [Span.resolveStyle]
    cases hfont : span.fontSize? with
    | ok size =>
      rw [hfont] at hsize
      cases hsize
    | error e =>
      rw [hfont] at hsize
      cases hsize
      rfl

end MarkupSpans
