import MarkupSpans.Proofs.Faults
import MarkupSpans.Proofs.Visibility

/-!
# Names in words

The grammar has one rule for the names of tags and of attributes, and one for dotted names.  The
reader of attributes does not ask for a letter at the beginning, so what it gives are the names of
a wider rule, all of them (`exists_source_of_isAttributeName`).

All other names of a word that is read keep to the grammar: those of tags, and dotted names however
deep they stand in an attribute's value.  So a word keeps to the grammar exactly if the names of
its attributes begin with letters (`Source.named_iff`).
-/

set_option autoImplicit false

namespace MarkupSpans

open Grammar Text

/-! ## The names of a word -/

namespace Word

/-- The name of a tag. -/
def tagName? : Word → Option String
  | .text _ _ => none
  | .startTag tag _ _ => some tag
  | .endTag tag _ => some tag

/-- The attributes of a word. -/
def attributes : Word → List (String × Value)
  | .startTag _ attributes _ => attributes.entries
  | _ => []

/-- The names of a word keep to the grammar, where `attributeRule` is the rule for attributes. -/
structure Named (attributeRule : List Char → Prop) (w : Word) : Prop where
  tagName : ∀ name ∈ w.tagName?, IsTagName name.toList
  attributeName : ∀ entry ∈ w.attributes, attributeRule entry.1.toList
  dottedName : ∀ entry ∈ w.attributes,
    ∃ e : Expr, entry.2 = .expr e ∧ ∀ name ∈ e.names, IsIdentifier name.toList

/-- The names of all attributes of a word begin with letters. -/
def LettersFirst (w : Word) : Prop :=
  ∀ entry ∈ w.attributes, ∃ c ∈ entry.1.toList.head?, isLetter c = true

/-- The tag name of a word does not depend on its place. -/
@[simp]
theorem tagName?_withLoc (w : Word) (loc : Option String) :
    (w.withLoc loc).tagName? = w.tagName? := by
  cases w <;> rfl

/-- The attributes of a word do not depend on its place. -/
@[simp]
theorem attributes_withLoc (w : Word) (loc : Option String) :
    (w.withLoc loc).attributes = w.attributes := by
  cases w <;> rfl

end Word

namespace Grammar

/-- The rule for tags is the wider one and a letter in front. -/
theorem isTagName_iff (cs : List Char) :
    IsTagName cs ↔ IsAttributeName cs ∧ ∃ c ∈ cs.head?, isLetter c = true := by
  constructor
  · rintro ⟨c, rest, rfl, hletter, hrest⟩
    refine ⟨⟨List.cons_ne_nil c rest, ?_⟩, c, rfl, hletter⟩
    intro d hd
    rcases List.mem_cons.mp hd with rfl | hd
    · exact isTagNameChar_of_isLetter hletter
    · exact hrest d hd
  · rintro ⟨⟨-, hall⟩, c, hhead, hletter⟩
    obtain ⟨rest, rfl⟩ := List.head?_eq_some_iff.mp hhead
    exact ⟨c, rest, rfl, hletter, fun d hd => hall d (List.mem_cons_of_mem c hd)⟩

/-! ## What a derivation denotes -/

mutual

/-- The names in an expression that is derived are identifiers. -/
theorem isIdentifier_of_mem_names {name : String} : (t : ExprTree) → name ∈ t.expr.names →
    IsIdentifier name.toList
  | .text s, h => by cases h
  | .number n hn, h => by cases h
  | .ref dotted hdotted, h => by
    rw [List.mem_singleton.mp h]
    simpa using hdotted
  | .emptyCall dotted hdotted before inside, h => by
    rw [List.mem_singleton.mp h]
    simpa using hdotted
  | .call dotted hdotted before inside args, h => by
    rcases List.mem_cons.mp h with rfl | h
    · simpa using hdotted
    · exact isIdentifier_of_mem_namesAll args h

/-- The names in arguments that are derived are identifiers. -/
theorem isIdentifier_of_mem_namesAll {name : String} : (t : ArgsTree) →
    name ∈ Expr.namesAll t.exprs → IsIdentifier name.toList
  | .last e after, h => by
    rcases List.mem_append.mp h with h | h
    · exact isIdentifier_of_mem_names e h
    · cases h
  | .more e after before rest, h => by
    rcases List.mem_append.mp h with h | h
    · exact isIdentifier_of_mem_names e h
    · exact isIdentifier_of_mem_namesAll rest h

end

/-- The word of a derivation has names of the grammar, where those of attributes need not begin with
letters. -/
theorem WordTree.named (t : WordTree) : t.word.Named IsAttributeName := by
  cases t with
  | text before s after => exact ⟨nofun, nofun, nofun⟩
  | endTag name after =>
    refine ⟨?_, nofun, nofun⟩
    rintro _ ⟨⟩
    simpa using name.property
  | startTag name attributes after =>
    refine ⟨?_, ?_, ?_⟩
    · rintro _ ⟨⟩
      simpa using name.property
    · intro entry hentry
      obtain ⟨⟨-, a⟩, -, rfl⟩ := exists_of_mem_attributes hentry
      simpa using a.name.property
    · intro entry hentry
      obtain ⟨⟨-, a⟩, -, rfl⟩ := exists_of_mem_attributes hentry
      exact ⟨_, rfl, fun dotted hdotted => isIdentifier_of_mem_names a.value.tree hdotted⟩

end Grammar

/-! ## What is read -/

namespace Source

/-- Whatever the settings, the words that are got out of a text have names of the grammar, except
that the names of attributes need not begin with letters; and they all do exactly if the word keeps
to the grammar. -/
theorem named_iff (s : Source) (r : Reporter) {w : Word} (hw : w ∈ (s.words.deliver r).words) :
    w.Named IsAttributeName ∧ (w.Named IsTagName ↔ w.LettersFirst) := by
  have hread : w ∈ s.words.words :=
    (words_prefix_deliverItems s.words.failure s.words.items r).mem hw
  obtain ⟨t, k, rfl, -⟩ := s.exists_wordTree_of_mem hread
  have hwider : (t.word.withLoc (some (s.loc k))).Named IsAttributeName := by
    obtain ⟨htag, hattribute, hdotted⟩ := t.named
    exact ⟨by simpa using htag, by simpa using hattribute, by simpa using hdotted⟩
  refine ⟨hwider, ?_, ?_⟩
  · intro hnamed entry hentry
    exact ((isTagName_iff _).mp (hnamed.attributeName entry hentry)).2
  · intro hletters
    refine ⟨hwider.tagName, ?_, hwider.dottedName⟩
    intro entry hentry
    exact (isTagName_iff _).mpr ⟨hwider.attributeName entry hentry, hletters entry hentry⟩

/-- Two tags with names of every sort. -/
def namedSource : Source where
  chars := "<a-1 x_2=\x7bf.g(_h, 3)\x7d></a-1>".toList

/-- The names of both tags keep to the grammar. -/
theorem named_namedSource :
    (namedSource.words.deliver { settings := {} }).words.map Word.tagName? =
      [some "a-1", some "a-1"] ∧
    ∀ w ∈ (namedSource.words.deliver { settings := {} }).words, w.Named IsTagName := by
  refine ⟨by decide +kernel, fun w hw => ?_⟩
  have hnames : (namedSource.words.deliver { settings := {} }).words.map
      (fun w => w.attributes.map Prod.fst) = [["x_2"], []] := by decide +kernel
  have hmem := List.mem_map_of_mem (f := fun w : Word => w.attributes.map Prod.fst) hw
  rw [hnames] at hmem
  refine (named_iff namedSource _ hw).2.mpr fun entry hentry => ?_
  have hname : entry.1 ∈ w.attributes.map Prod.fst := List.mem_map_of_mem hentry
  simp only [List.mem_cons, List.not_mem_nil, or_false] at hmem
  rcases hmem with hmem | hmem
  · rw [hmem, List.mem_singleton] at hname
    rw [hname]
    exact ⟨'x', rfl, rfl⟩
  · rw [hmem] at hname
    cases hname

end Source

/-! ## Names of attributes -/

/-- The text of a tag with an empty attribute. -/
def emptyAttributeSource (name : List Char) : Source where
  chars := '<' :: 'a' :: ' ' :: (name ++ "=\x22\x22>".toList)

/-- The tag of such a text. -/
def emptyAttributeTag (name : List Char) : Word :=
  .startTag "a" (.ofList [(String.ofList name, .expr (.text ""))])
    (some ((emptyAttributeSource name).loc 0))

/-- The text of a tag with an empty attribute derives from the grammar. -/
theorem exists_emptyAttributeTree {name : List Char} (h : IsAttributeName name) :
    ∃ t : MarkupTree, t.chars = (emptyAttributeSource name).chars ∧
      t.words (emptyAttributeSource name) = [emptyAttributeTag name] ∧
      t.overlong? = none ∧ ∀ u ∈ t.trees, u.1.attributeNames.Nodup := by
  let a : AttributeTree :=
    ⟨⟨name, h⟩, .of [] rfl, .of [] rfl, .bare (.text ⟨'\x22', [], rfl, List.not_mem_nil⟩) rfl⟩
  let tag : WordTree := .startTag ⟨['a'], 'a', [], rfl, rfl, nofun⟩
    [(.of [' '] (List.cons_ne_nil _ _) rfl, a)] (.of [] rfl)
  refine ⟨⟨.of [] rfl, [(tag, .of [] rfl)]⟩, ?_, rfl, rfl, ?_⟩
  · rw [MarkupTree.chars, WordTrees.chars_cons, WordTree.chars, attributesChars, List.flatMap_cons,
      List.append_assoc, AttributeTree.chars]
    simp only [List.cons_append, List.append_assoc]
    rfl
  · intro u hu
    rw [List.mem_singleton.mp hu]
    exact List.pairwise_singleton _ (String.ofList name)

/-- Reading such a text gives its tag and nothing to report. -/
theorem deliver_emptyAttribute {name : List Char} (h : IsAttributeName name) (r : Reporter) :
    (emptyAttributeSource name).words.deliver r = ⟨[emptyAttributeTag name], none, r⟩ := by
  obtain ⟨t, hchars, htag, hshort, hdistinct⟩ := exists_emptyAttributeTree h
  rw [(emptyAttributeSource name).deliver_of_derivation t hchars hshort hdistinct, htag]

/-- Every name of the wider rule is the name of an attribute in some text. -/
theorem exists_source_of_isAttributeName {name : String} (h : IsAttributeName name.toList)
    (r : Reporter) : ∃ s : Source, ∃ w ∈ (s.words.deliver r).words,
      name ∈ w.attributes.map Prod.fst := by
  refine ⟨emptyAttributeSource name.toList, emptyAttributeTag name.toList, ?_, ?_⟩
  · rw [deliver_emptyAttribute h]
    exact List.mem_singleton_self _
  · rw [emptyAttributeTag, String.ofList_toList]
    exact List.mem_singleton_self name

/-- The tag of `<a 1="">` is read, though the grammar has no such name. -/
theorem digit_not_named :
    (emptyAttributeSource ['1']).chars = "<a 1=\x22\x22>".toList ∧
    ((emptyAttributeSource ['1']).words.deliver { settings := {} }).words =
      [.startTag "a" (.ofList [("1", .expr (.text ""))]) (some "1:1")] ∧
    ¬ ∀ w ∈ ((emptyAttributeSource ['1']).words.deliver { settings := {} }).words,
      w.Named IsTagName := by
  have hname : IsAttributeName ['1'] := ⟨List.cons_ne_nil _ _, List.all_eq_true.mp rfl⟩
  have hloc : (emptyAttributeSource ['1']).loc 0 = "1:1" := by decide +kernel
  have hwords := congrArg Delivery.words (deliver_emptyAttribute hname { settings := {} })
  rw [emptyAttributeTag, hloc] at hwords
  refine ⟨rfl, hwords, fun hall => ?_⟩
  rw [hwords] at hall
  obtain ⟨c, rest, hchars, hletter, -⟩ :=
    (hall _ List.mem_cons_self).attributeName ("1", .expr (.text "")) (List.mem_singleton_self _)
  have hdigit : '1' = c := (List.cons.inj hchars).1
  rw [← hdigit] at hletter
  cases hletter

end MarkupSpans
