import MarkupSpans.Proofs.Grammar.Attribute

/-!
# Readers of words

A word ends with its closing bracket, so it is read whatever comes behind it
(`readWord_append`), unless it holds an overlong integer (`readWord_overlong`); what is read is a
word without one (`exists_of_readWord`), and a word is determined by its characters
(`WordTree.append_inj`).
-/

set_option autoImplicit false

namespace MarkupSpans.Grammar

open Text

/-! ## Texts and end tags -/

/-- A string begins with no space. -/
theorem StringTree.stops_space (s : StringTree) (rest : List Char) :
    Stops isSpace (s.chars ++ rest) := by
  apply (stops_cons_iff _ _ _).mpr
  have hquote := s.isQuote_quote
  simp only [isQuote, Bool.or_eq_true, beq_iff_eq] at hquote
  rcases hquote with h | h <;> rw [h] <;> decide

/-- A text word is read as a whole. -/
theorem readText_append (before : Space) (s : StringTree) (after : Space) (rest : List Char) :
    readText ((WordTree.text before s after).chars ++ rest) =
      .matched (.text (String.ofList s.content) none) rest := by
  have hskip := skipSpace_append before (s.stops_space (after.val ++ '\x7d' :: rest))
  have hskip' : skipSpace (after.val ++ '\x7d' :: rest) = '\x7d' :: rest :=
    skipSpace_append_cons after (by decide) _
  simp only [WordTree.chars, List.cons_append, List.append_assoc, List.nil_append, readText, hskip,
    readString_append, hskip']

/-- What is read as a text word has a derivation. -/
theorem exists_of_readText {cs rest : List Char} {w : Word} (h : readText cs = .matched w rest) :
    ∃ t : WordTree, cs = t.chars ++ rest := by
  unfold readText at h
  split at h
  case h_1 inside =>
    obtain ⟨before, hbefore⟩ := exists_space inside
    simp only at h
    split at h
    case h_1 => simp at h
    case h_2 => simp at h
    case h_3 content behind hstring =>
      obtain ⟨s, hs⟩ := exists_of_readString hstring
      obtain ⟨after, hafter⟩ := exists_space behind
      split at h
      case h_1 closed hclosed =>
        simp only [Outcome.matched.injEq] at h
        obtain ⟨-, rfl⟩ := h
        rw [hclosed] at hafter
        refine ⟨.text before s after, ?_⟩
        rw [hbefore, hs, hafter]
        simp [WordTree.chars]
      case h_2 => simp at h
  case h_2 => simp at h

/-- A tag name stops at space and at the closing bracket. -/
theorem stops_tagName (space : Space) (rest : List Char) :
    Stops isTagNameChar (space.val ++ '>' :: rest) :=
  stops_space_append (by decide) space ((stops_cons_iff _ _ _).mpr (by decide))

/-- An end tag is read as a whole. -/
theorem readEndTag_append {name : List Char} (hname : IsTagName name) (after : Space)
    (rest : List Char) :
    readEndTag ((WordTree.endTag ⟨name, hname⟩ after).chars ++ rest) =
      .matched (.endTag (String.ofList name) none) rest := by
  have hread := readTagName_append hname (stops_tagName after rest)
  have hskip : skipSpace (after.val ++ '>' :: rest) = '>' :: rest :=
    skipSpace_append_cons after (by decide) _
  obtain ⟨c, tail, rfl, hc, -⟩ := hname
  have hclose : c ≠ '>' := by
    rintro rfl
    exact absurd hc (by decide)
  simp only [List.cons_append] at hread
  simp [WordTree.chars, readEndTag, hclose, hread, hskip]

/-- What is read as an end tag has a derivation. -/
theorem exists_of_readEndTag {cs rest : List Char} {w : Word}
    (h : readEndTag cs = .matched w rest) : ∃ t : WordTree, cs = t.chars ++ rest := by
  unfold readEndTag at h
  split at h
  case h_1 inside =>
    simp only at h
    split at h
    case isTrue => simp at h
    case isFalse =>
      split at h
      case isTrue => simp at h
      case isFalse =>
        split at h
        case h_1 => simp at h
        case h_2 => simp at h
        case h_3 tag behind htag =>
          obtain ⟨name, hname, heq⟩ := exists_of_readTagName htag
          obtain ⟨after, hafter⟩ := exists_space behind
          split at h
          case h_1 => simp at h
          case h_2 closed hclosed =>
            simp only [Outcome.matched.injEq] at h
            obtain ⟨-, rfl⟩ := h
            rw [hclosed] at hafter
            refine ⟨.endTag ⟨name, hname⟩ after, ?_⟩
            rw [heq, hafter]
            simp [WordTree.chars]
          case h_3 => simp at h
  case h_2 => simp at h

/-! ## Start tags -/

/-- The attributes of a tag as they are written, repeated ones included. -/
def writtenEntries (attributes : List (Gap × AttributeTree)) : List (String × Value) :=
  (attributesPairs attributes).map fun pair => (pair.1, .expr pair.2)

/-- The attributes that a tag has are some of those written. -/
theorem exists_of_mem_attributes {attributes : List (Gap × AttributeTree)}
    {entry : String × Value} (h : entry ∈ (NameMap.ofList (writtenEntries attributes)).entries) :
    ∃ a ∈ attributes, entry = (String.ofList a.2.name, .expr a.2.value.expr) := by
  have hmem := NameMap.mem_of_mem_ofList h
  simp only [writtenEntries, attributesPairs, List.map_map, List.mem_map] at hmem
  obtain ⟨a, ha, rfl⟩ := hmem
  exact ⟨a, ha, rfl⟩

/-- Where no integer of some attributes is overlong, none of one of them is. -/
theorem overlong?_of_mem_attributes {attributes : List (Gap × AttributeTree)}
    (hshort : firstOverlong (attributesNumerals attributes) = none) {a : Gap × AttributeTree}
    (ha : a ∈ attributes) : a.2.value.tree.overlong? = none := by
  rw [firstOverlong, List.find?_eq_none] at hshort
  rw [ExprTree.overlong?, firstOverlong, List.find?_eq_none]
  exact fun n hn => hshort n (List.mem_flatMap.mpr ⟨a, ha, hn⟩)

/-- Attributes in a row become a map in which later ones count. -/
theorem AttributeList.toMap_eq (list : AttributeList) :
    list.toMap = .ofList (list.pairs.map fun pair => (pair.1, .expr pair.2)) := by
  simp only [AttributeList.toMap, AttributeList.pairs, List.map_map]
  rfl

/-- The notices about a word, where `behind` characters come after it: those about the attributes
that repeat a name. -/
def WordTree.notices (behind : Nat) : WordTree → List (Placed Notice)
  | .startTag name attributes after =>
    (repeatedAmong [] (readsOf attributes (after.val.length + (behind + 1)))).map fun one =>
      ⟨.repeatedAttribute one.name (String.ofList name), one.left⟩
  | _ => []

/-- The characters of a start tag with something behind it. -/
theorem WordTree.startTag_chars_append (name : {cs : List Char // IsTagName cs})
    (attributes : List (Gap × AttributeTree)) (after : Space) (rest : List Char) :
    (WordTree.startTag name attributes after).chars ++ rest =
      '<' :: (name.val ++ (attributesChars attributes ++ (after.val ++ '>' :: rest))) := by
  simp [WordTree.chars]

/-- A tag name stops in front of attributes too, as there is space in front of each. -/
theorem stops_attributes (attributes : List (Gap × AttributeTree)) (after : Space)
    (rest : List Char) :
    Stops isTagNameChar (attributesChars attributes ++ (after.val ++ '>' :: rest)) := by
  cases attributes with
  | nil => exact stops_tagName after rest
  | cons pair more =>
    rw [attributesChars_cons_append]
    exact stops_gap_append (by decide) pair.1 _

/-- A start tag without an overlong integer is read with its attributes as they stand. -/
theorem readStartTag_append {name : List Char} (hname : IsTagName name)
    (attributes : List (Gap × AttributeTree)) (after : Space) (rest : List Char)
    (hshort : firstOverlong (attributesNumerals attributes) = none) :
    readStartTag ((WordTree.startTag ⟨name, hname⟩ attributes after).chars ++ rest) =
      ((WordTree.startTag ⟨name, hname⟩ attributes after).notices rest.length,
        .matched (WordTree.startTag ⟨name, hname⟩ attributes after).word rest) := by
  have hread := readTagName_append hname (stops_attributes attributes after rest)
  have hlist := attributesFrom_append (String.ofList name)
    (attributesChars attributes ++ (after.val ++ '>' :: rest)) attributes after rest hshort
  have hskip : skipSpace ('>' :: rest) = '>' :: rest :=
    skipSpace_of_stops ((stops_cons_iff _ _ _).mpr (by decide))
  rw [WordTree.startTag_chars_append]
  simp only [readStartTag, hread, readAttributes, hlist, closeStartTag, hskip,
    AttributeList.toMap_eq, AttributeList.pairs, pairs_readsOf, WordTree.word,
    AttributeList.notices, WordTree.notices, List.length_append, List.length_cons]

/-- Reading a start tag fails at its first overlong integer. -/
theorem readStartTag_overlong {name : List Char} (hname : IsTagName name)
    (attributes : List (Gap × AttributeTree)) (after : Space) (rest : List Char)
    {n : NumberLiteral} (hlong : firstOverlong (attributesNumerals attributes) = some n) :
    ∃ left, (readStartTag ((WordTree.startTag ⟨name, hname⟩ attributes after).chars ++ rest)).2 =
      .faulty ⟨.numberTooLong n.whole.length, left⟩ := by
  have hread := readTagName_append hname (stops_attributes attributes after rest)
  obtain ⟨left, hending⟩ := attributesFrom_overlong (String.ofList name)
    (attributesChars attributes ++ (after.val ++ '>' :: rest)) attributes after rest hlong
  refine ⟨left, ?_⟩
  rw [WordTree.startTag_chars_append]
  simp only [readStartTag, hread, readAttributes, hending]

/-- What is read as a start tag has a derivation. -/
theorem exists_of_readStartTag {cs rest : List Char} {w : Word}
    (h : (readStartTag cs).2 = .matched w rest) : ∃ t : WordTree, cs = t.chars ++ rest := by
  unfold readStartTag at h
  split at h
  case h_1 inside =>
    simp only at h
    split at h
    case h_1 => simp at h
    case h_2 => split at h <;> simp at h
    case h_3 tag behind htag =>
      obtain ⟨name, hname, heq⟩ := exists_of_readTagName htag
      split at h
      case h_1 => simp at h
      case h_2 here hhere =>
        obtain ⟨attributes, ⟨space, hspace⟩, hattributes⟩ := exists_of_attributesFrom hhere
        obtain ⟨⟨space', hspace'⟩, hafter⟩ := exists_space here
        simp only [closeStartTag] at h
        split at h
        case h_1 => simp at h
        case h_2 closed hclosed =>
          simp only [Outcome.matched.injEq] at h
          obtain ⟨-, rfl⟩ := h
          rw [hclosed] at hafter
          have hall : ∀ c ∈ space ++ space', isSpace c = true := by
            intro c hc
            rcases List.mem_append.mp hc with hc | hc
            · exact hspace c hc
            · exact hspace' c hc
          refine ⟨.startTag ⟨name, hname⟩ attributes ⟨space ++ space', hall⟩, ?_⟩
          rw [heq, hattributes, hafter]
          simp [WordTree.chars]
        case h_3 => simp at h
        case h_4 => simp at h
  case h_2 => simp at h

/-! ## Words -/

/-- Between the bracket and the slash of an end tag no name fits, so a start tag is not taken for
an end tag. -/
theorem readWord_startTag {name : List Char} (hname : IsTagName name)
    (attributes : List (Gap × AttributeTree)) (after : Space) (rest : List Char) :
    readWord ((WordTree.startTag ⟨name, hname⟩ attributes after).chars ++ rest) =
      readStartTag ((WordTree.startTag ⟨name, hname⟩ attributes after).chars ++ rest) := by
  obtain ⟨c, tail, rfl, hc, htail⟩ := hname
  have hslash : c ≠ '/' := by
    rintro rfl
    exact absurd hc (by decide)
  simp only [WordTree.chars, List.cons_append]
  unfold readWord
  split
  case h_1 heq => simp at heq
  case h_2 heq =>
    simp only [List.cons.injEq, true_and] at heq
    exact absurd heq.1 hslash
  case h_3 => rfl
  case h_4 hother => exact absurd rfl (hother _)

/-- The names of the attributes of a word, as often as they are given. -/
def WordTree.attributeNames : WordTree → List String
  | .startTag _ attributes _ => (attributesPairs attributes).map Prod.fst
  | _ => []

/-- Attributes with different names are not repeated. -/
theorem repeatedAmong_eq_nil {read : List ReadAttribute} (seen : List String)
    (hnodup : (read.map ReadAttribute.name).Nodup)
    (hseen : ∀ one ∈ read, one.name ∉ seen) : repeatedAmong seen read = [] := by
  induction read generalizing seen with
  | nil => rfl
  | cons one rest ih =>
    simp only [List.map_cons, List.nodup_cons, List.mem_map, not_exists, not_and] at hnodup
    have hfresh : seen.contains one.name = false := by simpa using hseen one (by simp)
    simp only [repeatedAmong, hfresh, Bool.false_eq_true, if_false]
    apply ih _ hnodup.2
    intro other hother hmem
    rcases List.mem_cons.mp hmem with heq | hmem
    · exact hnodup.1 other hother heq
    · exact hseen other (by simp [hother]) hmem

/-- A word that repeats no attribute is worth no notice. -/
theorem WordTree.notices_eq_nil {t : WordTree} (h : t.attributeNames.Nodup) (behind : Nat) :
    t.notices behind = [] := by
  cases t with
  | startTag name attributes after =>
    have hdistinct : ((readsOf attributes (after.val.length + (behind + 1))).map
        ReadAttribute.name).Nodup := by
      rw [attributeNames, ← pairs_readsOf attributes (after.val.length + (behind + 1)),
        List.map_map] at h
      exact h
    rw [notices, repeatedAmong_eq_nil [] hdistinct (by simp), List.map_nil]
  | _ => rfl

/-- A word without an overlong integer is read whatever comes behind it. -/
theorem readWord_append (t : WordTree) (hshort : t.overlong? = none) (rest : List Char) :
    readWord (t.chars ++ rest) = (t.notices rest.length, .matched t.word rest) := by
  cases t with
  | text before s after =>
    have hread := readText_append before s after rest
    simp only [WordTree.chars, List.cons_append, WordTree.word, readWord] at hread ⊢
    rw [hread]
    rfl
  | startTag name attributes after =>
    obtain ⟨name, hname⟩ := name
    exact (readWord_startTag hname attributes after rest).trans
      (readStartTag_append hname attributes after rest hshort)
  | endTag name after =>
    obtain ⟨name, hname⟩ := name
    have hread := readEndTag_append hname after rest
    simp only [WordTree.chars, List.cons_append, WordTree.word, readWord] at hread ⊢
    rw [hread]
    rfl

/-- Reading a word fails at its first overlong integer. -/
theorem readWord_overlong (t : WordTree) {n : NumberLiteral} (hlong : t.overlong? = some n)
    (rest : List Char) :
    ∃ left, (readWord (t.chars ++ rest)).2 = .faulty ⟨.numberTooLong n.whole.length, left⟩ := by
  cases t with
  | text before s after => cases hlong
  | startTag name attributes after =>
    obtain ⟨name, hname⟩ := name
    rw [readWord_startTag hname attributes after rest]
    exact readStartTag_overlong hname attributes after rest hlong
  | endTag name after => cases hlong

/-- What is read as a word derives from the rules of words, and none of its integers is overlong. -/
theorem exists_of_readWord {cs rest : List Char} {w : Word}
    (h : (readWord cs).2 = .matched w rest) :
    ∃ t : WordTree, cs = t.chars ++ rest ∧ t.overlong? = none := by
  obtain ⟨t, ht⟩ : ∃ t : WordTree, cs = t.chars ++ rest := by
    unfold readWord at h
    split at h
    case h_1 => exact exists_of_readText h
    case h_2 => exact exists_of_readEndTag h
    case h_3 => exact exists_of_readStartTag h
    case h_4 => simp at h
  refine ⟨t, ht, Option.eq_none_iff_forall_not_mem.mpr fun n hn => ?_⟩
  obtain ⟨left, hfaulty⟩ := readWord_overlong t hn rest
  rw [← ht, h] at hfaulty
  cases hfaulty

/-! ## Derivations are unique -/

/-- The name of a tag is told apart from what follows a tag name. -/
theorem IsTagName.append_inj {name name' rest rest' : List Char} (hname : IsTagName name)
    (hname' : IsTagName name') (hrest : Stops isTagNameChar rest)
    (hrest' : Stops isTagNameChar rest') (h : name ++ rest = name' ++ rest') :
    name = name' ∧ rest = rest' := by
  obtain ⟨-, heq, hseam⟩ :=
    eq_of_readings readTagName (readTagName_append hname hrest) (readTagName_append hname' hrest') h
  exact ⟨heq, hseam⟩

/-- The name of a start tag does not begin with the slash of an end tag. -/
theorem IsTagName.append_ne_slash {name : List Char} (hname : IsTagName name)
    (rest rest' : List Char) : name ++ rest ≠ '/' :: rest' := by
  obtain ⟨c, tail, rfl, hc, -⟩ := hname
  intro h
  obtain ⟨rfl, -⟩ := List.cons.inj h
  exact absurd hc (by decide)

/-- A word is told apart from what follows its closing bracket.  Its first two characters tell the
rule. -/
theorem WordTree.append_inj {t t' : WordTree} {rest rest' : List Char}
    (h : t.chars ++ rest = t'.chars ++ rest') : t = t' ∧ rest = rest' := by
  cases t with
  | text before s after =>
    cases t' with
    | text before' s' after' =>
      simp only [WordTree.chars, List.cons_append, List.append_assoc, List.cons.injEq, true_and,
        List.nil_append] at h
      obtain ⟨rfl, hstring⟩ := space_append_inj (s.stops_space _) (s'.stops_space _) h
      obtain ⟨rfl, hafter⟩ := StringTree.append_inj hstring
      obtain ⟨rfl, hseam⟩ := space_cons_inj (by decide) hafter
      exact ⟨rfl, hseam⟩
    | _ => cases (List.cons.inj h).1
  | startTag name attributes after =>
    obtain ⟨name, hname⟩ := name
    cases t' with
    | text before' s' after' => cases (List.cons.inj h).1
    | startTag name' attributes' after' =>
      obtain ⟨name', hname'⟩ := name'
      rw [startTag_chars_append, startTag_chars_append] at h
      obtain ⟨rfl, hbehind⟩ := hname.append_inj hname' (stops_attributes attributes after rest)
        (stops_attributes attributes' after' rest') (List.cons.inj h).2
      obtain ⟨rfl, rfl, hseam⟩ := attributesChars_inj hbehind
      exact ⟨rfl, hseam⟩
    | endTag name' after' =>
      rw [startTag_chars_append] at h
      exact absurd (List.cons.inj h).2 (hname.append_ne_slash _ _)
  | endTag name after =>
    obtain ⟨name, hname⟩ := name
    cases t' with
    | text before' s' after' => cases (List.cons.inj h).1
    | startTag name' attributes' after' =>
      obtain ⟨name', hname'⟩ := name'
      rw [startTag_chars_append] at h
      exact absurd (List.cons.inj h).2.symm (hname'.append_ne_slash _ _)
    | endTag name' after' =>
      obtain ⟨name', hname'⟩ := name'
      simp only [WordTree.chars, List.cons_append, List.append_assoc, List.cons.injEq, true_and,
        List.nil_append] at h
      obtain ⟨rfl, hafter⟩ := hname.append_inj hname' (stops_tagName after rest)
        (stops_tagName after' rest') h
      obtain ⟨rfl, hseam⟩ := space_cons_inj (by decide) hafter
      exact ⟨rfl, hseam⟩

end MarkupSpans.Grammar
