import MarkupSpans.Proofs.Grammar.Expression

/-!
# Readers of attributes

The attributes of a tag are read up to its closing bracket (`attributesFrom_append`), or up to the
first one that holds an overlong integer (`attributesFrom_overlong`); what is read is a row of
attributes with space in front of each (`exists_of_attributesFrom`), and such a row is determined
by its characters (`attributesChars_inj`).
-/

set_option autoImplicit false

namespace MarkupSpans.Grammar

open Text

/-! ## One attribute -/

/-- A value begins with no space. -/
theorem ValueTree.stops_space (v : ValueTree) (rest : List Char) :
    Stops isSpace (v.chars ++ rest) := by
  cases v with
  | bare e _ => exact e.stops_space rest
  | braced before e after => exact (stops_cons_iff _ _ _).mpr (by decide)

/-- The value of an attribute is read behind the equals sign and the space. -/
theorem readBareValue_append (name : String) (e : ExprTree) (he : e.isCall = false)
    (hshort : e.overlong? = none) {rest : List Char} (hrest : Delimited rest) :
    readBareValue name (e.chars ++ rest) = .matched e.expr rest := by
  have hends : Ends false rest := ⟨hrest, by simp⟩
  simp only [readBareValue, readExpression_append e (.inr he) hshort hends]

/-- A value in braces is read up to the closing one. -/
theorem readBracedValue_append (name : String) (opened : Nat) (before : Space) (e : ExprTree)
    (hshort : e.overlong? = none) (after : Space) (rest : List Char) :
    readBracedValue name opened (before.val ++ (e.chars ++ (after.val ++ '\x7d' :: rest))) =
      .matched e.expr rest := by
  have hends := ends_space_append true after (c := '\x7d') (by decide) rest
  have hskip : skipSpace (after.val ++ '\x7d' :: rest) = '\x7d' :: rest :=
    skipSpace_append_cons after (by decide) _
  simp only [readBracedValue, skipSpace_append before (e.stops_space _),
    readExpression_append e (.inl rfl) hshort hends, hskip]

/-- The value of an attribute is read by the rule that its first character tells. -/
theorem readAttribute_value (a : AttributeTree) (rest : List Char) :
    readAttribute (a.chars ++ rest) =
      (match a.value with
        | .bare e _ => readBareValue (String.ofList a.name) (e.chars ++ rest)
        | .braced before e after =>
          readBracedValue (String.ofList a.name) (a.chars ++ rest).length
            (before.val ++ (e.chars ++ (after.val ++ '\x7d' :: rest)))).map
        (String.ofList a.name, ·) := by
  obtain ⟨⟨name, hne, hname⟩, before, after, value⟩ := a
  have hstops : Stops isAttributeNameChar
      (before.val ++ '=' :: (after.val ++ (value.chars ++ rest))) :=
    stops_space_append (by decide) before ((stops_cons_iff _ _ _).mpr (by decide))
  have hskip : skipSpace (before.val ++ '=' :: (after.val ++ (value.chars ++ rest))) =
      '=' :: (after.val ++ (value.chars ++ rest)) :=
    skipSpace_append_cons before (by decide) _
  have hskip' := skipSpace_append after (value.stops_space rest)
  simp only [AttributeTree.chars, List.append_assoc, List.cons_append, readAttribute,
    takeWhile_append_of_stops hname hstops, dropWhile_append_of_stops hname hstops, hskip, hskip']
  rw [if_neg (by simpa using hne)]
  cases value with
  | bare e he =>
    obtain ⟨c, tail, heq, hc⟩ := e.exists_cons
    have hbrace : c ≠ '\x7b' := (expressionStart_disjoint hc).2.2
    simp only [ValueTree.chars]
    split
    case h_1 inside hinside =>
      rw [heq] at hinside
      exact absurd (List.cons.inj hinside).1 hbrace
    case h_2 => rfl
  | braced before' e after' =>
    simp only [ValueTree.chars, List.cons_append, List.append_assoc, List.nil_append]

/-- An attribute without an overlong integer is read. -/
theorem readAttribute_append (a : AttributeTree) (hshort : a.value.tree.overlong? = none)
    {rest : List Char} (hrest : Delimited rest) :
    readAttribute (a.chars ++ rest) = .matched (String.ofList a.name, a.value.expr) rest := by
  rw [readAttribute_value]
  obtain ⟨name, before, after, value⟩ := a
  cases value with
  | bare e he =>
    exact congrArg (Outcome.map _) (readBareValue_append (String.ofList name) e he hshort hrest)
  | braced before' e after' =>
    exact congrArg (Outcome.map _)
      (readBracedValue_append (String.ofList name) _ before' e hshort after' rest)

/-- Reading an attribute fails at its first overlong integer. -/
theorem readAttribute_overlong (a : AttributeTree) {n : NumberLiteral}
    (hlong : a.value.tree.overlong? = some n) {rest : List Char} (hrest : Delimited rest) :
    ∃ left, readAttribute (a.chars ++ rest) = .faulty ⟨.numberTooLong n.whole.length, left⟩ := by
  obtain ⟨name, before, after, value⟩ := a
  cases value with
  | bare e he =>
    have hends : Ends false rest := ⟨hrest, by simp⟩
    obtain ⟨left, hread⟩ := readExpression_overlong e (.inr he) hlong hends
    refine ⟨left, ?_⟩
    rw [readAttribute_value]
    simp only [readBareValue, hread, Outcome.map]
  | braced before' e after' =>
    have hends := ends_space_append true after' (c := '\x7d') (by decide) rest
    obtain ⟨left, hread⟩ := readExpression_overlong e (.inl rfl) hlong hends
    refine ⟨left, ?_⟩
    rw [readAttribute_value]
    simp only [readBracedValue, skipSpace_append before' (e.stops_space _), hread, Outcome.map]

/-- What is read as a value in braces has a derivation. -/
theorem exists_of_readBracedValue {name : String} {opened : Nat} {cs rest : List Char} {e : Expr}
    (h : readBracedValue name opened cs = .matched e rest) :
    ∃ (before : Space) (t : ExprTree) (after : Space),
      cs = before.val ++ (t.chars ++ (after.val ++ '\x7d' :: rest)) := by
  unfold readBracedValue at h
  obtain ⟨before, hbefore⟩ := exists_space cs
  split at h
  case h_1 => simp at h
  case h_2 => simp at h
  case h_3 value behind hvalue =>
    obtain ⟨t, -, ht⟩ := exists_of_readExpression hvalue
    obtain ⟨after, hafter⟩ := exists_space behind
    split at h
    case h_1 closed hclosed =>
      simp only [Outcome.matched.injEq] at h
      obtain ⟨-, rfl⟩ := h
      rw [hclosed] at hafter
      refine ⟨before, t, after, ?_⟩
      rw [← hafter, ← ht]
      exact hbefore
    case h_2 => simp at h

/-- What is read as a value without braces has a derivation. -/
theorem exists_of_readBareValue {name : String} {cs rest : List Char} {e : Expr}
    (h : readBareValue name cs = .matched e rest) :
    ∃ t : ExprTree, t.isCall = false ∧ cs = t.chars ++ rest := by
  unfold readBareValue at h
  split at h
  case h_1 => split at h <;> simp at h
  case h_2 =>
    obtain ⟨t, hcall, ht⟩ := exists_of_readExpression h
    exact ⟨t, by simpa using hcall, ht⟩

/-- What is read as an attribute has a derivation. -/
theorem exists_of_readAttribute {cs rest : List Char} {pair : String × Expr}
    (h : readAttribute cs = .matched pair rest) : ∃ a : AttributeTree, cs = a.chars ++ rest := by
  unfold readAttribute at h
  simp only at h
  split at h
  case isTrue => simp at h
  case isFalse hne =>
    have hname : IsAttributeName (cs.takeWhile isAttributeNameChar) :=
      ⟨by simpa using hne, fun c hc => List.mem_takeWhile_imp hc⟩
    have hcs : cs = cs.takeWhile isAttributeNameChar ++ cs.dropWhile isAttributeNameChar :=
      List.takeWhile_append_dropWhile.symm
    obtain ⟨before, hbefore⟩ := exists_space (cs.dropWhile isAttributeNameChar)
    split at h
    case h_1 behind hbehind =>
      obtain ⟨after, hafter⟩ := exists_space behind
      rw [hbehind] at hbefore
      have hvalue : ∃ v : ValueTree, skipSpace behind = v.chars ++ rest := by
        split at h
        case h_1 inside hinside =>
          obtain ⟨value, hread, -⟩ := (Outcome.map_eq_matched_iff _ _ _ _).mp h
          obtain ⟨space, t, space', ht⟩ := exists_of_readBracedValue hread
          refine ⟨.braced space t space', ?_⟩
          rw [hinside, ht]
          simp [ValueTree.chars]
        case h_2 =>
          obtain ⟨value, hread, -⟩ := (Outcome.map_eq_matched_iff _ _ _ _).mp h
          obtain ⟨t, hcall, ht⟩ := exists_of_readBareValue hread
          exact ⟨.bare t hcall, ht⟩
      obtain ⟨v, hv⟩ := hvalue
      refine ⟨⟨⟨_, hname⟩, before, after, v⟩, ?_⟩
      simp only [AttributeTree.chars, List.append_assoc, List.cons_append]
      rw [← hv, ← hafter, ← hbefore]
      exact hcs
    case h_2 => simp at h

/-- The value of an attribute is told apart from a delimiter behind it: one in braces from one
without by the first character. -/
theorem ValueTree.append_inj {v v' : ValueTree} {rest rest' : List Char} (hrest : Delimited rest)
    (hrest' : Delimited rest') (h : v.chars ++ rest = v'.chars ++ rest') :
    v = v' ∧ rest = rest' := by
  have hmixed : ∀ (e : ExprTree) (behind tail : List Char),
      e.chars ++ behind ≠ '\x7b' :: tail := by
    intro e behind tail heq
    obtain ⟨c, more, hchars, hc⟩ := e.exists_cons
    rw [hchars] at heq
    exact (expressionStart_disjoint hc).2.2 (List.cons.inj heq).1
  cases v with
  | bare e he =>
    cases v' with
    | bare e' he' =>
      have hends : Ends false rest := ⟨hrest, by simp⟩
      have hends' : Ends false rest' := ⟨hrest', by simp⟩
      obtain ⟨rfl, hseam⟩ := ExprTree.append_inj e e' (.inr he) (.inr he') hends hends' h
      exact ⟨rfl, hseam⟩
    | braced before' e' after' => exact absurd h (hmixed e _ _)
  | braced before e after =>
    cases v' with
    | bare e' he' => exact absurd h.symm (hmixed e' _ _)
    | braced before' e' after' =>
      simp only [ValueTree.chars, List.cons_append, List.append_assoc, List.cons.injEq,
        true_and, List.nil_append] at h
      obtain ⟨rfl, hvalue⟩ := space_append_inj (e.stops_space _) (e'.stops_space _) h
      obtain ⟨rfl, hafter⟩ := ExprTree.append_inj e e' (.inl rfl) (.inl rfl)
        (ends_space_append true after (by simp) _) (ends_space_append true after' (by simp) _)
        hvalue
      obtain ⟨rfl, hseam⟩ := space_cons_inj (by decide) hafter
      exact ⟨rfl, hseam⟩

/-- An attribute is told apart from a delimiter behind it. -/
theorem AttributeTree.append_inj {a a' : AttributeTree} {rest rest' : List Char}
    (hrest : Delimited rest) (hrest' : Delimited rest')
    (h : a.chars ++ rest = a'.chars ++ rest') : a = a' ∧ rest = rest' := by
  obtain ⟨⟨name, hname⟩, before, after, value⟩ := a
  obtain ⟨⟨name', hname'⟩, before', after', value'⟩ := a'
  have hstops : ∀ (space : Space) (tail : List Char),
      Stops isAttributeNameChar (space.val ++ '=' :: tail) := fun space tail =>
    stops_space_append (by decide) space ((stops_cons_iff _ _ _).mpr (by decide))
  simp only [AttributeTree.chars, List.append_assoc, List.cons_append] at h
  obtain ⟨rfl, hequals⟩ :=
    row_append_inj hname.2 hname'.2 (hstops before _) (hstops before' _) h
  obtain ⟨rfl, hvalue⟩ := space_cons_inj (by decide) hequals
  obtain ⟨rfl, hchars⟩ :=
    space_append_inj (value.stops_space rest) (value'.stops_space rest') hvalue
  obtain ⟨rfl, hseam⟩ := ValueTree.append_inj hrest hrest' hchars
  exact ⟨rfl, hseam⟩

/-! ## The attributes of a tag -/

/-- An attribute begins with a character of attribute names, so it neither is skipped as space
nor ends the attributes. -/
theorem AttributeTree.exists_cons (a : AttributeTree) :
    ∃ c tail, a.chars = c :: tail ∧ isSpace c = false ∧ c ≠ '/' ∧ c ≠ '>' := by
  obtain ⟨⟨name, hne, hname⟩, before, after, value⟩ := a
  obtain ⟨c, tail, rfl⟩ := List.exists_cons_of_ne_nil hne
  have hc := hname c (by simp)
  refine ⟨c, _, rfl, isSpace_eq_false (by decide) hc, ?_, ?_⟩
  · rintro rfl
    exact absurd hc (by decide)
  · rintro rfl
    exact absurd hc (by decide)

/-- An attribute begins with no space. -/
theorem AttributeTree.stops_space (a : AttributeTree) (rest : List Char) :
    Stops isSpace (a.chars ++ rest) := by
  obtain ⟨c, tail, hchars, hspace, -⟩ := a.exists_cons
  rw [hchars]
  exact (stops_cons_iff _ _ _).mpr hspace

/-- Behind a row of attributes, or without one, a tag goes on with space or its closing
bracket. -/
theorem delimited_attributes (attributes : List (Gap × AttributeTree)) (after : Space)
    (rest : List Char) :
    Delimited (attributesChars attributes ++ (after.val ++ '>' :: rest)) := by
  cases attributes with
  | nil => exact (ends_space_append false after (by simp) rest).1
  | cons pair more =>
    simp only [attributesChars, List.flatMap_cons, List.append_assoc]
    exact delimited_gap_append pair.1 _

/-- The names and the values of attributes that were read. -/
def AttributeList.pairs (list : AttributeList) : List (String × Expr) :=
  list.read.map fun one => (one.name, one.value)

/-- Some attributes as they are read, where `behind` characters come after the last one. -/
def readsOf : List (Gap × AttributeTree) → Nat → List ReadAttribute
  | [], _ => []
  | (_, a) :: more, behind =>
    ⟨String.ofList a.name, a.value.expr, (a.chars ++ attributesChars more).length + behind⟩ ::
      readsOf more behind

/-- The attributes that are read have the names and values of the derivation. -/
theorem pairs_readsOf (attributes : List (Gap × AttributeTree)) (behind : Nat) :
    (readsOf attributes behind).map (fun one => (one.name, one.value)) =
      attributesPairs attributes := by
  induction attributes with
  | nil => rfl
  | cons pair more ih => exact congrArg (_ :: ·) ih

/-- The first overlong integer of several attributes is that of the first one, or else that of the
others. -/
theorem attributesNumerals_cons (gap : Gap) (a : AttributeTree)
    (more : List (Gap × AttributeTree)) :
    firstOverlong (attributesNumerals ((gap, a) :: more)) =
      a.value.tree.overlong?.or (firstOverlong (attributesNumerals more)) := by
  rw [attributesNumerals, List.flatMap_cons, firstOverlong_append]
  rfl

/-- The characters of several attributes with something behind them begin with the space in front
of the first one. -/
theorem attributesChars_cons_append (gap : Gap) (a : AttributeTree)
    (more : List (Gap × AttributeTree)) (rest : List Char) :
    attributesChars ((gap, a) :: more) ++ rest =
      gap.val ++ (a.chars ++ (attributesChars more ++ rest)) := by
  simp [attributesChars]

/-- In front of an attribute stands space, and reading goes on with the attribute. -/
theorem attributesFrom_cons (tag : String) (whole : List Char) (gap : Gap) (a : AttributeTree)
    (tail : List Char) :
    attributesFrom tag whole (gap.val ++ (a.chars ++ tail)) =
      match readAttribute (a.chars ++ tail) with
      | .missed => ⟨[], .ok (a.chars ++ tail)⟩
      | .faulty fault => ⟨[], .error fault⟩
      | .matched (name, value) rest =>
        ⟨⟨name, value, (a.chars ++ tail).length⟩ :: (attributesFrom tag whole rest).read,
          (attributesFrom tag whole rest).ending⟩ := by
  obtain ⟨c, rest', heq, -, hslash, hclose⟩ := a.exists_cons
  have hskip : skipSpace (gap.val ++ (a.chars ++ tail)) = a.chars ++ tail :=
    skipSpace_append gap.toSpace (a.stops_space tail)
  have hends : endsAttributes (a.chars ++ tail) = false := by
    simp [endsAttributes, heq, hslash, hclose]
  have hlength : (a.chars ++ tail).length ≠ (gap.val ++ (a.chars ++ tail)).length := by
    have hpos : 0 < gap.val.length := List.length_pos_iff.mpr gap.property.1
    simp only [List.length_append]
    omega
  rw [attributesFrom]
  simp only [hskip, hends, hlength, Bool.false_eq_true, if_false]
  split <;> simp_all

/-- Attributes without an overlong integer are read up to the closing bracket of their tag. -/
theorem attributesFrom_append (tag : String) (whole : List Char)
    (attributes : List (Gap × AttributeTree)) (after : Space) (rest : List Char)
    (hshort : firstOverlong (attributesNumerals attributes) = none) :
    attributesFrom tag whole (attributesChars attributes ++ (after.val ++ '>' :: rest)) =
      ⟨readsOf attributes (after.val ++ '>' :: rest).length, .ok ('>' :: rest)⟩ := by
  induction attributes with
  | nil =>
    have hskip : skipSpace (after.val ++ '>' :: rest) = '>' :: rest :=
      skipSpace_append_cons after (by decide) _
    have hends : endsAttributes ('>' :: rest) = true := by simp [endsAttributes]
    simp only [attributesChars, List.flatMap_nil, List.nil_append]
    rw [attributesFrom]
    simp [hskip, hends, readsOf]
  | cons pair more ih =>
    obtain ⟨gap, a⟩ := pair
    rw [attributesNumerals_cons, Option.or_eq_none_iff] at hshort
    have hread := readAttribute_append a hshort.1 (delimited_attributes more after rest)
    rw [attributesChars_cons_append, attributesFrom_cons, hread]
    simp only [ih hshort.2, readsOf, List.length_append, Nat.add_assoc]

/-- Reading attributes fails at their first overlong integer. -/
theorem attributesFrom_overlong (tag : String) (whole : List Char)
    (attributes : List (Gap × AttributeTree)) (after : Space) (rest : List Char)
    {n : NumberLiteral} (hlong : firstOverlong (attributesNumerals attributes) = some n) :
    ∃ left,
      (attributesFrom tag whole (attributesChars attributes ++ (after.val ++ '>' :: rest))).ending =
        .error ⟨.numberTooLong n.whole.length, left⟩ := by
  induction attributes with
  | nil => cases hlong
  | cons pair more ih =>
    obtain ⟨gap, a⟩ := pair
    have hdelimited := delimited_attributes more after rest
    rw [attributesNumerals_cons] at hlong
    rw [attributesChars_cons_append, attributesFrom_cons]
    cases hfirst : a.value.tree.overlong? with
    | some m =>
      rw [hfirst, Option.some_or, Option.some.injEq] at hlong
      obtain ⟨left, hread⟩ := readAttribute_overlong a (hlong ▸ hfirst) hdelimited
      exact ⟨left, by rw [hread]⟩
    | none =>
      rw [hfirst, Option.none_or] at hlong
      obtain ⟨left, hending⟩ := ih hlong
      refine ⟨left, ?_⟩
      rw [readAttribute_append a hfirst hdelimited]
      exact hending

/-- Induction on the reader: it stops behind space, or takes an attribute with space in front. -/
theorem exists_of_attributesFrom {tag : String} {whole cs rest : List Char}
    (h : (attributesFrom tag whole cs).ending = .ok rest) :
    ∃ (attributes : List (Gap × AttributeTree)) (after : Space),
      cs = attributesChars attributes ++ (after.val ++ rest) := by
  fun_induction attributesFrom tag whole cs with
  | case1 cs here hend =>
    simp only [Except.ok.injEq] at h
    obtain ⟨after, hafter⟩ := exists_space cs
    exact ⟨[], after, by rw [← h]; exact hafter⟩
  | case2 cs here hend hspace near => simp at h
  | case3 cs here hend hspace hmissed =>
    simp only [Except.ok.injEq] at h
    obtain ⟨after, hafter⟩ := exists_space cs
    exact ⟨[], after, by rw [← h]; exact hafter⟩
  | case4 cs here hend hspace fault hfaulty => simp at h
  | case5 cs here hend hspace name value behind hread more ih =>
    obtain ⟨attributes, after, hmore⟩ := ih h
    obtain ⟨a, ha⟩ := exists_of_readAttribute hread
    obtain ⟨⟨space, hall⟩, hcs⟩ := exists_space cs
    change cs = space ++ here at hcs
    have hne : space ≠ [] := by
      rintro rfl
      exact hspace (by rw [hcs]; rfl)
    refine ⟨(⟨space, hne, hall⟩, a) :: attributes, after, ?_⟩
    rw [hcs, ha, hmore]
    simp [attributesChars]

/-- Attributes up to the closing bracket have one derivation only. -/
theorem attributesChars_inj {attributes attributes' : List (Gap × AttributeTree)}
    {after after' : Space} {rest rest' : List Char}
    (h : attributesChars attributes ++ (after.val ++ '>' :: rest) =
      attributesChars attributes' ++ (after'.val ++ '>' :: rest')) :
    attributes = attributes' ∧ after = after' ∧ rest = rest' := by
  -- a row of attributes does not end where another one goes on
  have hmixed : ∀ (pair : Gap × AttributeTree) (more : List (Gap × AttributeTree))
      (space space' : Space) (tail tail' : List Char), space.val ++ '>' :: tail ≠
        attributesChars (pair :: more) ++ (space'.val ++ '>' :: tail') := by
    intro pair more space space' tail tail' heq
    obtain ⟨c, name, hchars, hspace, -, hclose⟩ := pair.2.exists_cons
    simp only [attributesChars, List.flatMap_cons, List.append_assoc, hchars,
      List.cons_append] at heq
    change space.val ++ '>' :: tail = pair.1.toSpace.val ++ c :: _ at heq
    obtain ⟨-, hbracket⟩ := space_append_inj ((stops_cons_iff _ _ _).mpr (by decide))
      ((stops_cons_iff _ _ _).mpr hspace) heq
    exact hclose (List.cons.inj hbracket).1.symm
  induction attributes generalizing attributes' with
  | nil =>
    cases attributes' with
    | nil =>
      obtain ⟨rfl, hseam⟩ := space_cons_inj (by decide) h
      exact ⟨rfl, rfl, hseam⟩
    | cons pair more => exact absurd h (hmixed pair more after after' rest rest')
  | cons pair more ih =>
    cases attributes' with
    | nil => exact absurd h.symm (hmixed pair more after' after rest' rest)
    | cons pair' more' =>
      obtain ⟨⟨gap, hgap⟩, a⟩ := pair
      obtain ⟨⟨gap', hgap'⟩, a'⟩ := pair'
      simp only [attributesChars, List.flatMap_cons, List.append_assoc] at h
      obtain ⟨rfl, hrow⟩ :=
        row_append_inj hgap.2 hgap'.2 (a.stops_space _) (a'.stops_space _) h
      obtain ⟨rfl, htail⟩ := AttributeTree.append_inj (delimited_attributes more after rest)
        (delimited_attributes more' after' rest') hrow
      obtain ⟨rfl, rfl, hseam⟩ := ih htail
      exact ⟨rfl, rfl, hseam⟩

end MarkupSpans.Grammar
