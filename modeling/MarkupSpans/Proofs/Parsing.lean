import MarkupSpans.Proofs.Delivering
import MarkupSpans.Proofs.Grammar.Word

/-!
# Parsing accepts exactly the grammar

A text is parsed if and only if it has a derivation without an overlong integer, the derivation is
the only one, and the words are those that it denotes, each with the place where it begins.  A text
whose derivation holds an overlong integer is refused for the first one of them
(`Source.failure_of_overlong`).
-/

set_option autoImplicit false

namespace MarkupSpans

open Grammar Text

namespace Grammar

/-! ## Rows of words -/

/-- A word begins with no space. -/
theorem WordTree.exists_cons (t : WordTree) :
    ∃ c tail, t.chars = c :: tail ∧ isSpace c = false := by
  cases t with
  | text => exact ⟨'\x7b', _, rfl, by decide⟩
  | startTag => exact ⟨'<', _, rfl, by decide⟩
  | endTag => exact ⟨'<', _, rfl, by decide⟩

/-- Space stops in front of a word. -/
theorem WordTree.stops_space (t : WordTree) (rest : List Char) :
    Stops isSpace (t.chars ++ rest) := by
  obtain ⟨c, tail, heq, hc⟩ := t.exists_cons
  rw [heq]
  exact (stops_cons_iff _ _ _).mpr hc

/-- Space stops in front of a row of words. -/
theorem WordTrees.stops_space (trees : WordTrees) : Stops isSpace (WordTrees.chars trees) := by
  cases trees with
  | nil => exact stops_nil _
  | cons pair more =>
    simp only [WordTrees.chars, List.flatMap_cons, List.append_assoc]
    exact pair.1.stops_space _

/-- The characters of a row of words are those of the first one, of the space behind it and of the
others. -/
theorem WordTrees.chars_cons (t : WordTree) (after : Space) (more : WordTrees) :
    WordTrees.chars ((t, after) :: more) = t.chars ++ (after.val ++ WordTrees.chars more) := by
  simp [WordTrees.chars]

/-- The first overlong integer of several words is that of the first one, or else that of the
others. -/
theorem WordTrees.overlong?_cons (t : WordTree) (after : Space) (more : WordTrees) :
    WordTrees.overlong? ((t, after) :: more) = t.overlong?.or more.overlong? := by
  rw [WordTrees.overlong?, WordTrees.numerals, List.flatMap_cons, firstOverlong_append]
  rfl

/-- Behind space a word is read, and then the words behind it. -/
theorem readTokens_matched {trailingAllowed : Bool} {cs rest : List Char}
    {notices : List (Placed Notice)} {w : Word}
    (hread : readWord (skipSpace cs) = (notices, .matched w rest)) :
    readTokens trailingAllowed cs =
      Tokens.withNotices notices ⟨⟨.word w, (skipSpace cs).length⟩ ::
        (readTokens trailingAllowed rest).read, (readTokens trailingAllowed rest).fault⟩ := by
  have hne : (skipSpace cs).isEmpty = false := by
    cases hcs : skipSpace cs with
    | nil => simp [hcs, readWord] at hread
    | cons c tail => rfl
  rw [readTokens]
  simp only [hne, Bool.false_eq_true, if_false]
  split
  case h_1 hmissed => simp [hread] at hmissed
  case h_2 hfaulty => simp [hread] at hfaulty
  case h_3 notices' w' rest' hmatched =>
    simp only [hread, Prod.mk.injEq, Outcome.matched.injEq] at hmatched
    obtain ⟨rfl, rfl, rfl⟩ := hmatched
    rfl

/-- Behind space a word that cannot be read ends the reading. -/
theorem fault_readTokens {trailingAllowed : Bool} {cs : List Char} {fault : Placed SyntaxFault}
    (hread : (readWord (skipSpace cs)).2 = .faulty fault) :
    (readTokens trailingAllowed cs).fault = some fault := by
  have hne : (skipSpace cs).isEmpty = false := by
    cases hcs : skipSpace cs with
    | nil => simp [hcs, readWord] at hread
    | cons c tail => rfl
  rw [readTokens]
  simp only [hne, Bool.false_eq_true, if_false]
  split
  case h_1 hmissed => simp [hmissed] at hread
  case h_2 hfaulty =>
    rw [hfaulty] at hread
    cases hread
    rfl
  case h_3 hmatched => simp [hmatched] at hread

/-- Reading words with space behind each fails at their first overlong integer, whatever comes
behind: the words in front of it are read. -/
theorem fault_readTokens_overlong (trailingAllowed : Bool) (before : Space) (trees : WordTrees)
    (rest : List Char) {n : NumberLiteral} (hlong : trees.overlong? = some n) :
    ∃ left, (readTokens trailingAllowed (before.val ++ (WordTrees.chars trees ++ rest))).fault =
      some ⟨.numberTooLong n.whole.length, left⟩ := by
  induction trees generalizing before with
  | nil => cases hlong
  | cons pair more ih =>
    obtain ⟨t, after⟩ := pair
    have hskip : skipSpace (before.val ++ (WordTrees.chars ((t, after) :: more) ++ rest)) =
        t.chars ++ (after.val ++ (WordTrees.chars more ++ rest)) := by
      rw [WordTrees.chars_cons, List.append_assoc, List.append_assoc]
      exact skipSpace_append before (t.stops_space _)
    rw [WordTrees.overlong?_cons] at hlong
    cases hfirst : t.overlong? with
    | some m =>
      rw [hfirst, Option.some_or, Option.some.injEq] at hlong
      obtain ⟨left, hfaulty⟩ := readWord_overlong t (hlong ▸ hfirst)
        (after.val ++ (WordTrees.chars more ++ rest))
      exact ⟨left, fault_readTokens (hskip ▸ hfaulty)⟩
    | none =>
      rw [hfirst, Option.none_or] at hlong
      obtain ⟨left, hfault⟩ := ih after hlong
      refine ⟨left, ?_⟩
      rw [readTokens_matched (hskip ▸ readWord_append t hfirst _)]
      exact hfault

end Grammar

namespace Source

/-- Notices in front of tokens change no words. -/
theorem words_withNotices (s : Source) (notices : List (Placed Notice)) (tokens : Tokens) :
    (s.streamOf (.withNotices notices tokens)).words = (s.streamOf tokens).words := by
  simp [streamOf, Tokens.withNotices, WordStream.words, itemOf, List.filterMap_append,
    List.filterMap_map]

/-- A word in front of tokens is a word in front of their stream, with its place. -/
theorem streamOf_cons_word (s : Source) (w : Word) (left : Nat) (tokens : Tokens) :
    s.streamOf ⟨⟨.word w, left⟩ :: tokens.read, tokens.fault⟩ =
      ⟨.word (w.withLoc (some (s.locOfLeft left))) :: (s.streamOf tokens).items,
        (s.streamOf tokens).failure⟩ :=
  rfl

/-- Space and words with space behind each, up to the end of a source, are read as they stand if
no integer in them is overlong.  Induction on the words; the space behind one is the space in front
of the next. -/
theorem streamOf_readTokens (s : Source) (trailingAllowed : Bool) (before : Space)
    (trees : WordTrees) (start : Nat)
    (hsize : s.size = start + (before.val ++ WordTrees.chars trees).length)
    (hshort : trees.overlong? = none) :
    let stream := s.streamOf (readTokens trailingAllowed (before.val ++ WordTrees.chars trees))
    stream.failure = none ∧ stream.words = WordTrees.words s (start + before.val.length) trees ∧
      ((∀ t ∈ trees, t.1.attributeNames.Nodup) → stream.notices = []) := by
  induction trees generalizing before start with
  | nil =>
    have hskip : skipSpace (before.val ++ WordTrees.chars []) = [] :=
      skipSpace_append before (stops_nil _)
    have htokens : readTokens trailingAllowed (before.val ++ WordTrees.chars []) = ⟨[], none⟩ := by
      rw [readTokens]
      simp [hskip]
    rw [htokens]
    exact ⟨rfl, rfl, fun _ => rfl⟩
  | cons pair more ih =>
    obtain ⟨t, after⟩ := pair
    rw [WordTrees.overlong?_cons, Option.or_eq_none_iff] at hshort
    generalize hrest : after.val ++ WordTrees.chars more = rest
    have hchars : WordTrees.chars ((t, after) :: more) = t.chars ++ rest := by
      rw [WordTrees.chars_cons, hrest]
    have hskip : skipSpace (before.val ++ (t.chars ++ rest)) = t.chars ++ rest :=
      skipSpace_append before (t.stops_space rest)
    have hmatched : readWord (skipSpace (before.val ++ (t.chars ++ rest))) =
        (t.notices rest.length, .matched t.word rest) := by
      rw [hskip, readWord_append t hshort.1]
    have hplace : s.locOfLeft (t.chars ++ rest).length = s.loc (start + before.val.length) := by
      rw [hchars, List.length_append] at hsize
      unfold locOfLeft
      congr 1
      omega
    have hsize' : s.size = start + before.val.length + t.chars.length +
        (after.val ++ WordTrees.chars more).length := by
      rw [hchars] at hsize
      simp only [List.length_append, ← hrest] at hsize ⊢
      omega
    obtain ⟨hfailure, hwords, hnotices⟩ := ih after _ hsize' hshort.2
    rw [hrest] at hfailure hwords hnotices
    have hstart : start + before.val.length + t.chars.length + after.val.length =
        start + before.val.length + (t.chars ++ after.val).length := by
      simp only [List.length_append]
      omega
    rw [hstart] at hwords
    rw [hchars, readTokens_matched hmatched, hskip]
    refine ⟨hfailure, ?_, fun hdistinct => ?_⟩
    · rw [words_withNotices, streamOf_cons_word, hplace]
      simp only [WordStream.words, List.filterMap_cons, WordTrees.words]
      congr 1
    · rw [WordTree.notices_eq_nil (hdistinct (t, after) (by simp))]
      exact hnotices fun u hu => hdistinct u (by simp [hu])

end Source

namespace Grammar

/-! ## Whole texts -/

/-- A text that is read to its end derives from the grammar, and none of its integers is
overlong. -/
theorem exists_of_readTokens {cs : List Char} (h : (readTokens false cs).fault = none) :
    ∃ t : MarkupTree, cs = t.chars ∧ t.overlong? = none := by
  generalize hallowed : false = trailingAllowed at h
  fun_induction readTokens trailingAllowed cs with
  | case1 cs here hempty =>
    obtain ⟨before, hbefore⟩ := exists_space cs
    have hnil : skipSpace cs = [] := by simpa [here] using hempty
    rw [hnil] at hbefore
    exact ⟨⟨before, []⟩, hbefore, rfl⟩
  | case2 cs here hempty notices hmissed =>
    subst hallowed
    simp [readTrailing] at h
  | case3 cs here hempty notices fault hfaulty => simp [Tokens.withNotices] at h
  | case4 cs here hempty notices w rest hmatched more ih =>
    obtain ⟨⟨after, trees⟩, hrest, hmore⟩ := ih h
    obtain ⟨t, ht, hshort⟩ := exists_of_readWord (congrArg Prod.snd hmatched)
    obtain ⟨before, hbefore⟩ := exists_space cs
    change cs = before.val ++ here at hbefore
    refine ⟨⟨before, (t, after) :: trees⟩, ?_, ?_⟩
    · simp only [MarkupTree.chars] at hrest ⊢
      rw [WordTrees.chars_cons, hbefore, ht, hrest]
    · rw [MarkupTree.overlong?, WordTrees.overlong?_cons, hshort, Option.none_or]
      exact hmore

/-- A row of words has one derivation only. -/
theorem WordTrees.chars_inj {trees trees' : WordTrees}
    (h : WordTrees.chars trees = WordTrees.chars trees') : trees = trees' := by
  induction trees generalizing trees' with
  | nil =>
    cases trees' with
    | nil => rfl
    | cons pair more =>
      obtain ⟨c, tail, heq, -⟩ := pair.1.exists_cons
      simp [WordTrees.chars, heq] at h
  | cons pair more ih =>
    obtain ⟨t, after⟩ := pair
    cases trees' with
    | nil =>
      obtain ⟨c, tail, heq, -⟩ := t.exists_cons
      simp [WordTrees.chars, heq] at h
    | cons pair' more' =>
      obtain ⟨t', after'⟩ := pair'
      rw [WordTrees.chars_cons, WordTrees.chars_cons] at h
      obtain ⟨rfl, hrest⟩ := WordTree.append_inj h
      obtain ⟨rfl, hmore⟩ :=
        space_append_inj (WordTrees.stops_space more) (WordTrees.stops_space more') hrest
      rw [ih hmore]

/-- A text has one derivation only. -/
theorem MarkupTree.chars_inj {t t' : MarkupTree} (h : t.chars = t'.chars) : t = t' := by
  obtain ⟨before, trees⟩ := t
  obtain ⟨before', trees'⟩ := t'
  obtain ⟨rfl, htrees⟩ := space_append_inj trees.stops_space trees'.stops_space h
  rw [WordTrees.chars_inj htrees]

end Grammar

/-! ## Acceptance -/

/-- The words of a source that has a derivation, where no integer is overlong. -/
theorem Source.words_of_derivation (s : Source) (t : MarkupTree) (ht : t.chars = s.chars)
    (hshort : t.overlong? = none) :
    s.words.failure = none ∧ s.words.words = t.words s ∧
      ((∀ u ∈ t.trees, u.1.attributeNames.Nodup) → s.words.notices = []) := by
  have hsize : s.size = 0 + (t.before.val ++ WordTrees.chars t.trees).length := by
    simp only [Source.size, ← ht, MarkupTree.chars, Nat.zero_add]
  have hsuffix : s.suffix 0 = t.before.val ++ WordTrees.chars t.trees := by
    simp [Source.suffix, ← ht, MarkupTree.chars]
  have hstream := s.streamOf_readTokens s.options.trailingAllowed t.before t.trees 0 hsize hshort
  rw [Nat.zero_add] at hstream
  simpa [Source.words, Source.wordsFrom, hsuffix, MarkupTree.words] using hstream

/-- A source whose derivation holds an overlong integer cannot be read to its end: the first such
integer is refused. -/
theorem Source.failure_of_overlong (s : Source) (t : MarkupTree) (ht : t.chars = s.chars)
    {n : NumberLiteral} (hlong : t.overlong? = some n) :
    s.words.failure = some (.value (.numeralTooLong n.whole.length)) := by
  have hsuffix : s.suffix 0 = t.before.val ++ (WordTrees.chars t.trees ++ []) := by
    simp [Source.suffix, ← ht, MarkupTree.chars]
  obtain ⟨left, hfault⟩ :=
    fault_readTokens_overlong s.options.trailingAllowed t.before t.trees [] hlong
  have hfailure : s.words.failure =
      (readTokens s.options.trailingAllowed (s.suffix 0)).fault.map s.failureOf := rfl
  rw [hfailure, hsuffix, hfault]
  rfl

/-- Where no tag repeats an attribute, the words are got out with nothing to report. -/
theorem Source.deliver_of_derivation (s : Source) (t : MarkupTree) (ht : t.chars = s.chars)
    (hshort : t.overlong? = none) (hdistinct : ∀ u ∈ t.trees, u.1.attributeNames.Nodup)
    (r : Reporter) : s.words.deliver r = ⟨t.words s, none, r⟩ := by
  obtain ⟨hfailure, hwords, hnotices⟩ := s.words_of_derivation t ht hshort
  have hdeliver :=
    deliverItems_of_notices_eq_nil s.words.failure s.words.items r (hnotices hdistinct)
  have hread : WordStream.words ⟨s.words.items, s.words.failure⟩ = t.words s := hwords
  rw [WordStream.deliver, hdeliver, hread, hfailure]

/-- Where trailing text is an error and warnings do not end the run, a text is parsed into words
if and only if it derives from the grammar without an overlong integer and the words are those of
the derivation.  There is no second derivation, and of a text whose derivation holds overlong
integers the first one is refused. -/
theorem parseWords_accepts_grammar (s : Source) (hstrict : s.options.trailingAllowed = false)
    (r : Reporter) (hr : r.Lenient) :
    (∀ words, (parseWords s r).1 = .ok words ↔
      ∃ t : MarkupTree, t.chars = s.chars ∧ t.overlong? = none ∧ t.words s = words) ∧
    (∀ t : MarkupTree, t.chars = s.chars → ∀ n, t.overlong? = some n →
      (parseWords s r).1 = .error (.value (.numeralTooLong n.whole.length))) ∧
    ∀ t t' : MarkupTree, t.chars = s.chars → t'.chars = s.chars → t = t' := by
  refine ⟨fun words => ?_, fun t ht n hlong => ?_,
    fun t t' ht ht' => MarkupTree.chars_inj (ht.trans ht'.symm)⟩
  · rw [parseWords_eq_ok_iff s hr]
    constructor
    · rintro ⟨hfailure, hwords⟩
      have hfault : (readTokens false s.chars).fault = none := by
        have hsuffix : s.suffix 0 = s.chars := by simp [Source.suffix]
        simpa [Source.words, Source.wordsFrom, Source.streamOf, hsuffix, hstrict] using hfailure
      obtain ⟨t, ht, hshort⟩ := exists_of_readTokens hfault
      exact ⟨t, ht.symm, hshort, (s.words_of_derivation t ht.symm hshort).2.1.symm.trans hwords⟩
    · rintro ⟨t, ht, hshort, hwords⟩
      obtain ⟨hfailure, hderived, -⟩ := s.words_of_derivation t ht hshort
      exact ⟨hfailure, hderived.trans hwords⟩
  · exact parseWords_eq_error_of_failure s hr (s.failure_of_overlong t ht hlong)

/-- A tag that repeats an attribute, with a number in the digits of another script and a call in
braces; a text of one quote; and the end tag on a line of its own. -/
def crowdedTree : MarkupTree where
  before := .of [' '] rfl
  trees := [
    (.startTag ⟨['b', '-', '1'], 'b', ['-', '1'], rfl, rfl, List.all_eq_true.mp rfl⟩ [
      (.of [' '] (by simp) rfl,
        ⟨⟨['n'], by simp, List.all_eq_true.mp rfl⟩, .of [' '] rfl, .of [] rfl,
          .bare (.number ⟨true, ['\u0663'], ['5']⟩
            ⟨by simp, List.all_eq_true.mp rfl, List.all_eq_true.mp rfl, .inl rfl⟩) rfl⟩),
      (.of ['\t'] (by simp) rfl,
        ⟨⟨['n'], by simp, List.all_eq_true.mp rfl⟩, .of [] rfl, .of [] rfl,
          .bare (.number ⟨false, ['2'], []⟩
            ⟨by simp, List.all_eq_true.mp rfl, List.all_eq_true.mp rfl, .inr (by simp; rfl)⟩)
            rfl⟩),
      (.of [' '] (by simp) rfl,
        ⟨⟨['-'], by simp, List.all_eq_true.mp rfl⟩, .of [] rfl, .of [] rfl,
          .braced (.of [] rfl)
            (.call ['f', '.', 'g']
              (@IsIdentifier.dot 'f' [] ['g'] rfl (by simp) (.part rfl (by simp)))
              (.of [' '] rfl) (.of [] rfl)
              (.more (.text ⟨'\x22', ['>', '\x7d'], rfl, by simp⟩) (.of [] rfl) (.of [' '] rfl)
                (.last (.emptyCall ['h'] (.part rfl (by simp)) (.of [] rfl) (.of [' '] rfl))
                  (.of [] rfl))))
            (.of [' '] rfl)⟩)] (.of [] rfl), .of [] rfl),
    (.text (.of [] rfl) ⟨'\x27', ['\x22'], rfl, by simp⟩ (.of [] rfl), .of ['\n'] rfl),
    (.endTag ⟨['b', '-', '1'], 'b', ['-', '1'], rfl, rfl, List.all_eq_true.mp rfl⟩ (.of [' '] rfl),
      .of [] rfl)]

/-- The characters of `crowdedTree`, to be read in the default way. -/
def crowdedSource : Source where
  chars := " <b-1 n =-\u0663.5\tn=2 -=\x7bf.g (\">\x7d\", h( )) \x7d>\x7b'\"'\x7d\n</b-1 >".toList

/-- The later number counts, and the quote in the text and the brackets in the string are
content. -/
theorem parseWords_crowdedSource :
    crowdedSource.options.trailingAllowed = false ∧ ({ settings := {} } : Reporter).Lenient ∧
    (parseWords crowdedSource { settings := {} }).1 = .ok [
      .startTag "b-1" (.ofList [("n", .expr (.number (.int 2))),
        ("-", .expr (.call "f.g" [.text ">\x7d", .call "h" []]))]) (some "1:2"),
      .text "\"" (some "1:41"), .endTag "b-1" (some "2:1")] ∧
    ∀ t : MarkupTree, t.chars = crowdedSource.chars → t = crowdedTree := by
  obtain ⟨haccepts, -, hunique⟩ :=
    parseWords_accepts_grammar crowdedSource rfl { settings := {} } rfl
  refine ⟨rfl, rfl, (haccepts _).mpr ⟨crowdedTree, rfl, rfl, rfl⟩, ?_⟩
  intro t ht
  exact hunique t crowdedTree ht rfl

/-- An integer of so many ones. -/
def onesLiteral (digits : Nat) : NumberLiteral := ⟨false, List.replicate digits '1', []⟩

/-- A row of ones, at least one of them, is a number. -/
theorem wellFormed_onesLiteral {digits : Nat} (h : digits ≠ 0) :
    (onesLiteral digits).WellFormed where
  whole_ne_nil := by simpa [onesLiteral] using h
  isDecimalDigit_whole := by
    intro c hc
    rw [(List.mem_replicate.mp hc).2]
    rfl
  isDecimalDigit_fraction := by simp [onesLiteral]
  isDigit_head := by
    refine .inr fun c hc => ?_
    rw [(List.mem_replicate.mp (List.mem_of_head? hc)).2]
    rfl

/-- A tag with an integer of so many ones. -/
def onesTree (digits : Nat) (h : digits ≠ 0) : MarkupTree where
  before := .of [] (by decide)
  trees := [
    (.startTag ⟨['a'], 'a', [], rfl, rfl, by simp⟩ [
      (.of [' '] (by simp) (by decide),
        ⟨⟨['x'], by simp, List.all_eq_true.mp rfl⟩, .of [] (by decide), .of [] (by decide),
          .bare (.number (onesLiteral digits) (wellFormed_onesLiteral h)) rfl⟩)]
      (.of [] (by decide)), .of [] (by decide))]

/-- The characters of such a tag, to be read in the default way. -/
def onesSource (digits : Nat) : Source where
  chars := "<a x=".toList ++ (List.replicate digits '1' ++ ['>'])

/-- The characters of the tag are those of the source. -/
theorem chars_onesTree {digits : Nat} (h : digits ≠ 0) :
    (onesTree digits h).chars = (onesSource digits).chars := by
  simp [onesTree, onesSource, onesLiteral, MarkupTree.chars, WordTrees.chars, WordTree.chars,
    attributesChars, AttributeTree.chars, ValueTree.chars, ExprTree.chars, NumberLiteral.chars]

/-- Beyond the limit the integer of the tag is overlong. -/
theorem overlong?_onesTree {digits : Nat} (h : digits ≠ 0) (hlong : digitLimit < digits) :
    (onesTree digits h).overlong? = some (onesLiteral digits) := by
  have hoverlong : (onesLiteral digits).isOverlong = true := by
    simpa [onesLiteral, NumberLiteral.isOverlong] using hlong
  exact (firstOverlong_singleton (onesLiteral digits)).trans (if_pos hoverlong)

/-- A tag whose integer has too many digits is refused. -/
theorem failure_onesSource {digits : Nat} (hlong : digitLimit < digits) :
    (onesSource digits).words.failure = some (.value (.numeralTooLong digits)) := by
  have h : digits ≠ 0 := by omega
  have hfailure := (onesSource digits).failure_of_overlong (onesTree digits h) (chars_onesTree h)
    (overlong?_onesTree h hlong)
  rwa [onesLiteral, List.length_replicate] at hfailure

/-- A text that derives from the grammar need not be parsed: an integer of 4301 digits is refused
as no value of its place. -/
theorem onesSource_not_parsed :
    (onesSource 4301).options.trailingAllowed = false ∧
    ({ settings := {} } : Reporter).Lenient ∧
    (∃ t : MarkupTree, t.chars = (onesSource 4301).chars) ∧
    (parseWords (onesSource 4301) { settings := {} }).1 =
      .error (.value (.numeralTooLong 4301)) := by
  have hlenient : ({ settings := {} } : Reporter).Lenient := rfl
  exact ⟨rfl, hlenient, ⟨onesTree 4301 (by decide), chars_onesTree (by decide)⟩,
    parseWords_eq_error_of_failure _ hlenient (failure_onesSource (by decide))⟩

end MarkupSpans
