import Mathlib.Tactic.IntervalCases
import MarkupSpans.Proofs.Concatenating
import MarkupSpans.Proofs.Grammar.Commitment

/-!
# How reading a text ends

Every text is a row of complete words with space around them, and behind that something in which no
word can be read (`exists_complete_part`).  The words are the ones that are given out, and whatever
is wrong is wrong in the rest: nothing if that is empty, an error of the grammar or an integer of
too many digits if it starts like a word, and otherwise trailing text, which is an error where it is
not allowed.
-/

set_option autoImplicit false

namespace MarkupSpans

open Grammar Text

namespace Grammar

/-! ## The part that can be read -/

/-- Neither space nor a word can be read from the front of a text. -/
structure Unreadable (cs : List Char) : Prop where
  stops_space : Stops isSpace cs
  not_matched : ∀ w rest, (readWord cs).2 ≠ .matched w rest

/-- Behind space there is no more space. -/
theorem stops_skipSpace (cs : List Char) : Stops isSpace (skipSpace cs) := by
  intro c hc
  have hhead := List.head?_dropWhile_not isSpace cs
  rw [skipSpace, Option.mem_def] at hc
  rwa [hc] at hhead

/-- A text is complete words with space around them, and something unreadable behind that. -/
theorem exists_complete_part (cs : List Char) :
    ∃ (t : MarkupTree) (rest : List Char),
      cs = t.chars ++ rest ∧ t.overlong? = none ∧ Unreadable rest := by
  induction hlength : cs.length using Nat.strongRecOn generalizing cs with
  | ind n ih =>
    obtain ⟨before, hbefore⟩ := exists_space cs
    by_cases hword : ∃ w rest, (readWord (skipSpace cs)).2 = .matched w rest
    · -- the space behind the word is the space in front of what the rest is made of
      obtain ⟨w, behind, hword⟩ := hword
      have hshorter := readWord_length hword
      have hskip := skipSpace_length cs
      obtain ⟨⟨after, trees⟩, rest, hbehind, hmore, hrest⟩ :=
        ih behind.length (by omega) behind rfl
      obtain ⟨t, ht, hshort⟩ := exists_of_readWord hword
      refine ⟨⟨before, (t, after) :: trees⟩, rest, ?_, ?_, hrest⟩
      · rw [hbefore, ht, hbehind, MarkupTree.chars, MarkupTree.chars, WordTrees.chars_cons]
        simp only [List.append_assoc]
      · rw [MarkupTree.overlong?, WordTrees.overlong?_cons, hshort, Option.none_or]
        exact hmore
    · refine ⟨⟨before, []⟩, skipSpace cs, ?_, rfl, stops_skipSpace cs, ?_⟩
      · simpa [MarkupTree.chars, WordTrees.chars] using hbefore
      · intro w rest hmatched
        exact hword ⟨w, rest, hmatched⟩

/-- The complete part of a text is read as it stands, and then the rest. -/
theorem readTokens_markup_append (allowed : Bool) {t : MarkupTree} (hshort : t.overlong? = none)
    (rest : List Char) :
    readTokens allowed (t.chars ++ rest) =
      ⟨t.trees.tokens rest.length ++ (readTokens allowed rest).read,
        (readTokens allowed rest).fault⟩ := by
  rw [MarkupTree.chars, List.append_assoc, readTokens_space_append,
    readTokens_trees_append allowed t.trees hshort]

/-! ## The rest -/

/-- Something unreadable starts no word, and is trailing text, or there is a fault in its word. -/
theorem Unreadable.cases {cs : List Char} (h : Unreadable cs) (hne : cs ≠ []) (allowed : Bool) :
    (readWord cs).2 = .missed ∧ readTokens allowed cs = readTrailing allowed cs ∨
      ∃ notices fault, readWord cs = (notices, .faulty fault) ∧
        readTokens allowed cs = .withNotices notices ⟨[], some fault⟩ := by
  have hskip := skipSpace_of_stops h.stops_space
  have hempty : (skipSpace cs).isEmpty = false := by
    rw [hskip]
    simpa using hne
  rw [readTokens]
  simp only [hempty, Bool.false_eq_true, if_false]
  split
  case h_1 notices hmissed =>
    rw [hskip] at hmissed ⊢
    exact .inl ⟨congrArg Prod.snd hmissed, rfl⟩
  case h_2 notices fault hfaulty =>
    rw [hskip] at hfaulty
    exact .inr ⟨notices, fault, hfaulty, rfl⟩
  case h_3 notices w rest hmatched =>
    rw [hskip] at hmatched
    exact absurd (congrArg Prod.snd hmatched) (h.not_matched w rest)

/-- What starts no word is trailing text. -/
theorem readTokens_of_missed (allowed : Bool) {c : Char} {more : List Char}
    (hspace : isSpace c = false) (hword : c ≠ '\x7b' ∧ c ≠ '<') :
    readTokens allowed (c :: more) = readTrailing allowed (c :: more) := by
  have hmissed : (readWord (c :: more)).2 = .missed :=
    (readWord_eq_missed_iff (c :: more)).mpr (by simpa using hword)
  have hunreadable : Unreadable (c :: more) := by
    refine ⟨(stops_cons_iff isSpace c more).mpr hspace, ?_⟩
    intro w rest hmatched
    rw [hmissed] at hmatched
    cases hmatched
  rcases hunreadable.cases (by simp) allowed with ⟨-, htrailing⟩ | ⟨notices, fault, hfaulty, -⟩
  · exact htrailing
  · rw [hfaulty] at hmissed
    cases hmissed

/-- In an unreadable text only notices are come upon. -/
theorem Unreadable.notices {cs : List Char} (h : Unreadable cs) (allowed : Bool) :
    ∃ notices : List (Placed Notice),
      (readTokens allowed cs).read = notices.map Placed.ofNotice := by
  by_cases hne : cs = []
  · rw [hne, readTokens_nil]
    exact ⟨[], rfl⟩
  · rcases h.cases hne allowed with ⟨-, htrailing⟩ | ⟨notices, fault, -, hfaulty⟩
    · rw [htrailing, readTrailing]
      split
      · exact ⟨[⟨.trailingText (trailingGarbage cs), cs.length⟩], rfl⟩
      · exact ⟨[], rfl⟩
    · rw [hfaulty]
      exact ⟨notices, List.append_nil _⟩

/-- Reading fails because of trailing text if and only if behind complete words and space something
stands that starts no word. -/
theorem readTokens_unterminated_iff (cs : List Char) :
    (∃ fault, (readTokens false cs).fault = some fault ∧
        fault.item.kind = .ok .unterminatedInput) ↔
      ∃ (t : MarkupTree) (c : Char) (rest : List Char), cs = t.chars ++ c :: rest ∧
        t.overlong? = none ∧ isSpace c = false ∧ c ≠ '\x7b' ∧ c ≠ '<' := by
  constructor
  · rintro ⟨fault, hfault, hkind⟩
    obtain ⟨t, rest, rfl, hshort, hrest⟩ := exists_complete_part cs
    rw [readTokens_markup_append false hshort] at hfault
    cases rest with
    | nil =>
      rw [readTokens_nil] at hfault
      cases hfault
    | cons c more =>
      refine ⟨t, c, more, rfl, hshort, (stops_cons_iff isSpace c more).mp hrest.stops_space, ?_⟩
      rcases hrest.cases (by simp) false with ⟨hmissed, -⟩ | ⟨notices, other, hfaulty, htokens⟩
      · simpa using (readWord_eq_missed_iff (c :: more)).mp hmissed
      · -- a word that had begun would be another error
        rw [htokens] at hfault
        cases hfault
        have hfits := (readWord_inside (c :: more)).2.fits fault (congrArg Prod.snd hfaulty)
        exact absurd hkind hfits.kind_ne
  · rintro ⟨t, c, rest, rfl, hshort, hspace, hword⟩
    rw [readTokens_markup_append false hshort, readTokens_of_missed false hspace hword]
    exact ⟨_, rfl, rfl⟩

end Grammar

/-- A decimal digit has a value below ten. -/
theorem digitValue?_of_isDecimalDigit {c : Char} (h : isDecimalDigit c = true) :
    ∃ d < 10, digitValue? c = some d := by
  obtain ⟨d, hd⟩ := Option.isSome_iff_exists.mp h
  refine ⟨d, ?_, hd⟩
  rw [digitValue?, Option.map_eq_some_iff] at hd
  obtain ⟨first, hfirst, rfl⟩ := hd
  have hrange := List.find?_some hfirst
  simp only [Bool.and_eq_true, decide_eq_true_eq] at hrange
  omega

namespace Source

/-! ## Words and places in a source -/

/-- Complete words are given out where they stand, and then what is read behind them. -/
theorem words_streamOf_trees (s : Source) (trees : WordTrees) (start : Nat) {behind : Nat}
    (tokens : Tokens) (hsize : s.size = start + (WordTrees.chars trees).length + behind) :
    (s.streamOf ⟨trees.tokens behind ++ tokens.read, tokens.fault⟩).words =
      WordTrees.words s start trees ++ (s.streamOf tokens).words := by
  induction trees generalizing start with
  | nil => rfl
  | cons pair more ih =>
    obtain ⟨t, after⟩ := pair
    rw [WordTrees.chars_cons, ← List.append_assoc, List.length_append] at hsize
    have hplace : s.locOfLeft (t.chars.length + ((after.val ++ WordTrees.chars more).length +
        behind)) = s.loc start := by
      unfold locOfLeft
      congr 1
      simp only [List.length_append] at hsize ⊢
      omega
    have hmore := ih (start + (t.chars ++ after.val).length) (by omega)
    have htokens : (⟨WordTrees.tokens ((t, after) :: more) behind ++ tokens.read, tokens.fault⟩ :
        Tokens) = .withNotices (t.notices ((after.val ++ WordTrees.chars more).length + behind))
          ⟨⟨.word t.word, t.chars.length + ((after.val ++ WordTrees.chars more).length + behind)⟩ ::
            (WordTrees.tokens more behind ++ tokens.read), tokens.fault⟩ := by
      simp [WordTrees.tokens, Tokens.withNotices, Placed.ofNotice]
    rw [htokens, words_withNotices, WordTrees.words, ← hplace, List.cons_append, ← hmore]
    rfl

/-- The words of a source are those of its complete part. -/
theorem words_of_complete_part (s : Source) {t : MarkupTree} {rest : List Char}
    (hchars : s.chars = t.chars ++ rest) (hshort : t.overlong? = none)
    (hrest : Unreadable rest) :
    s.words.words = t.words s := by
  have hsize : s.size = t.before.val.length + (WordTrees.chars t.trees).length + rest.length := by
    rw [size, hchars, MarkupTree.chars, List.length_append, List.length_append]
  obtain ⟨notices, hnotices⟩ := hrest.notices s.options.trailingAllowed
  have hnone : (s.streamOf (readTokens s.options.trailingAllowed rest)).words = [] := by
    simp only [streamOf, hnotices, WordStream.words, List.map_map, List.filterMap_map]
    rw [List.filterMap_eq_nil_iff]
    intro n _
    rfl
  rw [words_eq, hchars, readTokens_markup_append _ hshort, s.words_streamOf_trees t.trees _ _ hsize, hnone,
    List.append_nil, MarkupTree.words]

/-- Every word of a source has a derivation without an overlong integer, and the place where it was
read. -/
theorem exists_wordTree_of_mem (s : Source) {w : Word} (hw : w ∈ s.words.words) :
    ∃ (t : WordTree) (k : Nat), w = t.word.withLoc (some (s.loc k)) ∧ t.overlong? = none := by
  obtain ⟨t, rest, hchars, hshort, hrest⟩ := exists_complete_part s.chars
  rw [s.words_of_complete_part hchars hshort hrest, MarkupTree.words] at hw
  change t.trees.overlong? = none at hshort
  generalize t.before.val.length = start at hw
  generalize t.trees = trees at hw hshort
  clear hchars
  induction trees generalizing start with
  | nil => cases hw
  | cons pair more ih =>
    obtain ⟨tree, after⟩ := pair
    rw [WordTrees.overlong?_cons, Option.or_eq_none_iff] at hshort
    rcases List.mem_cons.mp hw with rfl | hw
    · exact ⟨tree, start, rfl, hshort.1⟩
    · exact ih _ hw hshort.2

/-- Every place of a source can be written. -/
def HasWritablePlaces (s : Source) : Prop := ∀ k : Nat, k ≤ s.size → s.writeLoc k = .ok (s.loc k)

/-- What can stop the reading of a source behind its complete part, which `taken` characters are
taken up by and where `rest` is left: an error of the grammar, or trailing text where that is not
allowed, at a place inside that rest, or an integer of too many digits that stands there. -/
inductive Stop (s : Source) (taken : Nat) (rest : List Char) : Failure → Prop
  | compile {e : CompileError} {k : Nat} {loc : String} (hloc : e.loc = some loc)
      (hwritten : s.writeLoc k = .ok loc) (hbehind : taken ≤ k) (hinside : k ≤ s.size)
      (hkind : e.kind = .grammar ∨
        e.kind = .unterminatedInput ∧ s.options.trailingAllowed = false) :
      Stop s taken rest (.compile e)
  | overlong {digits : Nat} (hlong : digitLimit < digits) (hrest : HasDigits digits rest) :
      Stop s taken rest (.value (.numeralTooLong digits))

/-- What stops the reading of a source stands behind its complete part. -/
theorem stop_of_failure {s : Source} (hplaces : s.HasWritablePlaces) {t : MarkupTree}
    {rest : List Char} (hchars : s.chars = t.chars ++ rest) (hshort : t.overlong? = none) {e : Failure}
    (he : s.words.failure = some e) : s.Stop t.chars.length rest e := by
  rw [words_eq, hchars, readTokens_markup_append _ hshort] at he
  simp only [streamOf, Option.map_eq_some_iff] at he
  obtain ⟨fault, hfault, rfl⟩ := he
  obtain ⟨hleft, hsort⟩ := (readTokens_inside s.options.trailingAllowed rest).2 fault hfault
  have hsize : s.size = t.chars.length + rest.length := by
    rw [size, hchars, List.length_append]
  have hinside : fault.left ≤ s.size := by omega
  have hwritten : s.writeLoc (s.size - fault.left : Nat) = .ok (s.locOfLeft fault.left) := by
    rw [s.locOfLeft_eq hinside]
    exact hplaces _ (Nat.sub_le _ _)
  rcases hsort with hfits | ⟨htrailing, hallowed⟩
  · rcases hfits.failure_eq (s.locOfLeft fault.left) with hgrammar | ⟨digits, hlong, hrest, hvalue⟩
    · rw [failureOf, hgrammar]
      exact .compile rfl hwritten (by omega) (by omega) (.inl rfl)
    · rw [failureOf, hvalue]
      exact .overlong hlong hrest
  · rw [failureOf, SyntaxFault.failure, htrailing]
    exact .compile rfl hwritten (by omega) (by omega) (.inr ⟨rfl, hallowed⟩)

/-- The errors of a source are those of the grammar, and trailing text where that is not allowed. -/
theorem kind_of_failure (s : Source) {e : CompileError}
    (he : s.words.failure = some (.compile e)) :
    e.kind = .grammar ∨ e.kind = .unterminatedInput ∧ s.options.trailingAllowed = false := by
  rw [words_eq] at he
  simp only [streamOf, Option.map_eq_some_iff] at he
  obtain ⟨fault, hfault, he⟩ := he
  obtain ⟨-, hsort⟩ := (readTokens_inside s.options.trailingAllowed s.chars).2 fault hfault
  rcases hsort with hfits | ⟨htrailing, hallowed⟩
  · rcases hfits.failure_eq (s.locOfLeft fault.left) with hgrammar | ⟨digits, -, -, hvalue⟩
    · rw [failureOf, hgrammar] at he
      cases he
      exact .inl rfl
    · rw [failureOf, hvalue] at he
      cases he
  · rw [failureOf, SyntaxFault.failure, htrailing] at he
    cases he
    exact .inr ⟨rfl, hallowed⟩

/-- A source fails because of trailing text where that is an error and behind complete words and
space something stands that starts no word, and nowhere else. -/
theorem unterminated_iff (s : Source) (hstrict : s.options.trailingAllowed = false) :
    (∃ e, s.words.failure = some (.compile e) ∧ e.kind = .unterminatedInput) ↔
      ∃ (t : MarkupTree) (c : Char) (rest : List Char), s.chars = t.chars ++ c :: rest ∧
        t.overlong? = none ∧ isSpace c = false ∧ c ≠ '\x7b' ∧ c ≠ '<' := by
  rw [← readTokens_unterminated_iff, words_eq, hstrict]
  simp only [streamOf, Option.map_eq_some_iff]
  constructor
  · rintro ⟨e, ⟨fault, hfault, he⟩, hkind⟩
    refine ⟨fault, hfault, ?_⟩
    rw [failureOf, SyntaxFault.failure] at he
    cases hfaultKind : fault.item.kind with
    | ok kind =>
      simp only [hfaultKind, Failure.compile.injEq] at he
      rw [← hkind, ← he]
    | error value => simp [hfaultKind] at he
  · rintro ⟨fault, hfault, hkind⟩
    refine ⟨⟨.unterminatedInput, fault.item.message, some (s.locOfLeft fault.left)⟩,
      ⟨fault, hfault, ?_⟩, rfl⟩
    rw [failureOf, SyntaxFault.failure, hkind]

/-! ## The main result -/

/-- Where warnings do not end the run and places can be written, a source gives the words of its
complete part, and then ends or is stopped by something behind that part: by one of two errors,
whose place lies behind these words and inside the text, or by an integer of more digits than can be
read.  No rule that has begun turns out to be the wrong one, and every number that is read has a
value. -/
theorem faults_of_delivery (s : Source) (hplaces : s.HasWritablePlaces) (r : Reporter)
    (hr : r.Lenient) :
    let delivery := s.words.deliver r
    (∃ (t : MarkupTree) (rest : List Char),
      s.chars = t.chars ++ rest ∧ t.overlong? = none ∧ delivery.words = t.words s ∧
      ∀ failure, delivery.failure = some failure → s.Stop t.chars.length rest failure) ∧
    -- trailing text is an error exactly where something stands that starts no word
    (s.options.trailingAllowed = false →
      ((∃ e, delivery.failure = some (.compile e) ∧ e.kind = .unterminatedInput) ↔
        ∃ (t : MarkupTree) (c : Char) (rest : List Char), s.chars = t.chars ++ c :: rest ∧
          t.overlong? = none ∧ isSpace c = false ∧ c ≠ '\x7b' ∧ c ≠ '<')) ∧
    -- a text whose derivation holds an integer of too many digits is stopped by the first of them
    (∀ t : MarkupTree, t.chars = s.chars → ∀ n, t.overlong? = some n →
      delivery.failure = some (.value (.numeralTooLong n.whole.length))) ∧
    -- behind a quote, a parenthesis or a bracket something is read or is faulty
    ((∀ cs, readString cs = .missed ↔ ∀ c ∈ cs.head?, isQuote c = false) ∧
      (∀ function inside, readArguments function ('(' :: inside) ≠ .missed) ∧
      ∀ cs, (readWord cs).2 = .missed ↔ ∀ c ∈ cs.head?, c ≠ '\x7b' ∧ c ≠ '<') ∧
    -- a number is made of digits
    ∀ cs literal rest, readNumberLiteral cs = some (literal, rest) →
      cs = literal.chars ++ rest ∧ literal.whole ≠ [] ∧
        ∀ c ∈ literal.whole ++ literal.fraction, ∃ d < 10, digitValue? c = some d := by
  intro delivery
  obtain ⟨r', hdelivery⟩ := deliverItems_of_lenient s.words.failure s.words.items hr
  have hwords : delivery.words = s.words.words := congrArg Delivery.words hdelivery
  have hfailure : delivery.failure = s.words.failure := congrArg Delivery.failure hdelivery
  refine ⟨?_, ?_, ?_, ⟨readString_eq_missed_iff, readArguments_ne_missed, readWord_eq_missed_iff⟩,
    ?_⟩
  · obtain ⟨t, rest, hchars, hshort, hrest⟩ := exists_complete_part s.chars
    refine ⟨t, rest, hchars, hshort,
      hwords.trans (s.words_of_complete_part hchars hshort hrest), ?_⟩
    intro failure hfailed
    exact stop_of_failure hplaces hchars hshort (hfailure ▸ hfailed)
  · intro hstrict
    rw [← s.unterminated_iff hstrict, hfailure]
  · intro t ht n hlong
    exact hfailure.trans (s.failure_of_overlong t ht hlong)
  · intro cs literal rest hread
    obtain ⟨hchars, hne, hwhole, hfraction⟩ := readNumberLiteral_sound hread
    refine ⟨hchars, hne, ?_⟩
    intro c hc
    apply digitValue?_of_isDecimalDigit
    rcases List.mem_append.mp hc with hc | hc
    · exact hwhole c hc
    · exact hfraction c hc

/-- A text word, and a word that is none. -/
def trailingSource : Source where
  chars := "\x7b\"a\"\x7d oops".toList

/-- Trailing text is an error where it is not allowed. -/
theorem faults_of_trailingSource :
    let r : Reporter := { settings := {} }
    let delivery := trailingSource.words.deliver r
    trailingSource.HasWritablePlaces ∧ r.Lenient ∧
      ∃ (e : CompileError) (k : Nat) (loc : String), delivery.failure = some (.compile e) ∧
        e.kind = .unterminatedInput ∧ e.loc = some loc ∧ trailingSource.writeLoc k = .ok loc ∧
        k ≤ 10 := by
  intro r delivery
  have hplaces : trailingSource.HasWritablePlaces := by
    intro k hk
    have hk : k ≤ 10 := hk
    interval_cases k <;> rfl
  obtain ⟨⟨t, rest, -, -, -, hfailures⟩, htrailing, -⟩ :=
    faults_of_delivery trailingSource hplaces r rfl
  obtain ⟨e, he, hkind⟩ := (htrailing rfl).mpr
    ⟨⟨.of [] rfl, [(.text (.of [] rfl) ⟨'\x22', ['a'], rfl, by simp⟩ (.of [] rfl), .of [' '] rfl)]⟩,
      'o', "ops".toList, rfl, rfl, rfl, by decide, by decide⟩
  refine ⟨hplaces, rfl, e, ?_⟩
  cases hfailures _ he with
  | compile hloc hwritten hbehind hinside _ => exact ⟨_, _, he, hkind, hloc, hwritten, hinside⟩

/-- Not only errors of the text stop its reading: an integer of 4301 digits is no value of its
place. -/
theorem onesSource_stops_otherwise :
    let r : Reporter := { settings := {} }
    let delivery := (onesSource 4301).words.deliver r
    r.Lenient ∧ delivery.failure = some (.value (.numeralTooLong 4301)) ∧
      ∀ e, delivery.failure ≠ some (.compile e) := by
  intro r delivery
  have hlenient : r.Lenient := rfl
  obtain ⟨r', hdelivery⟩ :=
    deliverItems_of_lenient (onesSource 4301).words.failure (onesSource 4301).words.items hlenient
  have hfailure : delivery.failure = some (.value (.numeralTooLong 4301)) :=
    (congrArg Delivery.failure hdelivery).trans (failure_onesSource (by decide))
  refine ⟨hlenient, hfailure, ?_⟩
  intro e he
  rw [hfailure] at he
  cases he

end Source

end MarkupSpans
