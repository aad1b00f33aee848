import Mathlib.Data.List.Forall2
import MarkupSpans.Proofs.Delivering
import MarkupSpans.Proofs.Grammar.Concatenation
import MarkupSpans.Proofs.Grammar.Inside
import MarkupSpans.Proofs.Place

/-!
# Texts one behind the other

A text behind another one gives the words that it gives alone, with all places moved
(`Source.wordsFrom_behind`); behind whole lines only the number of the first line changes
(`Source.wordsFrom_behind_lines`).  If the text in front is read completely, the words of both
together are its own and then those (`Source.words_behind`).

The same holds of what a new reporter prints: it prints nothing twice, but reports about different
places are different.
-/

set_option autoImplicit false

namespace MarkupSpans

open Grammar Report

/-! ## Streams that differ in their places -/

section

variable (R : String → String → Prop)

/-- Two items are alike but for places, which are related. -/
inductive StreamItem.Related : StreamItem → StreamItem → Prop
  | word (w : Word) {loc loc' : String} (h : R loc loc') :
      Related (.word (w.withLoc (some loc))) (.word (w.withLoc (some loc')))
  | notice (n : Notice) {loc loc' : String} (h : R loc loc') :
      Related (.notice n loc) (.notice n loc')

/-- Two errors are alike but for their places, which are related. -/
def CompileError.Related (e e' : CompileError) : Prop :=
  e.kind = e'.kind ∧ e.message = e'.message ∧
    ∃ loc loc', e.loc = some loc ∧ e'.loc = some loc' ∧ R loc loc'

/-- Two failures are alike but for their places, if they have any, which are related. -/
inductive Failure.Related : Failure → Failure → Prop
  | compile {e e' : CompileError} (h : CompileError.Related R e e') :
      Related (.compile e) (.compile e')
  | value (fault : ValueFault) : Related (.value fault) (.value fault)

/-- Two streams are alike but for places, which are related one by one. -/
structure WordStream.Related (stream stream' : WordStream) : Prop where
  items : List.Forall₂ (StreamItem.Related R) stream.items stream'.items
  failure : Option.Rel (Failure.Related R) stream.failure stream'.failure

/-- A fault at related places. -/
theorem Grammar.SyntaxFault.failure_related (fault : SyntaxFault) {loc loc' : String}
    (h : R loc loc') : Failure.Related R (fault.failure loc) (fault.failure loc') := by
  unfold SyntaxFault.failure
  cases fault.kind with
  | ok kind => exact .compile ⟨rfl, rfl, loc, loc', rfl, rfl, h⟩
  | error value => exact .value value

end

namespace Source

/-- A place of the text, and the same place behind another text: the line is moved by the line
feeds of that text, and on the first line the column by the length of its last line. -/
def Moved (first : List Char) (s : Source) (loc loc' : String) : Prop :=
  ∃ j : Nat, j ≤ s.size ∧ loc = s.loc j ∧
    loc' = s.placeText (s.line j + first.count '\n')
      (s.column j + if s.line j = s.startLine then (lastLineLength first : Int) else 0)

/-- The place where so many characters are left, told by its index. -/
theorem locOfLeft_eq (s : Source) {left : Nat} (h : left ≤ s.size) :
    s.locOfLeft left = s.loc (s.size - left : Nat) := by
  unfold locOfLeft
  congr 1
  omega

/-- The place of the same character behind another text. -/
theorem locOfLeft_behind (first : List Char) (s : Source) {left : Nat} (h : left ≤ s.size) :
    (s.behind first).locOfLeft left =
      (s.behind first).loc (first.length + (s.size - left) : Nat) := by
  have hsize : (s.behind first).size = first.length + s.size := List.length_append
  rw [locOfLeft_eq _ (by omega), hsize]
  congr 2
  omega

/-- Where so many characters are left, the place behind another text is the moved one. -/
theorem moved_locOfLeft (first : List Char) (s : Source) {left : Nat} (h : left ≤ s.size) :
    s.Moved first (s.locOfLeft left) ((s.behind first).locOfLeft left) := by
  refine ⟨s.size - left, Nat.sub_le _ _, s.locOfLeft_eq h, ?_⟩
  rw [s.locOfLeft_behind first h, s.loc_behind first (Nat.sub_le _ _)]

/-- Behind whole lines only the number of the first line changes. -/
theorem locOfLeft_behind_lines {first : List Char}
    (hfirst : first = [] ∨ first.getLast? = some '\n') (s : Source) {left : Nat}
    (h : left ≤ s.size) :
    (s.behind first).locOfLeft left =
      ({ s with startLine := s.startLine + first.count '\n' } : Source).locOfLeft left := by
  rw [s.locOfLeft_behind first h, s.loc_behind_lines hfirst (Nat.sub_le _ _)]
  exact (locOfLeft_eq { s with startLine := s.startLine + first.count '\n' } h).symm

/-- What stands behind a text does not change its places. -/
theorem locOfLeft_in_front (first : List Char) (s : Source) (left : Nat) :
    (s.behind first).locOfLeft (left + s.size) =
      ({ s with chars := first } : Source).locOfLeft left := by
  have hsize : (s.behind first).size = first.length + s.size := List.length_append
  have hindex : ((s.behind first).size : Int) - (left + s.size : Nat) = first.length - left := by
    omega
  unfold locOfLeft
  rw [hindex, s.loc_in_front first (by omega)]
  rfl

/-- The words of a source are read from all of its text. -/
theorem words_eq (s : Source) :
    s.words = s.streamOf (readTokens s.options.trailingAllowed s.chars) := rfl

/-- From where a text in front ends, the text behind it is read. -/
theorem wordsFrom_length (first : List Char) (s : Source) :
    (s.behind first).wordsFrom first.length =
      (s.behind first).streamOf (readTokens s.options.trailingAllowed s.chars) := by
  have hstart : ¬ (first.length : Int) < 0 := by omega
  rw [wordsFrom, if_neg hstart, suffix, if_neg hstart]
  simp [behind]

/-- Behind another text, whatever that is, a text gives the same words and notices, and ends in
the same way, with all places moved. -/
theorem wordsFrom_behind (first : List Char) (s : Source) :
    WordStream.Related (s.Moved first) s.words ((s.behind first).wordsFrom first.length) := by
  obtain ⟨hread, hfault⟩ := readTokens_inside s.options.trailingAllowed s.chars
  rw [words_eq, wordsFrom_length]
  constructor
  · simp only [streamOf]
    rw [List.forall₂_map_left_iff, List.forall₂_map_right_iff, List.forall₂_same]
    intro token htoken
    have hmoved := s.moved_locOfLeft first (hread token htoken)
    obtain ⟨item, left⟩ := token
    cases item with
    | word w => exact .word w hmoved
    | notice n => exact .notice n hmoved
  · simp only [streamOf]
    cases hend : (readTokens s.options.trailingAllowed s.chars).fault with
    | none => exact .none
    | some fault =>
      exact .some (fault.item.failure_related _ (s.moved_locOfLeft first (hfault fault hend).1))

/-- Behind whole lines a text gives what it gives alone if its lines are numbered from there. -/
theorem wordsFrom_behind_lines {first : List Char}
    (hfirst : first = [] ∨ first.getLast? = some '\n') (s : Source) :
    (s.behind first).wordsFrom first.length =
      ({ s with startLine := s.startLine + first.count '\n' } : Source).words := by
  obtain ⟨hread, hfault⟩ := readTokens_inside s.options.trailingAllowed s.chars
  rw [words_eq, wordsFrom_length]
  simp only [streamOf, WordStream.mk.injEq]
  constructor
  · apply List.map_congr_left
    intro token htoken
    unfold itemOf
    rw [s.locOfLeft_behind_lines hfirst (hread token htoken)]
  · cases hend : (readTokens s.options.trailingAllowed s.chars).fault with
    | none => rfl
    | some fault =>
      simp only [Option.map_some, failureOf]
      rw [s.locOfLeft_behind_lines hfirst (hfault fault hend).1]

/-- A text that is read completely gives its words whatever stands behind it, and what stands
behind it gives what it gives there. -/
theorem words_behind {first : List Char} (hfirst : (readTokens false first).fault = none)
    (s : Source) :
    (s.behind first).words =
      ⟨({ s with chars := first } : Source).words.items ++
        ((s.behind first).wordsFrom first.length).items,
        ((s.behind first).wordsFrom first.length).failure⟩ := by
  have htokens := readTokens_append s.options.trailingAllowed hfirst s.chars
  have hwords : (s.behind first).words = (s.behind first).streamOf
      (readTokens s.options.trailingAllowed (first ++ s.chars)) := rfl
  rw [hwords, htokens, wordsFrom_length, words_eq]
  simp only [streamOf, List.map_append, List.map_map, WordStream.mk.injEq, and_true]
  congr 1
  apply List.map_congr_left
  intro token _
  show (s.behind first).itemOf (token.shift s.chars.length) = _
  have hplace := s.locOfLeft_in_front first token.left
  unfold itemOf Placed.shift
  change (s.behind first).locOfLeft (token.left + s.chars.length) = _ at hplace
  simp only [hplace]

/-! ## Two texts and one reporter -/

/-- A notice has the place of something that was come upon. -/
theorem exists_left_of_notice_mem {s : Source} {tokens : Tokens} {n : Notice} {loc : String}
    (h : .notice n loc ∈ (s.streamOf tokens).items) :
    ∃ token ∈ tokens.read, loc = s.locOfLeft token.left := by
  obtain ⟨token, htoken, heq⟩ := List.mem_map.mp h
  refine ⟨token, htoken, ?_⟩
  obtain ⟨item, left⟩ := token
  cases item with
  | word w => cases heq
  | notice n' =>
    cases heq
    rfl

/-- The notices of a text and those of a text behind it are reported differently. -/
theorem noticeReport_ne {first : List Char} (hfirst : (readTokens false first).fault = none)
    (s : Source) (mode : PrintMode) {n n' : Notice} {loc loc' : String}
    (hn : .notice n loc ∈ ({ s with chars := first } : Source).words.items)
    (hn' : .notice n' loc' ∈ ((s.behind first).wordsFrom first.length).items) :
    noticeReport mode n loc ≠ noticeReport mode n' loc' := by
  obtain ⟨token, htoken, rfl⟩ := exists_left_of_notice_mem hn
  rw [wordsFrom_length] at hn'
  obtain ⟨token', htoken', rfl⟩ := exists_left_of_notice_mem hn'
  -- the first notice stands in front of the end of its text, the second one not
  have hpos := left_pos_of_mem_readTokens hfirst htoken
  have hinside := (readTokens_inside _ first).1 token htoken
  have hinside' : token'.left ≤ s.size := (readTokens_inside _ s.chars).1 token' htoken'
  have hsize : (s.behind first).size = first.length + s.size := List.length_append
  intro hreport
  rw [← s.locOfLeft_in_front first, locOfLeft_eq _ (by omega), locOfLeft_eq _ (by omega)]
    at hreport
  obtain ⟨hline, hcolumn⟩ := render_warning_inj hreport
  have hindex := index_eq_of_place (by omega) (by omega) hline hcolumn
  omega

/-- Behind a text that is read completely a new reporter prints what it prints for that text, and
then what a new one prints for the rest. -/
theorem deliver_behind {first : List Char} (hfirst : (readTokens false first).fault = none)
    (s : Source) (settings : Settings) (asciiOutput : Bool)
    (hr : ({ settings, asciiOutput } : Reporter).Lenient) :
    let r : Reporter := { settings, asciiOutput }
    let whole := (s.behind first).words.deliver r
    let front := ({ s with chars := first } : Source).words.deliver r
    let back := ((s.behind first).wordsFrom first.length).deliver r
    front.failure = none ∧ whole.words = front.words ++ back.words ∧
      whole.failure = back.failure ∧
      whole.reporter.output = front.reporter.output ++ back.reporter.output := by
  intro r whole front back
  have hnone : ({ s with chars := first } : Source).words.failure = none := by
    rw [words_eq]
    simp [streamOf, readTokens_fault_eq_none _ hfirst]
  have hfront : front = deliverItems none ({ s with chars := first } : Source).words.items r := by
    show deliverItems _ _ r = _
    rw [hnone]
  let rest := (s.behind first).wordsFrom first.length
  let later := deliverItems rest.failure rest.items front.reporter
  have hwhole : whole = ⟨front.words ++ later.words, later.failure, later.reporter⟩ := by
    show (s.behind first).words.deliver r = ⟨front.words ++ (deliverItems _ _ front.reporter).words,
      (deliverItems _ _ front.reporter).failure, (deliverItems _ _ front.reporter).reporter⟩
    rw [s.words_behind hfirst, hfront]
    exact deliverItems_append _ _ _ hr
  -- the reporter behind the first text differs from a new one only in what it has seen and printed
  obtain ⟨hsettings, hascii, hseen⟩ := deliverItems_reporter
    ({ s with chars := first } : Source).words.items none hr
  rw [← hfront] at hsettings hascii hseen
  have hafter : Reporter.After front.reporter.seen front.reporter.output r front.reporter :=
    ⟨hsettings, hascii, rfl, by simp [r]⟩
  have hnew : ∀ n loc, .notice n loc ∈ rest.items →
      noticeReport r.settings.printMode n loc ∉ front.reporter.seen := by
    intro n loc hmem hreport
    rcases hseen _ hreport with hold | ⟨n', loc', hmem', heq⟩
    · cases hold
    · exact s.noticeReport_ne hfirst _ hmem' hmem heq.symm
  obtain ⟨hwords, hfailure, hlast⟩ := deliverItems_after rest.items rest.failure hafter hr hnew
  obtain ⟨r', hdelivered⟩ := deliverItems_of_lenient none
    ({ s with chars := first } : Source).words.items hr
  refine ⟨?_, ?_, ?_, ?_⟩
  · rw [hfront, hdelivered]
  · rw [hwhole]
    exact congrArg (front.words ++ ·) hwords
  · rw [hwhole]
    exact hfailure
  · rw [hwhole]
    exact hlast.output_eq

/-- Tokenizing is compositional.  Behind any text, from where that ends, a text gives its own
words, notices and error, with moved places; behind whole lines just its first line has another
number.  If moreover the text in front is read completely where trailing text is an error, both
together give the words and notices of that text and then those, also as a new reporter prints
them that no warning makes exit. -/
theorem words_of_concatenation (first : List Char) (s : Source) :
    WordStream.Related (s.Moved first) s.words ((s.behind first).wordsFrom first.length) ∧
    (first = [] ∨ first.getLast? = some '\n' → (s.behind first).wordsFrom first.length =
      ({ s with startLine := s.startLine + first.count '\n' } : Source).words) ∧
    (({ s with chars := first, options := { s.options with trailingAllowed := false } } :
        Source).words.failure = none →
      (s.behind first).words =
        ⟨({ s with chars := first } : Source).words.items ++
          ((s.behind first).wordsFrom first.length).items,
          ((s.behind first).wordsFrom first.length).failure⟩ ∧
      ({ s with chars := first } : Source).words.failure = none ∧
      ∀ (settings : Settings) (asciiOutput : Bool),
        let r : Reporter := { settings, asciiOutput }
        r.Lenient →
        let whole := (s.behind first).words.deliver r
        let front := ({ s with chars := first } : Source).words.deliver r
        let back := ((s.behind first).wordsFrom first.length).deliver r
        whole.words = front.words ++ back.words ∧ whole.failure = back.failure ∧
          whole.reporter.output = front.reporter.output ++ back.reporter.output) := by
  refine ⟨s.wordsFrom_behind first, fun hfirst => wordsFrom_behind_lines hfirst s, ?_⟩
  intro hcomplete
  have hfirst : (readTokens false first).fault = none := by
    simpa [words_eq, streamOf] using hcomplete
  refine ⟨s.words_behind hfirst, ?_, ?_⟩
  · rw [words_eq]
    simp [streamOf, readTokens_fault_eq_none _ hfirst]
  · intro settings asciiOutput r hr
    exact (s.deliver_behind hfirst settings asciiOutput hr).2

/-- The same text twice: the first one ends inside a line, so the second one begins there.  Behind
a line feed the text begins on the second line. -/
theorem words_of_crowdedSource_twice :
    let twice := crowdedSource.behind crowdedSource.chars
    let rest := twice.wordsFrom crowdedSource.chars.length
    let r : Reporter := { settings := {} }
    crowdedSource.words.failure = none ∧ r.Lenient ∧
    WordStream.Related (crowdedSource.Moved crowdedSource.chars) crowdedSource.words rest ∧
    twice.words = ⟨crowdedSource.words.items ++ rest.items, none⟩ ∧
    (twice.words.deliver r).reporter.output =
      (crowdedSource.words.deliver r).reporter.output ++ (rest.deliver r).reporter.output ∧
    (crowdedSource.behind ['\n']).wordsFrom 1 =
      ({ crowdedSource with startLine := 2 } : Source).words := by
  intro twice rest r
  obtain ⟨hrelated, -, hcomplete⟩ := words_of_concatenation crowdedSource.chars crowdedSource
  have hfailure : crowdedSource.words.failure = none :=
    (crowdedSource.words_of_derivation crowdedTree rfl rfl).1
  obtain ⟨hwords, -, hdelivered⟩ := hcomplete hfailure
  have hrest : rest.failure = none := by
    have hend := hrelated.failure
    rw [hfailure] at hend
    cases hnone : rest.failure with
    | none => rfl
    | some e =>
      change Option.Rel _ none rest.failure at hend
      rw [hnone] at hend
      cases hend
  obtain ⟨-, -, houtput⟩ := hdelivered {} false rfl
  refine ⟨hfailure, rfl, hrelated, ?_, houtput, ?_⟩
  · rw [← hrest]
    exact hwords
  · exact (words_of_concatenation ['\n'] crowdedSource).2.1 (.inr rfl)

end Source

end MarkupSpans
