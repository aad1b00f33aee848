import MarkupSpans.Proofs.Faults
import MarkupSpans.Proofs.Warnings

/-!
# Repeated attributes

A tag that gives an attribute several times keeps its first place and its last value, and every
occurrence but the first one is reported with the place where it stands.  These places grow from
one occurrence to the next (`Grammar.WordTrees.pairwise_repetitions`), so no two of the reports are
alike, and a new reporter prints them all.
-/

set_option autoImplicit false

namespace MarkupSpans

open Grammar Report

namespace Grammar

/-! ## Occurrences of names -/

/-- The names of some attributes, each with the index where it stands; the first character of all
stands at `start`. -/
def nameOccurrences (start : Nat) : List (Gap × AttributeTree) → List (String × Nat)
  | [] => []
  | (gap, a) :: more =>
    (String.ofList a.name, start + gap.val.length) ::
      nameOccurrences (start + (gap.val ++ a.chars).length) more

/-- The occurrences of names that stand in front, `before` included. -/
def laterOccurrences {α : Type} : List String → List (String × α) → List (String × α)
  | _, [] => []
  | before, occurrence :: rest =>
    (if occurrence.1 ∈ before then [occurrence] else []) ++
      laterOccurrences (before ++ [occurrence.1]) rest

/-- An attribute that a tag has given before, and the index where it stands. -/
structure Repetition where
  tag : String
  name : String
  index : Nat

/-- The repeated attributes of a word that begins at `start`. -/
def WordTree.repetitions (start : Nat) : WordTree → List Repetition
  | .startTag name attributes _ =>
    (laterOccurrences [] (nameOccurrences (start + 1 + name.val.length) attributes)).map
      fun occurrence => ⟨String.ofList name, occurrence.1, occurrence.2⟩
  | _ => []

/-- The repeated attributes of some words with space behind each. -/
def WordTrees.repetitions : Nat → WordTrees → List Repetition
  | _, [] => []
  | start, (t, after) :: more =>
    t.repetitions start ++ WordTrees.repetitions (start + (t.chars ++ after.val).length) more

/-- The repeated attributes of a whole text. -/
def MarkupTree.repetitions (t : MarkupTree) : List Repetition :=
  WordTrees.repetitions t.before.val.length t.trees

/-! ## Places grow -/

/-- Later occurrences are some of the occurrences, in their order. -/
theorem laterOccurrences_sublist {α : Type} (before : List String)
    (occurrences : List (String × α)) :
    (laterOccurrences before occurrences).Sublist occurrences := by
  induction occurrences generalizing before with
  | nil => exact List.Sublist.slnil
  | cons occurrence rest ih =>
    rw [laterOccurrences]
    split
    · exact (ih _).cons_cons occurrence
    · exact (ih _).cons occurrence

/-- The attributes are as long as the first one with its gap and the others. -/
theorem attributesChars_length_cons (gap : Gap) (a : AttributeTree)
    (more : List (Gap × AttributeTree)) : (attributesChars ((gap, a) :: more)).length =
      (gap.val ++ a.chars).length + (attributesChars more).length := by
  rw [attributesChars, List.flatMap_cons, List.length_append, attributesChars]

/-- The attributes of a tag begin inside it. -/
theorem nameOccurrences_bounds {start : Nat} {attributes : List (Gap × AttributeTree)}
    {occurrence : String × Nat} (h : occurrence ∈ nameOccurrences start attributes) :
    start ≤ occurrence.2 ∧ occurrence.2 < start + (attributesChars attributes).length := by
  induction attributes generalizing start with
  | nil => cases h
  | cons pair more ih =>
    obtain ⟨gap, a⟩ := pair
    have hlength := attributesChars_length_cons gap a more
    obtain ⟨c, tail, hchars, -⟩ := a.exists_cons
    rcases List.mem_cons.mp h with rfl | h
    · rw [hlength, List.length_append, hchars, List.length_cons]
      dsimp only
      omega
    · obtain ⟨hlow, hhigh⟩ := ih h
      rw [hlength]
      omega

/-- Later attributes begin at later places. -/
theorem pairwise_nameOccurrences (start : Nat) (attributes : List (Gap × AttributeTree)) :
    (nameOccurrences start attributes).Pairwise fun one other => one.2 < other.2 := by
  induction attributes generalizing start with
  | nil => exact List.Pairwise.nil
  | cons pair more ih =>
    obtain ⟨gap, a⟩ := pair
    refine List.Pairwise.cons ?_ (ih _)
    intro other hother
    obtain ⟨hlow, -⟩ := nameOccurrences_bounds hother
    obtain ⟨c, tail, hchars, -⟩ := a.exists_cons
    rw [List.length_append, hchars, List.length_cons] at hlow
    dsimp only
    omega

/-- The repetitions of a word lie inside it. -/
theorem WordTree.repetitions_bounds {t : WordTree} {start : Nat} {one : Repetition}
    (h : one ∈ t.repetitions start) : start ≤ one.index ∧ one.index < start + t.chars.length := by
  cases t with
  | text before s after => cases h
  | endTag name after => cases h
  | startTag name attributes after =>
    obtain ⟨occurrence, hmem, rfl⟩ := List.mem_map.mp h
    have hbounds := nameOccurrences_bounds ((laterOccurrences_sublist _ _).mem hmem)
    simp only [chars, List.length_cons, List.length_append]
    omega

/-- Later repetitions of a word lie at later places. -/
theorem WordTree.pairwise_repetitions (t : WordTree) (start : Nat) :
    (t.repetitions start).Pairwise fun one other => one.index < other.index := by
  cases t with
  | text before s after => exact List.Pairwise.nil
  | endTag name after => exact List.Pairwise.nil
  | startTag name attributes after =>
    rw [repetitions, List.pairwise_map]
    exact (pairwise_nameOccurrences _ attributes).sublist (laterOccurrences_sublist _ _)

/-- The repetitions of a row of words lie inside it. -/
theorem WordTrees.repetitions_bounds {trees : WordTrees} {start : Nat} {one : Repetition}
    (h : one ∈ trees.repetitions start) :
    start ≤ one.index ∧ one.index < start + (WordTrees.chars trees).length := by
  induction trees generalizing start with
  | nil => cases h
  | cons pair more ih =>
    obtain ⟨t, after⟩ := pair
    rw [WordTrees.chars_cons, ← List.append_assoc, List.length_append]
    rcases List.mem_append.mp h with h | h
    · obtain ⟨hlow, hhigh⟩ := t.repetitions_bounds h
      rw [List.length_append]
      omega
    · obtain ⟨hlow, hhigh⟩ := ih h
      omega

/-- Repeated attributes are told in the order of the text. -/
theorem WordTrees.pairwise_repetitions (trees : WordTrees) (start : Nat) :
    (trees.repetitions start).Pairwise fun one other => one.index < other.index := by
  induction trees generalizing start with
  | nil => exact List.Pairwise.nil
  | cons pair more ih =>
    obtain ⟨t, after⟩ := pair
    refine List.pairwise_append.mpr ⟨t.pairwise_repetitions start, ih _, ?_⟩
    intro one hone other hother
    have hfront := t.repetitions_bounds hone
    have hback := WordTrees.repetitions_bounds hother
    rw [List.length_append] at hback
    omega

/-! ## What is read of repetitions -/

/-- Which occurrences are later ones depends on their names only. -/
theorem laterOccurrences_map {α β : Type} (f : α → β) (before : List String)
    (occurrences : List (String × α)) :
    laterOccurrences before (occurrences.map (Prod.map id f)) =
      (laterOccurrences before occurrences).map (Prod.map id f) := by
  induction occurrences generalizing before with
  | nil => rfl
  | cons occurrence rest ih =>
    rw [List.map_cons, laterOccurrences, laterOccurrences, List.map_append, ← ih]
    congr 1
    simp only [Prod.map_fst, id_eq]
    split <;> rfl

/-- The reader remembers a name once, but tells the same occurrences. -/
theorem repeatedAmong_eq (read : List ReadAttribute) {seen before : List String}
    (h : ∀ name, name ∈ seen ↔ name ∈ before) :
    (repeatedAmong seen read).map (fun one => (one.name, one.left)) =
      laterOccurrences before (read.map fun one => (one.name, one.left)) := by
  induction read generalizing seen before with
  | nil => rfl
  | cons one rest ih =>
    rw [List.map_cons, laterOccurrences, repeatedAmong]
    by_cases hmem : one.name ∈ before
    · have hbehind : ∀ name, name ∈ seen ↔ name ∈ before ++ [one.name] := by
        intro name
        rw [h, List.mem_append, List.mem_singleton]
        exact ⟨.inl, fun hname => hname.elim id fun heq => heq ▸ hmem⟩
      rw [if_pos hmem, if_pos (List.contains_iff_mem.mpr ((h _).mpr hmem)), List.map_cons,
        ih hbehind]
      rfl
    · have hnot : ¬ seen.contains one.name = true := fun hcontains =>
        hmem ((h _).mp (List.contains_iff_mem.mp hcontains))
      have hbehind : ∀ name, name ∈ one.name :: seen ↔ name ∈ before ++ [one.name] := by
        intro name
        rw [List.mem_cons, h, List.mem_append, List.mem_singleton, or_comm]
      rw [if_neg hmem, if_neg hnot, ih hbehind]
      rfl

/-- The attributes that are read lie where those of the derivation do. -/
theorem readsOf_eq_nameOccurrences (attributes : List (Gap × AttributeTree)) (start behind : Nat) :
    (readsOf attributes behind).map (fun one => (one.name, one.left)) =
      (nameOccurrences start attributes).map
        (Prod.map id (start + (attributesChars attributes).length + behind - ·)) := by
  induction attributes generalizing start with
  | nil => rfl
  | cons pair more ih =>
    obtain ⟨gap, a⟩ := pair
    have hlength := attributesChars_length_cons gap a more
    rw [readsOf, nameOccurrences, List.map_cons, List.map_cons, hlength, ← Nat.add_assoc,
      ih (start + (gap.val ++ a.chars).length)]
    congr 1
    simp only [Prod.map_apply, id_eq, Prod.mk.injEq, true_and, List.length_append]
    omega

/-- The notices about a word are about its repeated attributes. -/
theorem WordTree.notices_eq (t : WordTree) (start behind : Nat) :
    t.notices behind = (t.repetitions start).map fun one =>
      ⟨.repeatedAttribute one.name one.tag, start + t.chars.length + behind - one.index⟩ := by
  cases t with
  | text before s after => rfl
  | endTag name after => rfl
  | startTag name attributes after =>
    have hpairs := readsOf_eq_nameOccurrences attributes (start + 1 + name.val.length)
      (after.val.length + (behind + 1))
    have hread := repeatedAmong_eq (readsOf attributes (after.val.length + (behind + 1)))
      fun name : String => (Iff.rfl : name ∈ [] ↔ name ∈ [])
    rw [hpairs, laterOccurrences_map] at hread
    have hlength : start + 1 + name.val.length + (attributesChars attributes).length +
        (after.val.length + (behind + 1)) =
        start + (WordTree.startTag name attributes after).chars.length + behind := by
      simp only [chars, List.length_cons, List.length_append, List.length_nil]
      omega
    rw [hlength] at hread
    have hmap := congrArg (List.map fun pair : String × Nat =>
      (⟨.repeatedAttribute pair.1 (String.ofList name), pair.2⟩ : Placed Notice)) hread
    rw [List.map_map, List.map_map] at hmap
    rw [repetitions, List.map_map]
    exact hmap

end Grammar

namespace Source

/-! ## Reports of repetitions -/

/-- The report of a repeated attribute. -/
def repetitionReport (s : Source) (mode : PrintMode) (one : Repetition) : Rendered :=
  noticeReport mode (.repeatedAttribute one.name one.tag) (s.loc one.index)

/-- The report of trailing text. -/
def trailingReport (s : Source) (mode : PrintMode) (index : Nat) (garbage : String) : Rendered :=
  noticeReport mode (.trailingText garbage) (s.loc index)

/-- The reports of items in a row follow one another. -/
theorem noticeReports_append (mode : PrintMode) (items more : List StreamItem) :
    noticeReports mode (items ++ more) = noticeReports mode items ++ noticeReports mode more :=
  List.filterMap_append

/-- The notices of a word are reported as its repetitions. -/
theorem noticeReports_notices (s : Source) (mode : PrintMode) (t : WordTree) (start behind : Nat)
    (hsize : s.size = start + t.chars.length + behind) :
    noticeReports mode (((t.notices behind).map Placed.ofNotice).map s.itemOf) =
      (t.repetitions start).map (s.repetitionReport mode) := by
  have hone : ∀ one ∈ t.repetitions start, s.locOfLeft (s.size - one.index) = s.loc one.index := by
    intro one hmem
    obtain ⟨-, hinside⟩ := t.repetitions_bounds hmem
    rw [s.locOfLeft_eq (Nat.sub_le _ _)]
    congr 2
    omega
  rw [t.notices_eq start behind, ← hsize]
  generalize t.repetitions start = repetitions at hone
  induction repetitions with
  | nil => rfl
  | cons one rest ih =>
    have hfirst : s.itemOf (Placed.ofNotice
        ⟨.repeatedAttribute one.name one.tag, s.size - one.index⟩) =
        .notice (.repeatedAttribute one.name one.tag) (s.loc one.index) :=
      congrArg (StreamItem.notice _) (hone one List.mem_cons_self)
    have hrest := ih fun other hother => hone other (List.mem_cons_of_mem one hother)
    simp only [List.map_cons, hfirst]
    exact congrArg (s.repetitionReport mode one :: ·) hrest

/-- The notices of a row of words are reported as its repetitions. -/
theorem noticeReports_tokens (s : Source) (mode : PrintMode) (trees : WordTrees)
    (start behind : Nat) (hsize : s.size = start + (WordTrees.chars trees).length + behind) :
    noticeReports mode ((trees.tokens behind).map s.itemOf) =
      (trees.repetitions start).map (s.repetitionReport mode) := by
  induction trees generalizing start with
  | nil => rfl
  | cons pair more ih =>
    obtain ⟨t, after⟩ := pair
    rw [WordTrees.chars_cons, ← List.append_assoc, List.length_append] at hsize
    have hmore := ih (start + (t.chars ++ after.val).length) (by omega)
    have hword := s.noticeReports_notices mode t start
      ((after.val ++ WordTrees.chars more).length + behind) (by
        simp only [List.length_append] at hsize ⊢
        omega)
    rw [WordTrees.tokens, WordTrees.repetitions, List.map_append, List.map_append,
      noticeReports_append, hword, ← hmore]
    rfl

/-- The reports of repetitions in the order of the text are pairwise different. -/
theorem nodup_repetitionReports (s : Source) (mode : PrintMode) {repetitions : List Repetition}
    (hgrow : repetitions.Pairwise fun one other => one.index < other.index)
    (hinside : ∀ one ∈ repetitions, one.index ≤ s.size) :
    (repetitions.map (s.repetitionReport mode)).Nodup := by
  rw [List.Nodup, List.pairwise_map]
  refine hgrow.imp_of_mem ?_
  intro one other hone hother hlt hreport
  obtain ⟨hline, hcolumn⟩ := render_warning_inj hreport
  have hindex := index_eq_of_place (hinside one hone) (hinside other hother) hline hcolumn
  omega

/-- Trailing text stands behind all repetitions, so its report is none of theirs. -/
theorem nodup_append_trailingReport (s : Source) (mode : PrintMode) {repetitions : List Repetition}
    (hnodup : (repetitions.map (s.repetitionReport mode)).Nodup) {stop : Nat} (hstop : stop ≤ s.size)
    (hinside : ∀ one ∈ repetitions, one.index < stop) (garbage : String) :
    (repetitions.map (s.repetitionReport mode) ++ [s.trailingReport mode stop garbage]).Nodup := by
  refine List.nodup_append.mpr ⟨hnodup, List.pairwise_singleton _ _, ?_⟩
  intro report hreport other hother heq
  obtain ⟨one, hone, rfl⟩ := List.mem_map.mp hreport
  rw [List.mem_singleton.mp hother] at heq
  have hplaces : render mode "warning" _ (some (.text (s.loc one.index))) =
      render mode "warning" _ (some (.text (s.loc stop))) := heq
  obtain ⟨hline, hcolumn⟩ := render_warning_inj hplaces
  have hfront := hinside one hone
  have hindex := index_eq_of_place (hfront.trans_le hstop).le hstop hline hcolumn
  omega

/-- The line about a repeated attribute. -/
def repetitionLine (s : Source) (one : Repetition) : String :=
  "LINE " ++ s.loc one.index ++ ": Attribute '" ++ one.name ++ "' appears twice in <" ++ one.tag ++
    ">; the last one wins."

/-- The line about trailing text. -/
def trailingLine (s : Source) (index : Nat) (garbage : String) : String :=
  "LINE " ++ s.loc index ++ ": Ignoring trailing text that isn't a word: " ++ garbage

/-- A warning in plain text is a line with its place and its text. -/
theorem fancy_plain_warning (text place : String) :
    (render .plain "warning" text (some (.text place))).fancy =
      "LINE " ++ place ++ ": " ++ text := by
  have hwarning : ¬ "warning" = "failure" := by decide
  rw [render, if_neg (by decide), if_neg hwarning]
  apply String.toList_inj.mp
  simp [highlight, heading, LineRef.plain, Rendered.fancy]

/-- A repetition is reported by its line. -/
theorem fancy_repetitionReport (s : Source) (one : Repetition) :
    (s.repetitionReport .plain one).fancy = s.repetitionLine one := by
  refine (fancy_plain_warning _ _).trans ?_
  unfold repetitionLine Notice.message
  apply String.toList_inj.mp
  simp only [String.toList_append, List.append_assoc]
  rfl

/-- Trailing text is reported by its line. -/
theorem fancy_trailingReport (s : Source) (index : Nat) (garbage : String) :
    (s.trailingReport .plain index garbage).fancy = s.trailingLine index garbage := by
  refine (fancy_plain_warning _ _).trans ?_
  unfold trailingLine Notice.message
  apply String.toList_inj.mp
  simp only [String.toList_append, List.append_assoc]
  rfl

end Source

/-! ## The attributes that count -/

/-- A map has the names of a row, each once and where it comes first, and each with the value that
comes last. -/
structure ResolvesLast (written : List (String × Value)) (m : NameMap Value) : Prop where
  names_eq : m.names = (written.map Prod.fst).eraseDups
  get?_eq : ∀ front name value back, written = front ++ (name, value) :: back →
    name ∉ back.map Prod.fst → m.get? name = some value

/-- In a map that is made from a row the last occurrences count. -/
theorem resolvesLast_ofList (written : List (String × Value)) :
    ResolvesLast written (NameMap.ofList written) := by
  refine ⟨NameMap.names_ofList written, ?_⟩
  rintro front name value back rfl hlast
  have hback : back.reverse.lookup name = none := by
    rw [List.lookup_eq_none_iff]
    intro entry hentry
    have hne : name ≠ entry.1 := by
      rintro rfl
      exact hlast (List.mem_map_of_mem (List.mem_reverse.mp hentry))
    simpa using hne
  rw [NameMap.get?_ofList, List.reverse_append, List.reverse_cons, List.append_assoc,
    List.lookup_append, hback]
  simp

namespace Source

/-! ## The main result -/

/-- How a text that is read without error ends. -/
theorem rest_of_failure_eq_none (s : Source) {t : MarkupTree} {rest : List Char}
    (hchars : s.chars = t.chars ++ rest) (hshort : t.overlong? = none) (hrest : Unreadable rest)
    (hfailure : s.words.failure = none) :
    rest = [] ∨ s.options.trailingAllowed = true ∧ (readWord rest).2 = .missed ∧
      readTokens true rest = readTrailing true rest := by
  by_cases hne : rest = []
  · exact .inl hne
  · right
    rw [words_eq, hchars, readTokens_markup_append _ hshort] at hfailure
    have hfault : (readTokens s.options.trailingAllowed rest).fault = none :=
      Option.map_eq_none_iff.mp hfailure
    rcases hrest.cases hne s.options.trailingAllowed with ⟨hmissed, htokens⟩ | ⟨_, _, -, htokens⟩
    · cases hallowed : s.options.trailingAllowed with
      | true =>
        rw [hallowed] at htokens
        exact ⟨rfl, hmissed, htokens⟩
      | false =>
        rw [htokens, hallowed] at hfault
        cases hfault
    · rw [htokens] at hfault
      cases hfault

/-- The reports of a text that is read without error, as its complete part and its end tell them. -/
theorem noticeReports_words (s : Source) (mode : PrintMode) {t : MarkupTree} {rest : List Char}
    (hchars : s.chars = t.chars ++ rest) (hshort : t.overlong? = none) :
    noticeReports mode s.words.items = t.repetitions.map (s.repetitionReport mode) ++
      noticeReports mode ((readTokens s.options.trailingAllowed rest).read.map s.itemOf) := by
  have hsize : s.size = t.before.val.length + (WordTrees.chars t.trees).length + rest.length := by
    rw [size, hchars, MarkupTree.chars, List.length_append, List.length_append]
  have hitems : s.words.items = (t.trees.tokens rest.length).map s.itemOf ++
      (readTokens s.options.trailingAllowed rest).read.map s.itemOf := by
    rw [words_eq, hchars, readTokens_markup_append _ hshort]
    exact List.map_append
  rw [hitems, noticeReports_append, s.noticeReports_tokens mode t.trees _ _ hsize]
  rfl

/-- The report of trailing text is about the place behind the complete part. -/
theorem noticeReports_trailing (s : Source) (mode : PrintMode) {t : MarkupTree} {rest : List Char}
    (hchars : s.chars = t.chars ++ rest) :
    noticeReports mode ((readTrailing true rest).read.map s.itemOf) =
      [s.trailingReport mode t.chars.length (trailingGarbage rest)] := by
  have hsize : s.size = t.chars.length + rest.length := by
    rw [size, hchars, List.length_append]
  have hplace : s.locOfLeft rest.length = s.loc t.chars.length := by
    rw [s.locOfLeft_eq (by omega), hsize, Nat.add_sub_cancel]
  rw [trailingReport, ← hplace]
  rfl

/-- The repeated attributes stand in the complete part. -/
theorem repetitions_inside (s : Source) {t : MarkupTree} {rest : List Char}
    (hchars : s.chars = t.chars ++ rest) {one : Repetition} (h : one ∈ t.repetitions) :
    one.index < t.chars.length ∧ t.chars.length ≤ s.size := by
  obtain ⟨-, hinside⟩ := WordTrees.repetitions_bounds h
  simp only [size, hchars, MarkupTree.chars, List.length_append]
  omega

/-- A new reporter prints one line for each repeated attribute of a text that is read without
error, and then one for trailing text. -/
theorem output_of_repetitions (s : Source) {r : Reporter} (hr : r.Lenient) (hfresh : r.seen = [])
    (hplain : r.settings.printMode = .plain) (hprints : r.PrintsWarnings) {t : MarkupTree}
    {rest : List Char} (hchars : s.chars = t.chars ++ rest) (hshort : t.overlong? = none)
    (trailing : List Rendered)
    (htrailing : noticeReports .plain
      ((readTokens s.options.trailingAllowed rest).read.map s.itemOf) = trailing)
    (hdistinct : (t.repetitions.map (s.repetitionReport .plain) ++ trailing).Nodup) :
    (s.words.deliver r).reporter.output = r.output ++
      (String.join (t.repetitions.map fun one => r.shown (s.repetitionLine one) ++ "\n") ++
        String.join (trailing.map fun report => r.shown report.fancy ++ "\n")) := by
  have hreports := s.noticeReports_words .plain hchars hshort
  rw [htrailing] at hreports
  have hline : ∀ text, r.warningLine text = r.shown text ++ "\n" := fun text => if_pos hprints
  have houtput := deliverItems_of_distinct s.words.items s.words.failure hr
    (by rw [hplain, hreports]; exact hdistinct) (by simp [hfresh])
  rw [hplain, hreports, List.map_append, String.join_append, List.map_map] at houtput
  refine houtput.trans ?_
  simp only [hline, Function.comp_def, fancy_repetitionReport]

/-- A new reporter that prints warnings reads a text to its end.  Then each start tag has the names
that it writes, with the values that come last, and there is one line for each name written again,
in the order of the text and with its place; only trailing text has one line more. -/
theorem repeated_attributes (s : Source) (r : Reporter) (hr : r.Lenient) (hfresh : r.seen = [])
    (hplain : r.settings.printMode = .plain) (hprints : r.PrintsWarnings)
    (hread : (s.words.deliver r).failure = none) :
    ∃ (t : MarkupTree) (rest : List Char), s.chars = t.chars ++ rest ∧
      (s.words.deliver r).words = t.words s ∧
      (t.repetitions.Pairwise fun one other => one.index < other.index) ∧
      (∀ pair ∈ t.trees, ∀ name attributes after, pair.1 = .startTag name attributes after →
        ∃ m, pair.1.word = .startTag (String.ofList name) m none ∧
          ResolvesLast (writtenEntries attributes) m) ∧
      (rest = [] ∧ (s.words.deliver r).reporter.output = r.output ++ String.join
          (t.repetitions.map fun one => r.shown (s.repetitionLine one) ++ "\n") ∨
        s.options.trailingAllowed = true ∧ (readWord rest).2 = .missed ∧ rest ≠ [] ∧
          (s.words.deliver r).reporter.output = r.output ++ String.join
            (t.repetitions.map fun one => r.shown (s.repetitionLine one) ++ "\n") ++
            (r.shown (s.trailingLine t.chars.length (trailingGarbage rest)) ++ "\n")) := by
  obtain ⟨t, rest, hchars, hshort, hrest⟩ := exists_complete_part s.chars
  obtain ⟨r', hdelivery⟩ := deliverItems_of_lenient s.words.failure s.words.items hr
  have hfailure : s.words.failure = none := (congrArg Delivery.failure hdelivery).symm.trans hread
  have hwords : (s.words.deliver r).words = t.words s :=
    (congrArg Delivery.words hdelivery).trans (s.words_of_complete_part hchars hshort hrest)
  have hinside := fun one (hone : one ∈ t.repetitions) => s.repetitions_inside hchars hone
  have hgrow := WordTrees.pairwise_repetitions t.trees t.before.val.length
  have hnodup : (t.repetitions.map (s.repetitionReport .plain)).Nodup :=
    s.nodup_repetitionReports .plain hgrow fun one hone =>
      ((hinside one hone).1.trans_le (hinside one hone).2).le
  refine ⟨t, rest, hchars, hwords, hgrow, ?_, ?_⟩
  · rintro ⟨tree, space⟩ - name attributes after rfl
    exact ⟨_, rfl, resolvesLast_ofList (writtenEntries attributes)⟩
  · rcases s.rest_of_failure_eq_none hchars hshort hrest hfailure with
      rfl | ⟨hallowed, hmissed, htokens⟩
    · left
      have houtput := s.output_of_repetitions hr hfresh hplain hprints hchars hshort []
        (by rw [readTokens_nil]; rfl) (by rwa [List.append_nil])
      refine ⟨rfl, houtput.trans ?_⟩
      simp
    · right
      have htrailing : noticeReports .plain
          ((readTokens s.options.trailingAllowed rest).read.map s.itemOf) =
          [s.trailingReport .plain t.chars.length (trailingGarbage rest)] := by
        rw [hallowed, htokens]
        exact s.noticeReports_trailing .plain hchars
      have hstop : t.chars.length ≤ s.size := by
        rw [size, hchars, List.length_append]
        omega
      have hdistinct := s.nodup_append_trailingReport .plain hnodup hstop
        (fun one hone => (hinside one hone).1) (trailingGarbage rest)
      have houtput :=
        s.output_of_repetitions hr hfresh hplain hprints hchars hshort _ htrailing hdistinct
      refine ⟨hallowed, hmissed, ?_, houtput.trans ?_⟩
      · rintro rfl
        rw [readTokens_nil] at htrailing
        cases htrailing
      · rw [List.map_singleton, fancy_trailingReport, String.append_assoc]
        simp

/-- Two tags that repeat the same attribute. -/
def twoRowsSource : Source where
  chars := "<a x=1 x=2 y=3 x=4> <a x=5 x=6>".toList

/-- Each of the three occurrences has its own line. -/
theorem repeated_attributes_twoRowsSource :
    let r : Reporter := { settings := { printMode := .plain } }
    let delivery := twoRowsSource.words.deliver r
    r.Lenient ∧ r.PrintsWarnings ∧ delivery.failure = none ∧
    (∃ t : MarkupTree, twoRowsSource.chars = t.chars ∧ delivery.words = t.words twoRowsSource ∧
      delivery.reporter.output = r.output ++ String.join
        (t.repetitions.map fun one => r.shown (twoRowsSource.repetitionLine one) ++ "\n")) ∧
    delivery.reporter.output =
      "LINE 1:8: Attribute 'x' appears twice in <a>; the last one wins.\n" ++
      "LINE 1:16: Attribute 'x' appears twice in <a>; the last one wins.\n" ++
      "LINE 1:28: Attribute 'x' appears twice in <a>; the last one wins.\n" := by
  intro r delivery
  have hprints : r.PrintsWarnings := by decide
  have hfailure : delivery.failure = none := by decide +kernel
  obtain ⟨t, rest, hchars, hwords, -, -, hend⟩ :=
    repeated_attributes twoRowsSource r rfl rfl rfl hprints hfailure
  refine ⟨rfl, hprints, hfailure, ⟨t, ?_, hwords, ?_⟩, by decide +kernel⟩ <;>
    rcases hend with ⟨rfl, houtput⟩ | ⟨hallowed, -⟩
  · rwa [List.append_nil] at hchars
  · cases hallowed
  · exact houtput
  · cases hallowed

end Source

end MarkupSpans
