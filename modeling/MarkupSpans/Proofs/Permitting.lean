import MarkupSpans.Proofs.Faults
import MarkupSpans.Proofs.Warnings

/-!
# Texts read strictly and permissively

Whether trailing text is allowed matters only where reading ends.  A text that is read completely,
or that is stopped inside a word, is read in the same way either way.  Where trailing text is an
error if it is not allowed, it is otherwise one notice more, about the same place and with the same
garbage (`Grammar.readTokens_permitting`); and as that place lies behind all others, a new reporter
has not seen its report.
-/

set_option autoImplicit false

namespace MarkupSpans

open Grammar Report Text

namespace Grammar

/-- Reading a text with trailing text allowed, by how reading it ends where that is an error. -/
theorem readTokens_permitting (cs : List Char) :
    (readTokens true cs = readTokens false cs ∧
      ∀ fault, (readTokens false cs).fault = some fault → fault.item.FitsIn cs) ∨
    ∃ (garbage : String) (left : Nat), left ≤ cs.length ∧
      (readTokens false cs).fault = some ⟨.notAWord garbage, left⟩ ∧
      readTokens true cs =
        ⟨(readTokens false cs).read ++ [⟨.notice (.trailingText garbage), left⟩], none⟩ ∧
      ∀ token ∈ (readTokens false cs).read, left < token.left := by
  obtain ⟨t, rest, rfl, hshort, hrest⟩ := exists_complete_part cs
  rw [readTokens_markup_append true hshort, readTokens_markup_append false hshort]
  by_cases hne : rest = []
  · subst hne
    rw [readTokens_nil, readTokens_nil]
    exact .inl ⟨rfl, fun fault hfault => by cases hfault⟩
  · rcases hrest.cases hne false with ⟨hmissed, hstrict⟩ | ⟨notices, fault, hfaulty, hstrict⟩
    · right
      rcases hrest.cases hne true with ⟨-, hpermissive⟩ | ⟨notices, fault, hfaulty, -⟩
      · refine ⟨trailingGarbage rest, rest.length, by simp, ?_, ?_, ?_⟩
        · rw [hstrict]
          rfl
        · rw [hstrict, hpermissive]
          simp [readTrailing]
        · intro token htoken
          rw [hstrict] at htoken
          simp only [readTrailing, Bool.false_eq_true, if_false, List.append_nil] at htoken
          exact WordTrees.lt_left_of_mem_tokens htoken
      · rw [hfaulty] at hmissed
        cases hmissed
    · left
      rcases hrest.cases hne true with ⟨hmissed, -⟩ | ⟨notices', fault', hfaulty', hpermissive⟩
      · rw [hfaulty] at hmissed
        cases hmissed
      · rw [hfaulty] at hfaulty'
        cases hfaulty'
        rw [hstrict, hpermissive]
        refine ⟨rfl, fun other hother => ?_⟩
        cases hother
        have hfits := (readWord_inside rest).2.fits fault (congrArg Prod.snd hfaulty)
        exact hfits.mono (List.suffix_append t.chars rest).isInfix

/-- Whether a notice is about a repeated attribute. -/
def Notice.isRepeated : Notice → Bool
  | .repeatedAttribute _ _ => true
  | .trailingText _ => false

/-- Reading a word only gives notices about repeated attributes. -/
theorem isRepeated_of_mem_readWord {cs : List Char} {n : Placed Notice} (h : n ∈ (readWord cs).1) :
    n.item.isRepeated = true := by
  have hlist : ∀ (tag : String) (list : AttributeList), n ∈ list.notices tag →
      n.item.isRepeated = true := by
    intro tag list hmem
    obtain ⟨one, -, rfl⟩ := List.mem_map.mp hmem
    rfl
  unfold readWord readStartTag at h
  split at h
  · cases h
  · cases h
  · split at h
    · dsimp only at h
      split at h
      · cases h
      · split at h <;> cases h
      · split at h <;> exact hlist _ _ h
    · cases h
  · cases h

/-- Where trailing text is an error, all notices are about repeated attributes. -/
theorem isRepeated_of_mem_readTokens {cs : List Char} {token : Placed Token} {n : Notice}
    (h : token ∈ (readTokens false cs).read) (hn : token.item = .notice n) :
    n.isRepeated = true := by
  have hword : ∀ {here : List Char} {notices : List (Placed Notice)} {outcome : Outcome Word},
      readWord here = (notices, outcome) → token ∈ notices.map Placed.ofNotice →
      n.isRepeated = true := by
    intro here notices outcome hread hmem
    obtain ⟨other, hother, rfl⟩ := List.mem_map.mp hmem
    cases hn
    exact isRepeated_of_mem_readWord (by rw [hread]; exact hother)
  generalize hallowed : false = allowed at h
  fun_induction readTokens allowed cs with
  | case1 cs here hempty => cases h
  | case2 cs here hempty notices hmissed =>
    subst hallowed
    cases h
  | case3 cs here hempty notices fault hfaulty =>
    rw [Tokens.withNotices, List.append_nil] at h
    exact hword hfaulty h
  | case4 cs here hempty notices w rest hmatched more ih =>
    rcases List.mem_append.mp h with h | h
    · exact hword hmatched h
    · rcases List.mem_cons.mp h with rfl | h
      · cases hn
      · exact ih h

end Grammar

namespace Source

/-- The same text, to be read with trailing text allowed or not. -/
def withTrailing (allowed : Bool) (s : Source) : Source :=
  { s with options := { s.options with trailingAllowed := allowed } }

/-- The words of a text that is read strictly or permissively. -/
theorem words_withTrailing (allowed : Bool) (s : Source) :
    (s.withTrailing allowed).words = s.streamOf (readTokens allowed s.chars) := rfl

/-- Whether trailing text is allowed does not matter for the notices about repeated attributes. -/
theorem repeated_notices_withTrailing (s : Source) :
    (s.withTrailing true).words.notices.filter (·.1.isRepeated) =
      (s.withTrailing false).words.notices := by
  have hall : (s.withTrailing false).words.notices.filter (·.1.isRepeated) =
      (s.withTrailing false).words.notices := by
    apply List.filter_eq_self.mpr
    rintro ⟨n, loc⟩ hmem
    obtain ⟨item, hitem, hn⟩ := List.mem_filterMap.mp hmem
    obtain ⟨token, htoken, rfl⟩ := List.mem_map.mp hitem
    obtain ⟨item, left⟩ := token
    cases item with
    | word w => cases hn
    | notice n' =>
      cases hn
      exact isRepeated_of_mem_readTokens htoken rfl
  rcases readTokens_permitting s.chars with
    ⟨hsame, -⟩ | ⟨garbage, left, -, -, hpermissive, -⟩
  · rw [words_withTrailing, hsame]
    exact hall
  · rw [words_withTrailing, hpermissive]
    simp only [WordStream.notices, streamOf, List.map_append, List.filterMap_append,
      List.filter_append]
    exact (List.append_nil _).trans hall

/-- Where trailing text is an error if it is not allowed, it is one notice more if it is. -/
theorem deliver_of_trailing (s : Source) {r : Reporter} (hr : r.Lenient) (hfresh : r.seen = [])
    {garbage : String} {left : Nat} (hleft : left ≤ s.size)
    (hpermissive : readTokens true s.chars =
      ⟨(readTokens false s.chars).read ++ [⟨.notice (.trailingText garbage), left⟩], none⟩)
    (hbehind : ∀ token ∈ (readTokens false s.chars).read, left < token.left) :
    let strict := (s.withTrailing false).words.deliver r
    let permissive := (s.withTrailing true).words.deliver r
    let report := noticeReport r.settings.printMode (.trailingText garbage) (s.locOfLeft left)
    permissive.words = strict.words ∧ permissive.failure = none ∧
      report ∉ strict.reporter.seen ∧
      permissive.reporter = strict.reporter.afterWarning report := by
  intro strict permissive report
  generalize hitems : (readTokens false s.chars).read.map s.itemOf = items
  generalize hend : (readTokens false s.chars).fault.map s.failureOf = failure
  have hstrict : strict = deliverItems failure items r := by
    rw [← hitems, ← hend]
    rfl
  have hwhole : permissive = deliverItems none
      (items ++ [.notice (.trailingText garbage) (s.locOfLeft left)]) r := by
    show (s.withTrailing true).words.deliver r = _
    rw [words_withTrailing, hpermissive, ← hitems]
    simp only [WordStream.deliver, streamOf, List.map_append]
    rfl
  obtain ⟨r', hlenient⟩ := deliverItems_of_lenient failure items hr
  obtain ⟨r'', hlenient'⟩ := deliverItems_of_lenient none items hr
  obtain ⟨hsettings, -, hseen⟩ := deliverItems_reporter items none hr
  have hreporter : strict.reporter = (deliverItems none items r).reporter := by
    rw [hstrict, reporter_deliverItems items failure hr]
  have hnew : report ∉ strict.reporter.seen := by
    rw [hreporter]
    intro hmem
    rcases hseen report hmem with hold | ⟨n, loc, hnotice, heq⟩
    · rw [hfresh] at hold
      cases hold
    · -- all other notices are about places in front of the trailing text
      rw [← hitems] at hnotice
      have hstreamed : .notice n loc ∈ (s.streamOf (readTokens false s.chars)).items := hnotice
      obtain ⟨token, htoken, rfl⟩ := exists_left_of_notice_mem hstreamed
      have hinside : token.left ≤ s.size := (readTokens_inside false s.chars).1 token htoken
      have hfront := hbehind token htoken
      exact s.noticeReport_ne_of_left _ _ _ hleft hinside (by omega) heq
  have hkept : strict.reporter.settings = r.settings := by rw [hreporter, hsettings]
  have hwarn : strict.reporter.warn (Notice.trailingText garbage).message
      (some (.text (s.locOfLeft left))) = (.ok (), strict.reporter.afterWarning report) := by
    have hlast : strict.reporter.Lenient := (Reporter.shouldDie_congr hkept _ _).trans hr
    have hreport : render strict.reporter.settings.printMode "warning"
        (Notice.trailingText garbage).message (some (.text (s.locOfLeft left))) = report := by
      rw [hkept]
      rfl
    rw [← hreport]
    exact hlast.warn_new (by rw [hreport]; exact hnew)
  have hlast : deliverItems none [.notice (.trailingText garbage) (s.locOfLeft left)]
      strict.reporter = ⟨[], none, strict.reporter.afterWarning report⟩ := by
    rw [deliverItems, hwarn]
    rfl
  rw [deliverItems_append _ _ _ hr, ← hreporter, hlast] at hwhole
  refine ⟨?_, congrArg Delivery.failure hwhole, hnew, congrArg Delivery.reporter hwhole⟩
  rw [congrArg Delivery.words hwhole, hstrict, hlenient, hlenient']
  exact List.append_nil _

/-- A text is read alike whether or not trailing text is allowed, unless trailing text is all that
is wrong with it.  Then the words and the reports up to there are alike, and where it is allowed
there is exactly one warning more, which no report before has been like: about the place of the
error, with the garbage that the error shows. -/
theorem permissive_of_strict (s : Source) (r : Reporter) (hr : r.Lenient) (hfresh : r.seen = []) :
    let strict := (s.withTrailing false).words.deliver r
    let permissive := (s.withTrailing true).words.deliver r
    permissive.words = strict.words ∧
    (s.withTrailing true).words.notices.filter (·.1.isRepeated) =
      (s.withTrailing false).words.notices ∧
    (strict.failure = none → permissive = strict) ∧
    (∀ failure, strict.failure = some failure →
      (∃ e : CompileError, failure = .compile e ∧
        (e.kind = .grammar ∨ e.kind = .unterminatedInput)) ∨
      ∃ digits, digitLimit < digits ∧ failure = .value (.numeralTooLong digits)) ∧
    (∀ fault, strict.failure = some (.value fault) → permissive = strict) ∧
    (∀ e : CompileError, strict.failure = some (.compile e) → e.kind = .grammar →
      permissive = strict) ∧
    (∀ e : CompileError, strict.failure = some (.compile e) → e.kind = .unterminatedInput →
      permissive.failure = none ∧ ∃ garbage loc : String,
        e.message = (SyntaxFault.notAWord garbage).message ∧ e.loc = some loc ∧
        let report := noticeReport r.settings.printMode (.trailingText garbage) loc
        report ∉ strict.reporter.seen ∧
          permissive.reporter = strict.reporter.afterWarning report) ∧
    ∀ e : CompileError, permissive.failure = some (.compile e) → e.kind ≠ .unterminatedInput := by
  intro strict permissive
  have hrepeated := s.repeated_notices_withTrailing
  obtain ⟨r', hlenient⟩ := deliverItems_of_lenient (s.withTrailing false).words.failure
    (s.withTrailing false).words.items hr
  have hfailure : strict.failure = (readTokens false s.chars).fault.map s.failureOf :=
    congrArg Delivery.failure hlenient
  rcases readTokens_permitting s.chars with
    ⟨hsame, hinside⟩ | ⟨garbage, left, hleft, hfault, hpermissive, hbehind⟩
  · have heq : permissive = strict := by
      show (s.withTrailing true).words.deliver r = (s.withTrailing false).words.deliver r
      rw [words_withTrailing, words_withTrailing, hsame]
    have hcases : ∀ failure, strict.failure = some failure →
        (∃ e : CompileError, failure = .compile e ∧ e.kind = .grammar) ∨
          ∃ digits, digitLimit < digits ∧ failure = .value (.numeralTooLong digits) := by
      intro failure hfailed
      rw [hfailure, Option.map_eq_some_iff] at hfailed
      obtain ⟨fault, hfault, rfl⟩ := hfailed
      rcases (hinside fault hfault).failure_eq (s.locOfLeft fault.left) with
        hgrammar | ⟨digits, hlong, -, hvalue⟩
      · exact .inl ⟨_, hgrammar, rfl⟩
      · exact .inr ⟨digits, hlong, hvalue⟩
    have hnever : ∀ e : CompileError, strict.failure = some (.compile e) →
        e.kind ≠ .unterminatedInput := by
      intro e he
      rcases hcases _ he with ⟨e', he', hkind⟩ | ⟨digits, -, hvalue⟩
      · cases he'
        rw [hkind]
        decide
      · cases hvalue
    refine ⟨congrArg Delivery.words heq, hrepeated, fun _ => heq, ?_, fun _ _ => heq,
      fun _ _ _ => heq, ?_, ?_⟩
    · intro failure hfailed
      exact (hcases failure hfailed).imp_left fun ⟨e, he, hkind⟩ => ⟨e, he, .inl hkind⟩
    · intro e he hunterminated
      exact absurd hunterminated (hnever e he)
    · rw [heq]
      exact hnever
  · obtain ⟨hwords, hnone, hnew, hreporter⟩ :=
      s.deliver_of_trailing hr hfresh hleft hpermissive hbehind
    rw [hfault] at hfailure
    have herror : ∀ failure, strict.failure = some failure →
        failure = s.failureOf ⟨.notAWord garbage, left⟩ := by
      intro failure hfailed
      rw [hfailure] at hfailed
      exact (Option.some.inj hfailed).symm
    refine ⟨hwords, hrepeated, fun hended => ?_, fun failure hfailed => ?_, fun fault he => ?_,
      fun e he hkind => ?_, fun e he _ => ?_, fun e he => ?_⟩
    · rw [hfailure] at hended
      cases hended
    · exact .inl ⟨_, herror failure hfailed, .inr rfl⟩
    · cases herror _ he
    · cases herror _ he
      cases hkind
    · cases herror _ he
      exact ⟨hnone, garbage, s.locOfLeft left, rfl, rfl, hnew, hreporter⟩
    · rw [hnone] at he
      cases he

/-- A tag that repeats an attribute, and a word that is none. -/
def repeatingSource : Source where
  chars := "<a x=1 x=2> oops".toList

/-- The repeated attribute is reported either way, and the trailing text is either the error or one
line more. -/
theorem permissive_repeatingSource :
    let r : Reporter := { settings := { printMode := .plain } }
    let strict := (repeatingSource.withTrailing false).words.deliver r
    let permissive := (repeatingSource.withTrailing true).words.deliver r
    r.Lenient ∧ r.seen = [] ∧
    strict.failure = some (.compile ⟨.unterminatedInput, "Expected a \x7btext\x7d literal, " ++
      "a start tag, or an end tag; got: oops", some "1:13"⟩) ∧
    strict.reporter.output = "LINE 1:8: Attribute 'x' appears twice in <a>; the last one wins.\n" ∧
    permissive.words = strict.words ∧ permissive.failure = none ∧
    ∃ garbage : String, (SyntaxFault.notAWord garbage).message =
        "Expected a \x7btext\x7d literal, a start tag, or an end tag; got: oops" ∧
      permissive.reporter = strict.reporter.afterWarning
        (noticeReport .plain (.trailingText garbage) "1:13") := by
  intro r strict permissive
  obtain ⟨hwords, -, -, -, -, -, htrailing, -⟩ := permissive_of_strict repeatingSource r rfl rfl
  have hfailure : strict.failure = some (.compile ⟨.unterminatedInput,
      "Expected a \x7btext\x7d literal, " ++ "a start tag, or an end tag; got: oops",
      some "1:13"⟩) := by decide +kernel
  obtain ⟨hnone, garbage, loc, hmessage, hloc, -, hreporter⟩ := htrailing _ hfailure rfl
  cases hloc
  exact ⟨rfl, rfl, hfailure, by decide +kernel, hwords, hnone, garbage, hmessage.symm, hreporter⟩

end Source

end MarkupSpans
