import Mathlib.Data.List.Induction
import MarkupSpans.Proofs.InForce
import MarkupSpans.Proofs.Lifecycle

/-!
# Which failures are final

A word that fails ends a compiler for good if it fails with a compile error, and only then.  Any
other failure, such as one of a bound function, leaves the open elements and the spans as they
were; closing the elements and finishing then gives these spans, as if the word had not been fed
(`Session.finished_mem_history_closing`).
-/

set_option autoImplicit false

namespace MarkupSpans

variable {σ : Type}

open Compiler

/-! ## A word that fails -/

namespace Compiler

/-- A failure that is no error of the markup leaves the compiler as it was. -/
theorem afterFailure_of_ne_compile (c : Compiler) {e : Failure} (h : ∀ e', e ≠ .compile e') :
    c.afterFailure e = c := by
  cases e with
  | compile e' => exact absurd rfl (h e')
  | _ => rfl

/-- Behind a failure of a compiler that has not ended, no more than the claims have changed, and
the state if it is a compile error. -/
theorem Fed.after_failure {c c' : Compiler} {e : Failure} (h : Fed c (.error e) c')
    (halive : c.state.isTerminal = false) :
    ∃ owned, c' = { c with owned }.afterFailure e := by
  cases h with
  | refused loc hterminal =>
    rw [hterminal] at halive
    cases halive
  | failed e owned _ => exact ⟨owned, rfl⟩

end Compiler

/-! ## Closing what is open -/

/-- The calls that close some open elements, innermost first, and finish. -/
def closingCalls (path : List ScopeEntry) : List CompilerCall :=
  path.reverse.map (fun element => .feed (.endTag element.tag none)) ++ [.finish]

namespace Session

/-- A compiler that has not ended gives its spans when all elements are closed. -/
theorem record_finish_of_closed (host : Host σ) {s : Session σ}
    (halive : s.compiler.state.isTerminal = false) (hclosed : s.compiler.scopes.entries = []) :
    (s.record host .finish).result = .ok (.finished s.compiler.spans) := by
  have hdepth : s.compiler.scopes.depth = 0 := by
    rw [ScopeStack.depth, hclosed]
    rfl
  exact (s.record_sound host .finish).given rfl halive hdepth

/-- Feeding the end tag of the innermost open element closes it and changes nothing else that is
given in the end. -/
theorem record_endTag_of_concat (host : Host σ) {s : Session σ} {outer : List ScopeEntry}
    {top : ScopeEntry} (halive : s.compiler.state.isTerminal = false)
    (hopen : s.compiler.scopes.entries = outer ++ [top]) :
    let s' := (s.record host (.feed (.endTag top.tag none))).after
    s'.compiler.state.isTerminal = false ∧ s'.compiler.scopes.entries = outer ∧
      s'.compiler.spans = s.compiler.spans := by
  obtain ⟨scopes, hpop, houter⟩ := ScopeStack.pop_concat hopen none
  have hfeed := feed_endTag_of_pop halive host hpop s.store
  simp only [record, perform, hfeed, and_true]
  refine ⟨?_, houter⟩
  split <;> rfl

/-- A compiler that has not ended gives its spans once its elements are closed. -/
theorem finished_mem_history_closing (host : Host σ) (path : List ScopeEntry) (s : Session σ)
    (halive : s.compiler.state.isTerminal = false) (hopen : s.compiler.scopes.entries = path) :
    ∃ r ∈ s.history host (closingCalls path), r.result = .ok (.finished s.compiler.spans) := by
  -- by induction on the open elements from the innermost one on, which is closed first
  induction path using List.reverseRecOn generalizing s with
  | nil => exact ⟨_, List.mem_singleton.mpr rfl, record_finish_of_closed host halive hopen⟩
  | append_singleton outer top ih =>
    obtain ⟨halive', houter, hspans⟩ := record_endTag_of_concat host halive hopen
    obtain ⟨r, hr, hresult⟩ := ih _ halive' houter
    rw [hspans] at hresult
    have hcalls : closingCalls (outer ++ [top]) =
        .feed (.endTag top.tag none) :: closingCalls outer := by
      simp [closingCalls]
    rw [hcalls]
    exact ⟨r, List.mem_cons_of_mem _ hr, hresult⟩

/-! ## Behind the end of a compiler -/

/-- A record of a history is that of its call on the session in front of it. -/
theorem eq_record_of_mem_history {host : Host σ} {s : Session σ} {calls : List CompilerCall}
    {r : CallRecord σ} (hr : r ∈ s.history host calls) : r = r.before.record host r.call := by
  induction calls generalizing s with
  | nil => cases hr
  | cons call rest ih =>
    rcases List.mem_cons.mp hr with rfl | hr
    · rfl
    · exact ih hr

/-- Behind the end of a compiler no call gives spans, and a word and finishing are refused. -/
theorem refused_of_terminal {host : Host σ} {s : Session σ}
    (hterminal : s.compiler.state.isTerminal = true) {calls : List CompilerCall}
    {r : CallRecord σ} (hr : r ∈ s.history host calls) :
    r.after.compiler = s.compiler ∧ (∀ spans, r.result ≠ .ok (.finished spans)) ∧
      ((∃ w, r.call = .feed w) ∨ r.call = .finish →
        ∃ e : CompileError, e.kind = .compilerState ∧ r.result = .error (.compile e)) := by
  obtain ⟨hsound, hbefore, hafter⟩ := history_absorbed hterminal hr
  rw [← hbefore] at hterminal
  refine ⟨hafter, ?_, ?_⟩
  · intro spans hgiven
    obtain ⟨-, halive, -⟩ := hsound.finished spans hgiven
    rw [hterminal] at halive
    cases halive
  · rintro (⟨w, hcall⟩ | hcall)
    · refine ⟨r.before.compiler.feedError w.loc, rfl, ?_⟩
      rw [eq_record_of_mem_history hr, hcall, record, perform, feed_of_terminal host hterminal]
      rfl
    · exact ⟨_, rfl, hsound.refused hcall hterminal⟩

/-! ## Final failures -/

/-- What a word leaves that fails, by what it fails with. -/
theorem after_record_of_failed (host : Host σ) {s : Session σ} {w : Word} {e : Failure}
    (halive : s.compiler.state.isTerminal = false)
    (hfailed : (s.record host (.feed w)).result = .error e) :
    ∃ owned, (s.record host (.feed w)).after.compiler =
      { s.compiler with owned }.afterFailure e := by
  apply Fed.after_failure _ halive
  have hfed := fed host w s.compiler s.store
  simp only [record, perform] at hfailed ⊢
  rcases hfeed : s.compiler.feed host w s.store with ⟨result, c', store'⟩
  rw [hfeed] at hfailed hfed
  cases result with
  | ok span => cases hfailed
  | error e' =>
    cases hfailed
    exact hfed

/-- A word that fails is the end of a compiler that has not ended if and only if it fails with a
compile error. -/
theorem failed_feed_final_iff (host : Host σ) (s : Session σ) (w : Word) (e : Failure)
    (halive : s.compiler.state.isTerminal = false)
    (hfailed : (s.record host (.feed w)).result = .error e) :
    let s' := (s.record host (.feed w)).after
    (s'.compiler.state = .failed ↔ ∃ e', e = .compile e') ∧
    -- spans are given later on, or never
    ((∀ calls, ∀ r ∈ s'.history host calls, ∀ spans, r.result ≠ .ok (.finished spans)) ↔
      ∃ e', e = .compile e') ∧
    -- all later words, and finishing, are refused, or this word has done nothing but claim values
    ((∃ e', e = .compile e') → ∀ calls, ∀ r ∈ s'.history host calls,
      r.after.compiler = s'.compiler ∧
        ((∃ w', r.call = .feed w') ∨ r.call = .finish →
          ∃ e' : CompileError, e'.kind = .compilerState ∧ r.result = .error (.compile e'))) ∧
    ((∀ e', e ≠ .compile e') →
      ∃ owned, s'.compiler = { s.compiler with owned } ∧
        ∃ r ∈ s'.history host (closingCalls s.compiler.scopes.entries),
          r.result = .ok (.finished s.compiler.spans)) := by
  intro s'
  obtain ⟨owned, hcompiler⟩ := after_record_of_failed host halive hfailed
  by_cases hcompile : ∃ e', e = .compile e'
  · obtain ⟨e', rfl⟩ := hcompile
    have hstate : s'.compiler.state = .failed := by
      rw [hcompiler]
      rfl
    have hterminal : s'.compiler.state.isTerminal = true := by
      rw [hstate]
      rfl
    refine ⟨iff_of_true hstate ⟨e', rfl⟩, iff_of_true ?_ ⟨e', rfl⟩, ?_, ?_⟩
    · intro calls r hr
      exact (refused_of_terminal hterminal hr).2.1
    · intro _ calls r hr
      obtain ⟨hsame, -, hrefused⟩ := refused_of_terminal hterminal hr
      exact ⟨hsame, hrefused⟩
    · intro hother
      exact absurd rfl (hother e')
  · have hother : ∀ e', e ≠ .compile e' := fun e' he => hcompile ⟨e', he⟩
    rw [afterFailure_of_ne_compile _ hother] at hcompiler
    have halive' : s'.compiler.state.isTerminal = false := by
      rw [hcompiler]
      exact halive
    have hgiven := finished_mem_history_closing host s.compiler.scopes.entries s' halive'
      (by rw [hcompiler])
    have hspans : s'.compiler.spans = s.compiler.spans := by
      rw [hcompiler]
    rw [hspans] at hgiven
    refine ⟨iff_of_false ?_ hcompile, iff_of_false ?_ hcompile, ?_, ?_⟩
    · intro hstate
      rw [hstate] at halive'
      cases halive'
    · intro hnever
      obtain ⟨r, hr, hresult⟩ := hgiven
      exact hnever _ r hr _ hresult
    · intro h
      exact absurd h hcompile
    · intro _
      exact ⟨owned, hcompiler, hgiven⟩

/-- A host whose functions raise an error of their own. -/
def boomHost : Host Unit where
  call _ _ _ _ := (.error (.value (.reported "boom")), ())

/-- An open element with an attribute that calls `boom`, behind a text without attributes. -/
def boomSession : Session Unit :=
  let calls : List CompilerCall := [.feed (.text "t" none),
    .feed (.startTag "a" (.ofList [("x", .expr (.call "boom" []))]) none)]
  let start : Session Unit := ⟨Compiler.start (.ofList [("boom", .function (.given 0) "boom")]),
    ⟨(), [], 0⟩, ⟨{}, false, [], ∅, ""⟩⟩
  calls.foldl (fun s call => (s.record boomHost call).after) start

/-- An end tag that does not fit is final: the text in front is never given. -/
theorem misfit_endTag_final :
    let failed := boomSession.record boomHost (.feed (.endTag "b" none))
    boomSession.compiler.state.isTerminal = false ∧
    (∃ e, e.kind = .mismatchedTag ∧ failed.result = .error (.compile e)) ∧
    failed.after.compiler.state = .failed ∧
    ∀ calls, ∀ r ∈ failed.after.history boomHost calls, ∀ spans,
      r.result ≠ .ok (.finished spans) := by
  intro failed
  obtain ⟨hstate, hfinal, -, -⟩ :=
    failed_feed_final_iff boomHost boomSession (.endTag "b" none) _ rfl rfl
  exact ⟨rfl, ⟨_, rfl, rfl⟩, hstate.mpr ⟨_, rfl⟩, hfinal.mpr ⟨_, rfl⟩⟩

/-- A text whose attribute raises an error of a bound function is not final: the compiler is still
in scope, takes the end tag, and gives the text in front. -/
theorem boom_not_final :
    let failed := boomSession.record boomHost (.feed (.text "u" none))
    boomSession.compiler.state.isTerminal = false ∧
    failed.result = .error (.value (.reported "boom")) ∧
    failed.after.compiler.state = .inScope ∧
    (failed.after.history boomHost [.feed (.endTag "a" none), .finish]).map CallRecord.result =
      [.ok (.fed none), .ok (.finished [⟨"t", [], {}, none⟩])] :=
  ⟨rfl, rfl, rfl, rfl⟩

end Session

end MarkupSpans
