import MarkupSpans.Compilation
import MarkupSpans.Proofs.Compiling
import MarkupSpans.Proofs.Delivering

/-!
# The life of a compiler

A compiler is fed words one by one or from a source, and is finished, in any order and as often as
one likes.  What one word can do to it is said once, by `Compiler.Fed`; a call is a row of such
steps (`Compiler.FedRow`), with the failure of a word source or the end of the compilation behind
it.  From the steps follow the invariants of whole runs, which `compiler_lifecycle` puts together.
-/

set_option autoImplicit false

namespace MarkupSpans

variable {σ : Type}

/-! ## Feeding one word -/

/-- A word fed to a compiler. -/
structure Feeding where
  before : Compiler
  word : Word
  result : Except Failure (Option Span)
  after : Compiler

/-- The span that is returned, if one is. -/
def Feeding.returned (f : Feeding) : Spans :=
  match f.result with
  | .ok (some span) => [span]
  | _ => []

namespace Compiler

/-- What feeding a word can come to, and the compiler behind it. -/
inductive Fed (c : Compiler) : Except Failure (Option Span) → Compiler → Prop
  /-- A compiler that has ended takes no word. -/
  | refused (loc : Option String) :
      c.state.isTerminal = true → Fed c (.error (.compile (c.feedError loc))) c
  /-- An end tag or the attributes of a text are wrong; values may have been claimed before. -/
  | failed (e : Failure) (owned : Claims) :
      c.state.isTerminal = false → Fed c (.error e) ({ c with owned }.afterFailure e)
  | text (span : Span) (owned : Claims) : c.state.isTerminal = false →
      Fed c (.ok (some span)) { c with owned, spans := c.spans ++ [span] }
  | opened (element : ScopeEntry) : c.state.isTerminal = false →
      Fed c (.ok none) { c with scopes := c.scopes.push element, state := .inScope }
  | closed (scopes : ScopeStack) : c.state.isTerminal = false →
      Fed c (.ok none)
        { c with scopes, state := if scopes.depth = 0 then CompilerState.ready else .inScope }

/-- Feeding a word comes to one of these. -/
theorem fed (host : Host σ) (w : Word) (c : Compiler) (store : Store σ) :
    Fed c (c.feed host w store).1 (c.feed host w store).2.1 := by
  cases halive : c.state.isTerminal with
  | true =>
    rw [feed_of_terminal host halive]
    exact .refused w.loc halive
  | false =>
    cases w with
    | text content loc =>
      rw [feed_text halive]
      rcases hgather : gatherAttributes host c.bindings c.scopes c.spans.length loc
        c.scopes.flat.entries {} c.owned store with ⟨result, owned, store'⟩
      cases result with
      | error e =>
        rw [feedText_of_gather_error content hgather]
        exact .failed e owned halive
      | ok attributes =>
        rw [feedText_of_gather content hgather]
        exact .text _ owned halive
    | startTag tag attributes loc =>
      rw [feed_startTag halive host ⟨tag, attributes, loc⟩]
      exact .opened _ halive
    | endTag tag loc =>
      cases hpop : c.scopes.pop tag loc with
      | error e =>
        rw [feed_endTag_of_error halive host hpop]
        exact .failed (.compile e) c.owned halive
      | ok r =>
        obtain ⟨top, scopes⟩ := r
        rw [feed_endTag_of_pop halive host hpop]
        exact .closed scopes halive

/-- Until a compiler has ended, its state tells whether elements are open. -/
def Consistent (c : Compiler) : Prop :=
  c.state.isTerminal = false →
    (c.state = .inScope ↔ 1 ≤ c.scopes.depth) ∧ (c.state = .ready ↔ c.scopes.depth = 0)

/-- A compiler that has ended is consistent. -/
theorem consistent_of_terminal {c : Compiler} (h : c.state.isTerminal = true) : c.Consistent := by
  intro halive
  rw [h] at halive
  cases halive

/-- A new compiler is consistent. -/
theorem consistent_start (bindings : NameMap Value) : (start bindings).Consistent := by
  intro _
  simp [start, ScopeStack.depth]

namespace Fed

variable {c c' : Compiler} {result : Except Failure (Option Span)}

/-- Feeding keeps a compiler consistent. -/
theorem consistent (h : Fed c result c') (hc : c.Consistent) : c'.Consistent := by
  cases h with
  | refused loc hterminal => exact hc
  | failed e owned halive =>
    cases e with
    | compile e => exact consistent_of_terminal rfl
    | _ => exact hc
  | text span owned halive => exact hc
  | opened element halive =>
    intro _
    have hdepth : (c.scopes.push element).depth = c.scopes.depth + 1 := by
      simp [ScopeStack.depth, ScopeStack.push]
    simp [hdepth]
  | closed scopes halive =>
    intro _
    by_cases hdepth : scopes.depth = 0
    · simp [hdepth]
    · simp [hdepth]
      omega

/-- The spans grow by what is returned. -/
theorem spans_eq (h : Fed c result c') (w : Word) :
    c'.spans = c.spans ++ (Feeding.mk c w result c').returned := by
  cases h with
  | refused loc hterminal => simp [Feeding.returned]
  | failed e owned halive => cases e <;> simp [Feeding.returned, afterFailure]
  | text span owned halive => rfl
  | opened element halive => simp [Feeding.returned]
  | closed scopes halive => simp [Feeding.returned]

/-- A compiler that has ended refuses every word and stays as it is. -/
theorem of_terminal (h : Fed c result c') (hc : c.state.isTerminal = true) :
    c' = c ∧ ∃ e : CompileError, result = .error (.compile e) ∧ e.kind = .compilerState := by
  cases h with
  | refused loc hterminal => exact ⟨rfl, _, rfl, rfl⟩
  | _ => simp_all

/-- A compile error is the end. -/
theorem terminal_of_compile {e : CompileError} (h : Fed c (.error (.compile e)) c') :
    c'.state.isTerminal = true := by
  cases h with
  | refused loc hterminal => exact hterminal
  | failed e owned halive => rfl

/-- A word does not finish a compiler. -/
theorem state_ne_finished (h : Fed c result c') (hc : c.state ≠ .finished) :
    c'.state ≠ .finished := by
  cases h with
  | refused loc hterminal => exact hc
  | failed e owned halive =>
    cases e with
    | compile e => exact fun h => by cases h
    | _ => exact hc
  | text span owned halive => exact hc
  | opened element halive => exact fun h => by cases h
  | closed scopes halive =>
    dsimp only
    split <;> exact fun h => by cases h

end Fed

/-- Words fed one after the other, from one compiler to another. -/
inductive FedRow : Compiler → List Feeding → Compiler → Prop
  | nil (c : Compiler) : FedRow c [] c
  | cons {c mid c' : Compiler} {w : Word} {result : Except Failure (Option Span)}
      {rest : List Feeding} : Fed c result mid → FedRow mid rest c' →
      FedRow c (⟨c, w, result, mid⟩ :: rest) c'

namespace FedRow

variable {c c' : Compiler} {row : List Feeding}

/-- A row of feedings keeps a compiler consistent, and each of its feedings does. -/
theorem consistent (h : FedRow c row c') (hc : c.Consistent) :
    c'.Consistent ∧ ∀ f ∈ row, f.after.Consistent := by
  induction h with
  | nil c => exact ⟨hc, by simp⟩
  | cons hfed _ ih =>
    have hmid := hfed.consistent hc
    obtain ⟨hlast, hrest⟩ := ih hmid
    refine ⟨hlast, ?_⟩
    intro f hf
    rcases List.mem_cons.mp hf with rfl | hf
    · exact hmid
    · exact hrest f hf

/-- Each feeding of a row is one of the compiler as it was then. -/
theorem fed_of_mem (h : FedRow c row c') {f : Feeding} (hf : f ∈ row) :
    Fed f.before f.result f.after := by
  induction h with
  | nil c => cases hf
  | cons hfed _ ih =>
    rcases List.mem_cons.mp hf with rfl | hf
    · exact hfed
    · exact ih hf

/-- A row of feedings adds the spans that they return. -/
theorem spans_eq (h : FedRow c row c') : c'.spans = c.spans ++ row.flatMap Feeding.returned := by
  induction h with
  | nil c => simp
  | @cons c mid c' w result rest hfed _ ih =>
    rw [ih, hfed.spans_eq w, List.append_assoc, List.flatMap_cons]

/-- A compiler that has ended stays as it is over a row of feedings. -/
theorem eq_of_terminal (h : FedRow c row c') (hc : c.state.isTerminal = true) : c' = c := by
  induction h with
  | nil c => rfl
  | cons hfed _ ih =>
    obtain ⟨rfl, -⟩ := hfed.of_terminal hc
    exact ih hc

/-- No feeding finishes a compiler. -/
theorem state_ne_finished (h : FedRow c row c') (hc : c.state ≠ .finished) :
    c'.state ≠ .finished := by
  induction h with
  | nil c => exact hc
  | cons hfed _ ih => exact ih (hfed.state_ne_finished hc)

end FedRow

/-! ## The failure of a word source, and the end -/

/-- A failure of a word source does nothing to a compiler that has ended; otherwise it does
nothing either, or it is a compile error and the compiler fails. -/
theorem afterSource_cases (c : Compiler) (e : Failure) :
    c.afterSource e = c ∧ (c.state.isTerminal = true ∨ ∀ e', e ≠ .compile e') ∨
      c.state.isTerminal = false ∧ c.afterSource e = { c with state := .failed } := by
  cases e with
  | compile e' =>
    unfold afterSource afterSourceError
    cases hc : c.state.isTerminal with
    | true => exact .inl ⟨rfl, .inl rfl⟩
    | false => exact .inr ⟨rfl, rfl⟩
  | _ => exact .inl ⟨rfl, .inr fun e' => by simp⟩

/-- What finishing can come to: the compiler has ended already, elements are open, or the spans
are given. -/
theorem finish_cases (c : Compiler) :
    c.state.isTerminal = true ∧ c.finish = (.error c.finishError, c) ∨
    c.state.isTerminal = false ∧ 1 ≤ c.scopes.depth ∧
      (∃ e, c.finish = (.error e, { c with state := .failed })) ∨
    c.state.isTerminal = false ∧ c.scopes.depth = 0 ∧
      c.finish = (.ok c.spans, { c with state := .finished }) := by
  unfold finish
  cases hc : c.state.isTerminal with
  | true => exact .inl ⟨rfl, rfl⟩
  | false =>
    rcases List.eq_nil_or_concat c.scopes.entries with hnil | ⟨outer, top, hconcat⟩
    · exact .inr (.inr ⟨rfl, by simp [ScopeStack.depth, hnil], by simp [hnil]⟩)
    · rw [List.concat_eq_append] at hconcat
      refine .inr (.inl ⟨rfl, by simp [ScopeStack.depth, hconcat], ?_⟩)
      simp [hconcat]

end Compiler

open Compiler

/-! ## Calls -/

/-- A call on a compiler. -/
inductive CompilerCall where
  | feed (w : Word)
  /-- Something that is not a word is fed. -/
  | feedStray
  /-- All that a source gives is fed; the source may fail behind the last item. -/
  | feedAll (items : List StreamItem) (failure : Option Failure)
  | finish

/-- What a call returns. -/
inductive CompilerAnswer where
  | fed (span : Option Span)
  | fedAll
  | finished (spans : Spans)

namespace Session

/-- The words that are fed when one item of a source is taken: the item itself, if it is one. -/
def feeding (host : Host σ) (item : StreamItem) (s : Session σ) : List Feeding :=
  match item with
  | .word w =>
    let (result, compiler, _) := s.compiler.feed host w s.store
    [⟨s.compiler, w, result, compiler⟩]
  | _ => []

/-- The words that are fed while the items of a source are taken, until one item fails. -/
def feedings (host : Host σ) : List StreamItem → Session σ → List Feeding
  | [], _ => []
  | item :: rest, s =>
    s.feeding host item ++
      match s.take host item with
      | (.ok (), s') => feedings host rest s'
      | (.error _, _) => []

/-- The answer to a call, the words that it feeds, and what it leaves. -/
def perform (host : Host σ) (s : Session σ) :
    CompilerCall → Except Failure CompilerAnswer × List Feeding × Session σ
  | .feed w =>
    let (result, compiler, store) := s.compiler.feed host w s.store
    (result.map .fed, [⟨s.compiler, w, result, compiler⟩], { s with compiler, store })
  | .feedStray => (.error s.compiler.feedStray, [], s)
  | .feedAll items failure =>
    let (result, s') := s.feedSource host items failure
    (result.map fun _ => .fedAll, s.feedings host items, s')
  | .finish =>
    let (result, s') := s.finish
    (result.map .finished, [], s')

end Session

/-- One call of a run. -/
structure CallRecord (σ : Type) where
  before : Session σ
  call : CompilerCall
  result : Except Failure CompilerAnswer
  /-- The words that the call feeds. -/
  feedings : List Feeding
  after : Session σ

/-- The spans that the feeds in a call return. -/
def CallRecord.returned (r : CallRecord σ) : Spans := r.feedings.flatMap Feeding.returned

namespace Session

/-- The record of a call. -/
def record (host : Host σ) (s : Session σ) (call : CompilerCall) : CallRecord σ :=
  let (result, fed, s') := s.perform host call
  ⟨s, call, result, fed, s'⟩

/-- The records of some calls, one after the other and whatever they come to. -/
def history (host : Host σ) : List CompilerCall → Session σ → List (CallRecord σ)
  | [], _ => []
  | call :: rest, s => s.record host call :: history host rest (s.record host call).after

/-! ## Taking items -/

/-- What taking an item comes to, as far as the compiler goes: a word is fed, and all else leaves
the compiler alone and raises no compile error. -/
theorem take_cases (host : Host σ) (item : StreamItem) (s : Session σ) :
    (∃ w result c', Fed s.compiler result c' ∧ s.feeding host item = [⟨s.compiler, w, result, c'⟩] ∧
      (s.take host item).1 = result.map (fun _ => ()) ∧ (s.take host item).2.compiler = c') ∨
    s.feeding host item = [] ∧ (s.take host item).2.compiler = s.compiler ∧
      ∀ e, (s.take host item).1 ≠ .error (.compile e) := by
  cases item with
  | word w => exact .inl ⟨w, _, _, Compiler.fed host w s.compiler s.store, rfl, rfl, rfl⟩
  | notice n loc =>
    refine .inr ⟨rfl, rfl, ?_⟩
    intro e
    exact s.reporter.warn_ne_compile _ _ e
  | stray =>
    refine .inr ⟨rfl, rfl, ?_⟩
    intro e
    show Except.error s.compiler.feedStray ≠ .error (.compile e)
    unfold Compiler.feedStray
    split <;> simp

/-- The words fed while items are taken lead from the compiler in front to the one behind. -/
theorem fedRow_takeAll (host : Host σ) (items : List StreamItem) (s : Session σ) :
    FedRow s.compiler (s.feedings host items) (s.takeAll host items).2.compiler := by
  induction items generalizing s with
  | nil => exact .nil _
  | cons item rest ih =>
    unfold feedings takeAll
    rcases htake : s.take host item with ⟨result, s'⟩
    have hcases := s.take_cases host item
    rw [htake] at hcases
    rcases hcases with ⟨w, fed, c', hfed, hfeeding, hresult, hcompiler⟩ | ⟨hfeeding, hcompiler, -⟩
    · dsimp only at hcompiler
      rw [hfeeding]
      subst hcompiler
      cases result with
      | error e => exact .cons hfed (.nil _)
      | ok _ => exact .cons hfed (ih s')
    · dsimp only at hcompiler
      rw [hfeeding, ← hcompiler]
      cases result with
      | error e => exact .nil _
      | ok _ => exact ih s'

/-- The error of a word is the error of the row it stands in. -/
theorem takeAll_eq_error_of_mem {host : Host σ} {items : List StreamItem} {s : Session σ}
    {f : Feeding} {e : Failure} (hf : f ∈ s.feedings host items) (hresult : f.result = .error e) :
    (s.takeAll host items).1 = .error e := by
  induction items generalizing s with
  | nil => cases hf
  | cons item rest ih =>
    unfold feedings at hf
    unfold takeAll
    rcases htake : s.take host item with ⟨result, s'⟩
    have hcases := s.take_cases host item
    rw [htake] at hf hcases
    rcases hcases with ⟨w, fed, c', -, hfeeding, htaken, -⟩ | ⟨hfeeding, -, -⟩
    · rw [hfeeding, List.singleton_append] at hf
      dsimp only at htaken
      rcases List.mem_cons.mp hf with rfl | hf
      · dsimp only at hresult
        subst hresult htaken
        rfl
      · cases result with
        | error e' => cases hf
        | ok _ => exact ih hf
    · rw [hfeeding, List.nil_append] at hf
      cases result with
      | error e' => cases hf
      | ok _ => exact ih hf

/-- A compile error among the items is the end of the compiler. -/
theorem terminal_of_takeAll {host : Host σ} {items : List StreamItem} {s : Session σ}
    {e : CompileError} (h : (s.takeAll host items).1 = .error (.compile e)) :
    (s.takeAll host items).2.compiler.state.isTerminal = true := by
  induction items generalizing s with
  | nil => cases h
  | cons item rest ih =>
    unfold takeAll at h ⊢
    rcases htake : s.take host item with ⟨result, s'⟩
    have hcases := s.take_cases host item
    rw [htake] at h hcases
    cases result with
    | ok _ => exact ih h
    | error e' =>
      dsimp only at h ⊢
      cases h
      rcases hcases with ⟨w, fed, c', hfed, -, htaken, rfl⟩ | ⟨-, -, hnot⟩
      · cases fed with
        | ok span => cases htaken
        | error e' =>
          cases htaken
          exact hfed.terminal_of_compile
      · exact absurd rfl (hnot e)

/-- Behind the items the compiler is left as it is, or its word source fails it. -/
theorem feedSource_compiler (host : Host σ) (items : List StreamItem) (failure : Option Failure)
    (s : Session σ) :
    (s.feedSource host items failure).2.compiler = (s.takeAll host items).2.compiler ∨
      (s.takeAll host items).2.compiler.state.isTerminal = false ∧
        (s.feedSource host items failure).2.compiler =
          { (s.takeAll host items).2.compiler with state := .failed } := by
  unfold feedSource
  rcases s.takeAll host items with ⟨result, s'⟩
  cases result with
  | error e => exact .inl rfl
  | ok _ =>
    cases failure with
    | none => exact .inl rfl
    | some e =>
      rcases s'.compiler.afterSource_cases e with ⟨heq, -⟩ | hfailed
      · exact .inl heq
      · exact .inr hfailed

/-- A source whose words cannot all be fed fails as the feeding does. -/
theorem feedSource_eq_error {host : Host σ} {items : List StreamItem} {s : Session σ}
    {e : Failure} (failure : Option Failure) (h : (s.takeAll host items).1 = .error e) :
    (s.feedSource host items failure).1 = .error e := by
  unfold feedSource
  rcases htaken : s.takeAll host items with ⟨result, s'⟩
  rw [htaken] at h
  dsimp only at h
  subst h
  rfl

/-- A compile error out of a source is the end of the compiler, whoever raised it. -/
theorem terminal_of_feedSource {host : Host σ} {items : List StreamItem}
    {failure : Option Failure} {s : Session σ} {e : CompileError}
    (h : (s.feedSource host items failure).1 = .error (.compile e)) :
    (s.feedSource host items failure).2.compiler.state.isTerminal = true := by
  rcases htaken : s.takeAll host items with ⟨result, s'⟩
  unfold feedSource at h ⊢
  rw [htaken] at h ⊢
  cases result with
  | error e' =>
    cases h
    have herror : (s.takeAll host items).1 = .error (.compile e) := by
      rw [htaken]
    have hterminal := terminal_of_takeAll herror
    rw [htaken] at hterminal
    exact hterminal
  | ok _ =>
    cases failure with
    | none => cases h
    | some e' =>
      cases h
      rcases s'.compiler.afterSource_cases (.compile e) with ⟨heq, hcases⟩ | ⟨-, heq⟩
      · rcases hcases with hterminal | hnot
        · show (s'.compiler.afterSource (.compile e)).state.isTerminal = true
          rw [heq]
          exact hterminal
        · exact absurd rfl (hnot e)
      · show (s'.compiler.afterSource (.compile e)).state.isTerminal = true
        rw [heq]
        rfl

/-! ## One call -/

end Session

/-- What every call on a compiler keeps to. -/
structure CallRecord.Sound (r : CallRecord σ) : Prop where
  consistent : r.before.compiler.Consistent →
    r.after.compiler.Consistent ∧ ∀ f ∈ r.feedings, f.after.Consistent
  spans_eq : r.after.compiler.spans = r.before.compiler.spans ++ r.returned
  /-- All that is fed is fed as `Compiler.Fed` says, -/
  fed : ∀ f ∈ r.feedings, Fed f.before f.result f.after
  /-- and the call fails as it does. -/
  error_of_fed : ∀ f ∈ r.feedings, ∀ e, f.result = .error e → r.result = .error e
  absorbed : r.before.compiler.state.isTerminal = true → r.after.compiler = r.before.compiler
  /-- A compile error ends the compiler, which then has failed unless it was finished before. -/
  failed : ∀ e, r.result = .error (.compile e) → r.after.compiler.state.isTerminal = true ∧
    (r.before.compiler.state ≠ .finished → r.after.compiler.state = .failed)
  refused : r.call = .finish → r.before.compiler.state.isTerminal = true →
    r.result = .error (.compile r.before.compiler.finishError)
  given : r.call = .finish → r.before.compiler.state.isTerminal = false →
    r.before.compiler.scopes.depth = 0 → r.result = .ok (.finished r.before.compiler.spans)
  /-- Only finishing returns spans, and only when nothing is open. -/
  finished : ∀ spans, r.result = .ok (.finished spans) → r.call = .finish ∧
    r.before.compiler.state.isTerminal = false ∧ r.before.compiler.scopes.depth = 0 ∧
    r.after.compiler.state = .finished ∧ spans = r.before.compiler.spans

/-- For a call that feeds nothing only its own effect has to be looked at. -/
theorem CallRecord.sound_of_feedings_eq_nil {r : CallRecord σ} (hnone : r.feedings = [])
    (hspans : r.after.compiler.spans = r.before.compiler.spans)
    (consistent : r.before.compiler.Consistent → r.after.compiler.Consistent)
    (absorbed : r.before.compiler.state.isTerminal = true → r.after.compiler = r.before.compiler)
    (failed : ∀ e, r.result = .error (.compile e) → r.after.compiler.state.isTerminal = true ∧
      (r.before.compiler.state ≠ .finished → r.after.compiler.state = .failed))
    (refused : r.call = .finish → r.before.compiler.state.isTerminal = true →
      r.result = .error (.compile r.before.compiler.finishError))
    (given : r.call = .finish → r.before.compiler.state.isTerminal = false →
      r.before.compiler.scopes.depth = 0 →
        r.result = .ok (.finished r.before.compiler.spans))
    (finished : ∀ spans, r.result = .ok (.finished spans) → r.call = .finish ∧
      r.before.compiler.state.isTerminal = false ∧ r.before.compiler.scopes.depth = 0 ∧
      r.after.compiler.state = .finished ∧ spans = r.before.compiler.spans) : r.Sound where
  consistent hconsistent := ⟨consistent hconsistent, by simp [hnone]⟩
  spans_eq := by simp [CallRecord.returned, hnone, hspans]
  fed := by simp [hnone]
  error_of_fed := by simp [hnone]
  absorbed := absorbed
  failed := failed
  refused := refused
  given := given
  finished := finished

namespace CompilerState

/-- A compiler that has ended without finishing has failed. -/
theorem eq_failed_of_terminal {state : CompilerState} (h : state.isTerminal = true)
    (hne : state ≠ .finished) : state = .failed := by
  cases state with
  | failed => rfl
  | finished => exact absurd rfl hne
  | _ => cases h

end CompilerState

namespace Session

/-- The record of a fed word is sound. -/
theorem record_feed_sound (host : Host σ) (s : Session σ) (w : Word) :
    (s.record host (.feed w)).Sound := by
  rcases hresult : s.compiler.feed host w s.store with ⟨result, c', store'⟩
  have hfed : Fed s.compiler result c' := by
    simpa [hresult] using Compiler.fed host w s.compiler s.store
  have hrecord : s.record host (.feed w) = ⟨s, .feed w, result.map .fed,
      [⟨s.compiler, w, result, c'⟩], { s with compiler := c', store := store' }⟩ := by
    simp only [record, perform, hresult]
  rw [hrecord]
  constructor
  · intro hconsistent
    have hafter := hfed.consistent hconsistent
    refine ⟨hafter, ?_⟩
    intro f hf
    rw [List.mem_singleton.mp hf]
    exact hafter
  · simpa [CallRecord.returned] using hfed.spans_eq w
  · intro f hf
    rw [List.mem_singleton.mp hf]
    exact hfed
  · intro f hf e he
    rw [List.mem_singleton.mp hf] at he
    dsimp only at he ⊢
    rw [he]
    rfl
  · intro hterminal
    exact (hfed.of_terminal hterminal).1
  · intro e he
    cases result with
    | ok span => cases he
    | error e' =>
      cases he
      have hterminal := hfed.terminal_of_compile
      exact ⟨hterminal, fun hne =>
        CompilerState.eq_failed_of_terminal hterminal (hfed.state_ne_finished hne)⟩
  · intro hcall
    cases hcall
  · intro hcall
    cases hcall
  · intro spans hspans
    cases result <;> cases hspans

/-- The record of something fed that is no word is sound. -/
theorem record_feedStray_sound (host : Host σ) (s : Session σ) :
    (s.record host .feedStray).Sound := by
  have hnot : ∀ e, Except.error (ε := Failure) (α := CompilerAnswer) s.compiler.feedStray ≠
      .error (.compile e) := by
    intro e
    unfold Compiler.feedStray
    split <;> simp
  apply CallRecord.sound_of_feedings_eq_nil rfl rfl
  · exact fun hconsistent => hconsistent
  · exact fun _ => rfl
  · exact fun e he => absurd he (hnot e)
  · exact fun hcall => by cases hcall
  · exact fun hcall => by cases hcall
  · exact fun spans hspans => by cases hspans

/-- Finishing refuses, fails or gives the spans, each in the state of the compiler that
`Compiler.finish_cases` tells. -/
theorem record_finish_sound (host : Host σ) (s : Session σ) : (s.record host .finish).Sound := by
  rcases hresult : s.compiler.finish with ⟨result, c'⟩
  have hrecord : s.record host .finish = ⟨s, .finish,
      (result.mapError .compile).map .finished, [], { s with compiler := c' }⟩ := by
    simp only [record, perform, Session.finish, hresult]
  have hcases := s.compiler.finish_cases
  rw [hresult] at hcases
  rw [hrecord]
  rcases hcases with ⟨hterminal, heq⟩ | ⟨halive, hopen, e, heq⟩ | ⟨halive, hdepth, heq⟩
  · obtain ⟨rfl, rfl⟩ := Prod.mk.inj heq
    apply CallRecord.sound_of_feedings_eq_nil rfl rfl
    · exact fun hconsistent => hconsistent
    · exact fun _ => rfl
    · exact fun e he => ⟨hterminal, CompilerState.eq_failed_of_terminal hterminal⟩
    · exact fun _ _ => rfl
    · exact fun _ halive => by simp [hterminal] at halive
    · exact fun spans hspans => by cases hspans
  · obtain ⟨rfl, rfl⟩ := Prod.mk.inj heq
    apply CallRecord.sound_of_feedings_eq_nil rfl rfl
    · exact fun _ => consistent_of_terminal rfl
    · exact fun hterminal => by simp [hterminal] at halive
    · exact fun e he => ⟨rfl, fun _ => rfl⟩
    · exact fun _ hterminal => by simp [hterminal] at halive
    · exact fun _ _ hnone => by simp [hnone] at hopen
    · exact fun spans hspans => by cases hspans
  · obtain ⟨rfl, rfl⟩ := Prod.mk.inj heq
    apply CallRecord.sound_of_feedings_eq_nil rfl rfl
    · exact fun _ => consistent_of_terminal rfl
    · exact fun hterminal => by simp [hterminal] at halive
    · exact fun e he => by cases he
    · exact fun _ hterminal => by simp [hterminal] at halive
    · exact fun _ _ _ => rfl
    · intro spans hspans
      cases hspans
      exact ⟨rfl, halive, hdepth, rfl, rfl⟩

/-- The record of a fed source is sound. -/
theorem record_feedAll_sound (host : Host σ) (s : Session σ) (items : List StreamItem)
    (failure : Option Failure) : (s.record host (.feedAll items failure)).Sound := by
  have hrow := s.fedRow_takeAll host items
  have hcompiler := s.feedSource_compiler host items failure
  constructor
  · intro hconsistent
    obtain ⟨hlast, hall⟩ := hrow.consistent hconsistent
    refine ⟨?_, hall⟩
    show (s.feedSource host items failure).2.compiler.Consistent
    rcases hcompiler with heq | ⟨-, heq⟩ <;> rw [heq]
    · exact hlast
    · exact consistent_of_terminal rfl
  · show (s.feedSource host items failure).2.compiler.spans = _
    have hspans := hrow.spans_eq
    rcases hcompiler with heq | ⟨-, heq⟩ <;> rw [heq] <;> exact hspans
  · intro f hf
    exact hrow.fed_of_mem hf
  · intro f hf e he
    show (s.feedSource host items failure).1.map _ = .error e
    rw [feedSource_eq_error failure (takeAll_eq_error_of_mem hf he)]
    rfl
  · intro hterminal
    show (s.feedSource host items failure).2.compiler = s.compiler
    have hsame := hrow.eq_of_terminal hterminal
    rcases hcompiler with heq | ⟨halive, -⟩
    · rw [heq, hsame]
    · rw [hsame] at halive
      exact absurd (halive.symm.trans hterminal) (by simp)
  · intro e he
    have herror : (s.feedSource host items failure).1 = .error (.compile e) := by
      change (s.feedSource host items failure).1.map _ = .error (.compile e) at he
      cases hresult : (s.feedSource host items failure).1 with
      | ok _ => rw [hresult] at he; cases he
      | error e' => rw [hresult] at he; cases he; rfl
    have hterminal := terminal_of_feedSource herror
    refine ⟨hterminal, ?_⟩
    intro hne
    apply CompilerState.eq_failed_of_terminal hterminal
    show (s.feedSource host items failure).2.compiler.state ≠ .finished
    rcases hcompiler with heq | ⟨-, heq⟩ <;> rw [heq]
    · exact hrow.state_ne_finished hne
    · exact fun h => by cases h
  · intro hcall
    cases hcall
  · intro hcall
    cases hcall
  · intro spans hspans
    change (s.feedSource host items failure).1.map _ = .ok (CompilerAnswer.finished spans) at hspans
    cases hresult : (s.feedSource host items failure).1 with
    | ok _ => rw [hresult] at hspans; cases hspans
    | error e' => rw [hresult] at hspans; cases hspans

/-- Every call keeps to it. -/
theorem record_sound (host : Host σ) (s : Session σ) (call : CompilerCall) :
    (s.record host call).Sound := by
  cases call with
  | feed w => exact s.record_feed_sound host w
  | feedStray => exact s.record_feedStray_sound host
  | feedAll items failure => exact s.record_feedAll_sound host items failure
  | finish => exact s.record_finish_sound host

/-! ## Whole runs -/

/-- A record of a run is sound, and its call meets what those before it have left. -/
theorem history_split {host : Host σ} {calls : List CompilerCall} {s : Session σ}
    {earlier later : List (CallRecord σ)} {r : CallRecord σ}
    (h : s.history host calls = earlier ++ r :: later) :
    r.Sound ∧ (s.compiler.Consistent → r.before.compiler.Consistent) ∧
      r.before.compiler.spans = s.compiler.spans ++ earlier.flatMap CallRecord.returned ∧
      ∃ rest, later = r.after.history host rest := by
  -- by induction on what lies in front of the record, call by call
  induction earlier generalizing calls s with
  | nil =>
    cases calls with
    | nil => cases h
    | cons call rest =>
      obtain ⟨rfl, rfl⟩ := List.cons.inj h
      refine ⟨s.record_sound host call, id, ?_, rest, rfl⟩
      show s.compiler.spans = _
      simp
  | cons first earlier ih =>
    cases calls with
    | nil => cases h
    | cons call rest =>
      obtain ⟨rfl, hrest⟩ := List.cons.inj h
      have hsound := s.record_sound host call
      obtain ⟨hr, hconsistent, hspans, hlater⟩ := ih hrest
      refine ⟨hr, fun hs => hconsistent (hsound.consistent hs).1, ?_, hlater⟩
      have hgrown : (s.record host call).after.compiler.spans =
          s.compiler.spans ++ (s.record host call).returned := hsound.spans_eq
      rw [hspans, hgrown, List.flatMap_cons, List.append_assoc]

/-- No call of a run moves a compiler that has ended. -/
theorem history_absorbed {host : Host σ} {calls : List CompilerCall} {s : Session σ}
    (hterminal : s.compiler.state.isTerminal = true) {r : CallRecord σ}
    (hr : r ∈ s.history host calls) :
    r.Sound ∧ r.before.compiler = s.compiler ∧ r.after.compiler = s.compiler := by
  induction calls generalizing s with
  | nil => cases hr
  | cons call rest ih =>
    have hsound := s.record_sound host call
    have hsame : (s.record host call).after.compiler = s.compiler := hsound.absorbed hterminal
    rcases List.mem_cons.mp hr with rfl | hr
    · exact ⟨hsound, rfl, hsame⟩
    · rw [← hsame] at hterminal ⊢
      exact ih hterminal hr

end Session

/-- What holds of every call in every run of a new compiler, whatever the bound functions and the
sources of words do. -/
theorem compiler_lifecycle (host : Host σ) (bindings : NameMap Value) (store : Store σ)
    (reporter : Reporter) (calls : List CompilerCall) (earlier later : List (CallRecord σ))
    (r : CallRecord σ)
    (hrun : Session.history host calls ⟨Compiler.start bindings, store, reporter⟩ =
      earlier ++ r :: later) :
    -- the state tells whether elements are open, also between the words of one call
    (r.before.compiler.Consistent ∧ r.after.compiler.Consistent ∧
      ∀ f ∈ r.feedings, f.after.Consistent) ∧
    -- the spans grow by those that the feeds return, and by nothing else
    (r.after.compiler.spans = r.before.compiler.spans ++ r.returned ∧
      ∀ f ∈ r.feedings, f.after.spans = f.before.spans ++ f.returned) ∧
    -- a compiler that has ended stays as it is
    (r.before.compiler.state.isTerminal = true → r.after.compiler = r.before.compiler) ∧
    (r.after.compiler.state.isTerminal = true →
      ∀ r' ∈ later, r'.after.compiler = r.after.compiler) ∧
    -- and takes no word,
    (∀ f ∈ r.feedings, f.before.state.isTerminal = true →
      f.after = f.before ∧ ∃ e : CompileError, e.kind = .compilerState ∧
        f.result = .error (.compile e) ∧ r.result = .error (.compile e)) ∧
    -- nor can it be finished
    (r.call = .finish → r.before.compiler.state.isTerminal = true →
      ∃ e : CompileError, e.kind = .compilerState ∧ r.result = .error (.compile e)) ∧
    -- finishing from the ready state, and nothing else, gives spans: those of all feeds so far
    (∀ spans, r.result = .ok (.finished spans) ↔ r.call = .finish ∧
      r.before.compiler.state = .ready ∧ spans = earlier.flatMap CallRecord.returned) ∧
    (∀ spans, r.result = .ok (.finished spans) → r.after.compiler.state = .finished) ∧
    -- and after a compile error there are none
    (∀ e, r.before.compiler.state.isTerminal = false → r.result = .error (.compile e) →
      r.after.compiler.state = .failed ∧
        ∀ r' ∈ later, ∀ spans, r'.result ≠ .ok (.finished spans)) := by
  obtain ⟨hsound, hconsistent, hspans, rest, rfl⟩ := Session.history_split hrun
  have hbefore := hconsistent (consistent_start bindings)
  have hgathered : r.before.compiler.spans = earlier.flatMap CallRecord.returned := hspans
  refine ⟨⟨hbefore, hsound.consistent hbefore⟩, ⟨hsound.spans_eq, ?_⟩, hsound.absorbed, ?_, ?_, ?_,
    ?_, ?_, ?_⟩
  · intro f hf
    exact (hsound.fed f hf).spans_eq f.word
  · intro hterminal r' hr'
    exact (Session.history_absorbed hterminal hr').2.2
  · intro f hf hterminal
    obtain ⟨hsame, e, hresult, hkind⟩ := (hsound.fed f hf).of_terminal hterminal
    exact ⟨hsame, e, hkind, hresult, hsound.error_of_fed f hf _ hresult⟩
  · intro hcall hterminal
    exact ⟨_, rfl, hsound.refused hcall hterminal⟩
  · intro spans
    constructor
    · intro hresult
      obtain ⟨hcall, halive, hdepth, -, hgiven⟩ := hsound.finished spans hresult
      exact ⟨hcall, (hbefore halive).2.mpr hdepth, hgiven.trans hgathered⟩
    · rintro ⟨hcall, hready, rfl⟩
      have halive : r.before.compiler.state.isTerminal = false := by
        rw [hready]
        rfl
      rw [hsound.given hcall halive ((hbefore halive).2.mp hready), hgathered]
  · intro spans hresult
    obtain ⟨-, -, -, hstate, -⟩ := hsound.finished spans hresult
    exact hstate
  · intro e halive herror
    obtain ⟨hterminal, hfailed⟩ := hsound.failed e herror
    have hne : r.before.compiler.state ≠ .finished := by
      intro hfinished
      rw [hfinished] at halive
      cases halive
    refine ⟨hfailed hne, ?_⟩
    intro r' hr' spans hgiven
    obtain ⟨hsound', hsame, -⟩ := Session.history_absorbed hterminal hr'
    obtain ⟨-, halive', -⟩ := hsound'.finished spans hgiven
    rw [hsame, hterminal] at halive'
    cases halive'

/-- A function that always fails, and not with a compile error. -/
def raisingHost : Host Unit where
  call _ _ _ _ := (.error .wrongType, ())

/-- A text whose attribute fails, a text that is well, something that is no word, a source that
breaks off, and then a word and the end, for which it is too late. -/
def brokenCalls : List CompilerCall :=
  [.feed (.startTag "a" (.ofList [("x", .expr (.call "f" []))]) none), .feed (.text "one" none),
    .feed (.endTag "a" none), .feed (.text "two" none), .feedStray,
    .feedAll [.word (.text "three" none)] (some (.compile (unboundReference "" none))),
    .feed (.text "four" none), .finish]

/-- A new compiler whose function `f` always fails. -/
def brokenSession : Session Unit :=
  ⟨Compiler.start (.ofList [("f", .function (.given 0) "f")]), ⟨(), [], 0⟩, ⟨{}, false, [], ∅, ""⟩⟩

/-- The source fails the compiler for good, though two spans were made before. -/
theorem brokenCalls_never_finish :
    let run := brokenSession.history raisingHost brokenCalls
    ∃ r, run = run.take 5 ++ r :: run.drop 6 ∧
      r.after.compiler.spans.map Span.text = ["two", "three"] ∧
      r.after.compiler.state = .failed ∧
      ∀ r' ∈ run.drop 6, ∀ spans, r'.result ≠ .ok (.finished spans) := by
  intro run
  have hrun : run = run.take 5 ++ run[5] :: run.drop 6 := rfl
  obtain ⟨-, -, -, -, -, -, -, -, hfailed⟩ :=
    compiler_lifecycle raisingHost _ _ _ brokenCalls (run.take 5) (run.drop 6) run[5] hrun
  obtain ⟨hstate, hnothing⟩ := hfailed (unboundReference "" none) rfl rfl
  exact ⟨run[5], hrun, rfl, hstate, hnothing⟩

end MarkupSpans
