import MarkupSpans.Compiler
import MarkupSpans.Report
import MarkupSpans.WordStream

/-!
# Compilations

A compiler fed from a stream of words, with reports on the way.  Items are taken one by one: when
a word fails, nothing behind it is reported or evaluated.
-/

set_option autoImplicit false

namespace MarkupSpans

/-- Everything that a compilation changes. -/
structure Session (σ : Type) where
  compiler : Compiler
  /-- The state of objects and calls. -/
  store : Store σ
  reporter : Reporter

namespace Session

variable {σ : Type}

/-- Takes one item of a stream: feeds a word, or reports a notice. -/
def take (host : Host σ) (item : StreamItem) (s : Session σ) : Except Failure Unit × Session σ :=
  match item with
  | .word w =>
    let (result, compiler, store) := s.compiler.feed host w s.store
    (result.map fun _ => (), { s with compiler, store })
  | .notice n loc =>
    let (result, reporter) := s.reporter.warn n.message (some (.text loc))
    (result, { s with reporter })
  | .stray => (.error s.compiler.feedStray, s)

/-- Takes the items of a stream until one fails. -/
def takeAll (host : Host σ) : List StreamItem → Session σ → Except Failure Unit × Session σ
  | [], s => (.ok (), s)
  | item :: rest, s =>
    match s.take host item with
    | (.error e, s') => (.error e, s')
    | (.ok (), s') => takeAll host rest s'

/-- Takes all that a source of words gives; what the source fails with, if it fails, comes behind
the last item. -/
def feedSource (host : Host σ) (items : List StreamItem) (failure : Option Failure)
    (s : Session σ) : Except Failure Unit × Session σ :=
  match s.takeAll host items with
  | (.error e, s') => (.error e, s')
  | (.ok (), s') =>
    match failure with
    | none => (.ok (), s')
    | some e => (.error e, { s' with compiler := s'.compiler.afterSource e })

/-- Takes a whole stream; a compile error that breaks the stream off ends the compiler. -/
def feedAll (host : Host σ) (stream : WordStream) (s : Session σ) :
    Except Failure Unit × Session σ :=
  s.feedSource host stream.items stream.failure

/-- Ends the compilation and gives the spans. -/
def finish (s : Session σ) : Except Failure Spans × Session σ :=
  let (result, compiler) := s.compiler.finish
  (result.mapError .compile, { s with compiler })

end Session

section

variable {σ : Type}

/-- The spans of a stream of words, with what changed on the way. -/
def compileStream (host : Host σ) (bindings : NameMap Value) (stream : WordStream)
    (store : Store σ) (reporter : Reporter) : Except Failure Spans × Session σ :=
  match Session.feedAll host stream ⟨Compiler.start bindings, store, reporter⟩ with
  | (.error e, s) => (.error e, s)
  | (.ok (), s) => s.finish

/-- The spans of a text. -/
def compileMarkup (host : Host σ) (bindings : NameMap Value) (source : Source)
    (store : Store σ) (reporter : Reporter) : Except Failure Spans × Session σ :=
  compileStream host bindings source.words store reporter

/-- The spans of a text, or nothing if there is a compile error, which is then reported. -/
def tryCompileMarkup (host : Host σ) (bindings : NameMap Value) (source : Source)
    (store : Store σ) (reporter : Reporter) : Except Failure (Option Spans) × Session σ :=
  match compileMarkup host bindings source store reporter with
  | (.ok spans, s) => (.ok (some spans), s)
  | (.error (.compile e), s) =>
    let (result, reporter) := s.reporter.dieFromError e
    (result.map fun _ => none, { s with reporter })
  | (.error failure, s) => (.error failure, s)

end

end MarkupSpans
