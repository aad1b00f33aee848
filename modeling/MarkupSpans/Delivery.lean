import MarkupSpans.Report
import MarkupSpans.WordStream

/-!
# Words with reports

The words of a stream while its notices are reported.  A report may end the run, and then the
words behind it are not reached.
-/

set_option autoImplicit false

namespace MarkupSpans

/-- Reports notices in order, until one ends the run. -/
def Reporter.warnAll : List (Grammar.Notice × String) → Reporter → Except Failure Unit × Reporter
  | [], r => (.ok (), r)
  | (n, loc) :: rest, r =>
    match r.warn n.message (some (.text loc)) with
    | (.error e, r') => (.error e, r')
    | (.ok (), r') => Reporter.warnAll rest r'

/-- What was got out of a stream. -/
structure Delivery where
  /-- The words in front of the failure, or all of them. -/
  words : List Word
  failure : Option Failure
  reporter : Reporter

/-- Takes the items of a stream in order; `failure` is what fails behind the last one. -/
def deliverItems (failure : Option Failure) : List StreamItem → Reporter → Delivery
  | [], r => ⟨[], failure, r⟩
  | .word w :: rest, r =>
    let more := deliverItems failure rest r
    { more with words := w :: more.words }
  | .notice n loc :: rest, r =>
    match r.warn n.message (some (.text loc)) with
    | (.error e, r') => ⟨[], some e, r'⟩
    | (.ok (), r') => deliverItems failure rest r'
  | .stray :: rest, r => deliverItems failure rest r

/-- The words of a stream, up to its first failure. -/
def WordStream.deliver (stream : WordStream) (r : Reporter) : Delivery :=
  deliverItems stream.failure stream.items r

/-- All words of a text, if nothing fails. -/
def parseWords (source : Source) (r : Reporter) : Except Failure (List Word) × Reporter :=
  let delivery := source.words.deliver r
  match delivery.failure with
  | none => (.ok delivery.words, delivery.reporter)
  | some e => (.error e, delivery.reporter)

end MarkupSpans
