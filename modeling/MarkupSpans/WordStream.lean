import MarkupSpans.Grammar.Tokens
import MarkupSpans.Source

/-!
# Word streams

What a compiler is fed: words in order, the notices in between, and the failure, if there is one,
with which the stream breaks off.  A source gives its words as such a stream.
-/

set_option autoImplicit false

namespace MarkupSpans

/-- One item of a word stream. -/
inductive StreamItem where
  | word (w : Word)
  /-- Something to be said about a place. -/
  | notice (n : Grammar.Notice) (loc : String)
  /-- Something that is not a word. -/
  | stray

/-- Words with notices in between, and the failure that breaks the stream off. -/
structure WordStream where
  items : List StreamItem
  /-- What fails behind the last item; without a failure the stream just ends. -/
  failure : Option Failure

namespace WordStream

/-- The words of a stream. -/
def words (stream : WordStream) : List Word :=
  stream.items.filterMap fun
    | .word w => some w
    | _ => none

/-- The notices of a stream with their places. -/
def notices (stream : WordStream) : List (Grammar.Notice × String) :=
  stream.items.filterMap fun
    | .notice n loc => some (n, loc)
    | _ => none

end WordStream

namespace Source

/-- A fault at a place of the text, as a failure. -/
def failureOf (s : Source) (fault : Grammar.Placed Grammar.SyntaxFault) : Failure :=
  fault.item.failure (s.locOfLeft fault.left)

/-- A word or a notice with its place in the text. -/
def itemOf (s : Source) (token : Grammar.Placed Grammar.Token) : StreamItem :=
  match token.item with
  | .word w => .word (w.withLoc (some (s.locOfLeft token.left)))
  | .notice n => .notice n (s.locOfLeft token.left)

/-- What was read from the text, with its places. -/
def streamOf (s : Source) (tokens : Grammar.Tokens) : WordStream :=
  ⟨tokens.read.map s.itemOf, tokens.fault.map s.failureOf⟩

/-- The words of the text from an index on.  In front of the text nothing can be read, so there
the first line counts as text that starts no word. -/
def wordsFrom (s : Source) (start : Int) : WordStream :=
  if start < 0 then
    let garbage := Grammar.trailingGarbage s.chars
    if s.options.trailingAllowed then
      ⟨[.notice (.trailingText garbage) (s.loc start)], none⟩
    else ⟨[], some ((Grammar.SyntaxFault.notAWord garbage).failure (s.loc start))⟩
  else s.streamOf (Grammar.readTokens s.options.trailingAllowed (s.suffix start))

/-- The words of the text. -/
def words (s : Source) : WordStream := s.wordsFrom 0

end Source

end MarkupSpans
