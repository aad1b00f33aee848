import MarkupSpans.Grammar.Word

/-!
# The words of a text

A text is read word by word, with space around them.  Reading ends at the end of the text, at the
first fault, or at text that starts no word; the latter is worth a notice only, where it is
allowed.
-/

set_option autoImplicit false

namespace MarkupSpans.Grammar

/-- What reading a text comes upon. -/
inductive Token where
  | word (w : Word)
  | notice (n : Notice)

/-- What reading a text comes upon, in order, and the fault that ends it, if there is one. -/
structure Tokens where
  read : List (Placed Token)
  /-- What stopped the reading before the end of the text. -/
  fault : Option (Placed SyntaxFault)

/-- Notices in front of what is read next. -/
def Tokens.withNotices (notices : List (Placed Notice)) (tokens : Tokens) : Tokens :=
  { tokens with read := notices.map (fun n => ⟨.notice n.item, n.left⟩) ++ tokens.read }

/-- What is shown of text that starts no word: the rest of its line, but no more than twenty
characters. -/
def trailingGarbage (cs : List Char) : String :=
  let line := cs.takeWhile (· != '\n')
  if line.length > 20 then String.ofList (line.take 20 ++ ['.', '.', '.']) else String.ofList line

/-- The end of reading at text that starts no word. -/
def readTrailing (trailingAllowed : Bool) (cs : List Char) : Tokens :=
  if trailingAllowed then ⟨[⟨.notice (.trailingText (trailingGarbage cs)), cs.length⟩], none⟩
  else ⟨[], some ⟨.notAWord (trailingGarbage cs), cs.length⟩⟩

/-- The words of a text. -/
def readTokens (trailingAllowed : Bool) (cs : List Char) : Tokens :=
  let here := skipSpace cs
  if here.isEmpty then ⟨[], none⟩
  else
    match _h : readWord here with
    | (_, .missed) => readTrailing trailingAllowed here
    | (notices, .faulty fault) => Tokens.withNotices notices ⟨[], some fault⟩
    | (notices, .matched w rest) =>
      let more := readTokens trailingAllowed rest
      Tokens.withNotices notices ⟨⟨.word w, here.length⟩ :: more.read, more.fault⟩
termination_by cs.length
decreasing_by
  have := readWord_length (congrArg Prod.snd _h)
  have := skipSpace_length cs
  simp only [here] at *
  omega

end MarkupSpans.Grammar
