/-!
# Compile errors

What can be wrong with a piece of markup: the kinds of error, each a special case of another up
to the general one, and an error with its message and the place it speaks of.
-/

set_option autoImplicit false

namespace MarkupSpans

/-- The kinds of compile error. -/
inductive ErrorKind where
  /-- Anything that aborts a compilation. -/
  | general
  /-- A word that starts well and goes on badly. -/
  | grammar
  | unterminatedInput
  | scope
  /-- An end tag while no tag is open. -/
  | unstartedTag
  /-- An end tag for a tag that is not the innermost open one. -/
  | mismatchedTag
  /-- A tag that is still open at the end. -/
  | unclosedTag
  /-- A name that nothing is bound to, or a call of what cannot be called. -/
  | unboundReference
  /-- A move-only value that belongs elsewhere. -/
  | sharedResource
  /-- A word for a compiler that has ended. -/
  | compilerState
  deriving DecidableEq

namespace ErrorKind

/-- The name of a kind, as messages give it. -/
def name : ErrorKind → String
  | .general => "CompileError"
  | .grammar => "GrammarError"
  | .unterminatedInput => "UnterminatedInputError"
  | .scope => "ScopeError"
  | .unstartedTag => "UnstartedTagError"
  | .mismatchedTag => "MismatchedTagError"
  | .unclosedTag => "UnclosedTagError"
  | .unboundReference => "UnboundReferenceError"
  | .sharedResource => "SharedResourceError"
  | .compilerState => "CompilerStateError"

/-- A kind and the kinds that it is a special case of, itself first. -/
def ancestry : ErrorKind → List ErrorKind
  | .general => [.general]
  | .scope => [.scope, .general]
  | .unstartedTag => [.unstartedTag, .scope, .general]
  | .mismatchedTag => [.mismatchedTag, .scope, .general]
  | .unclosedTag => [.unclosedTag, .scope, .general]
  | kind => [kind, .general]

/-- All kinds of compile error. -/
def all : List ErrorKind :=
  [.general, .grammar, .unterminatedInput, .scope, .unstartedTag, .mismatchedTag, .unclosedTag,
    .unboundReference, .sharedResource, .compilerState]

/-- The kind that has a name. -/
def ofName? (name : String) : Option ErrorKind := all.find? fun kind => kind.name == name

end ErrorKind

/-- A compile error: its kind, its message, and the place it speaks of if that is known. -/
structure CompileError where
  kind : ErrorKind
  message : String
  /-- The place in the markup, if the word was read from text. -/
  loc : Option String
  deriving DecidableEq

/-- The message of an error with its place. -/
def CompileError.text (e : CompileError) : String :=
  match e.loc with
  | none => e.message
  | some loc => e.message ++ " (at " ++ loc ++ ")"

end MarkupSpans
