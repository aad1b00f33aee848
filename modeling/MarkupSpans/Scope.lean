import MarkupSpans.CompileError
import MarkupSpans.NameMap
import MarkupSpans.Value

/-!
# Open elements

The elements that are open at a place of the markup, outermost first, each with the attributes it
defines.  Beside them stand two views that are kept up to date as elements open and close: how
often each tag is open, and all attributes together, where an inner element beats an outer one.
-/

set_option autoImplicit false

namespace MarkupSpans

/-- An open element. -/
structure ScopeEntry where
  tag : String
  attributes : NameMap Value
  loc : Option String

/-- An open element as messages give it; an empty place counts as none. -/
def ScopeEntry.print (entry : ScopeEntry) : String :=
  match entry.loc with
  | none => "<" ++ entry.tag ++ ">"
  | some loc =>
    if loc.isEmpty then "<" ++ entry.tag ++ ">" else "<" ++ entry.tag ++ "> at " ++ loc

/-- The open elements with their two views. -/
structure ScopeStack where
  /-- The open elements, outermost first. -/
  entries : List ScopeEntry := []
  /-- How often each tag is open. -/
  tagCounts : NameMap Nat := ∅
  /-- All attributes together, inner ones over outer ones. -/
  flat : NameMap Value := ∅

namespace ScopeStack

/-- The number of open elements. -/
def depth (s : ScopeStack) : Nat := s.entries.length

/-- The open elements as messages give them. -/
def printOpenTags (s : ScopeStack) : List String := s.entries.map ScopeEntry.print

/-- The tags of the open elements, outermost first. -/
def tags (s : ScopeStack) : List String := s.entries.map ScopeEntry.tag

/-- How often a tag is open. -/
def countOf (s : ScopeStack) (tag : String) : Nat := (s.tagCounts.get? tag).getD 0

/-- Whether a tag is open. -/
def isOpen (s : ScopeStack) (tag : String) : Bool := decide (0 < s.countOf tag)

/-- The attributes of some elements together: each element's laid over those outside it. -/
def flatten (entries : List ScopeEntry) : NameMap Value :=
  entries.foldl (fun acc entry => acc.overlay entry.attributes) ∅

/-- Opens an element inside those that are open. -/
def push (s : ScopeStack) (entry : ScopeEntry) : ScopeStack where
  entries := s.entries ++ [entry]
  tagCounts := s.tagCounts.insert entry.tag (s.countOf entry.tag + 1)
  flat := s.flat.overlay entry.attributes

/-- The error of an end tag while nothing is open. -/
def unstartedError (tag : String) (loc : Option String) : CompileError :=
  ⟨.unstartedTag,
    "Saw an end tag </" ++ tag ++ ">, but there's no open element corresponding to it.", loc⟩

/-- The error of an end tag that does not fit the innermost open element. -/
def mismatchedError (s : ScopeStack) (top : ScopeEntry) (tag : String) (loc : Option String) :
    CompileError :=
  ⟨.mismatchedTag,
    "Saw an end tag </" ++ tag ++ ">, but the innermost open element is " ++ top.print ++
      ".\nOpen tags: " ++ ", ".intercalate s.printOpenTags, loc⟩

/-- The error of elements that are open at the end. -/
def unclosedError (s : ScopeStack) (innermost : ScopeEntry) : CompileError :=
  ⟨.unclosedTag,
    "Reached the end of the markup with elements still open.\nOpen tags: " ++
      ", ".intercalate s.printOpenTags, innermost.loc⟩

/-- Closes the innermost open element, which must have the tag.  If it defined attributes, those
of the others are put together anew, so that nothing of it is left. -/
def pop (s : ScopeStack) (tag : String) (loc : Option String) :
    Except CompileError (ScopeEntry × ScopeStack) :=
  match s.entries.getLast? with
  | none => .error (unstartedError tag loc)
  | some top =>
    if top.tag = tag then
      let entries := s.entries.dropLast
      .ok (top,
        { entries
          tagCounts := s.tagCounts.insert tag (s.countOf tag - 1)
          flat := if top.attributes.isEmpty then s.flat else flatten entries })
    else .error (s.mismatchedError top tag loc)

/-- The innermost open element that defines an attribute. -/
def definingEntry? (s : ScopeStack) (name : String) : Option ScopeEntry :=
  s.entries.reverse.find? fun entry => entry.attributes.contains name

end ScopeStack

end MarkupSpans
