import MarkupSpans.Grammar.Attribute
import MarkupSpans.Word

/-!
# Words in the text

A text word is a string literal in braces, a tag stands between angle brackets.  The first
character or two decide which word it is; from then on anything unexpected is a fault.
-/

set_option autoImplicit false

namespace MarkupSpans.Grammar

open Text

/-- A text word. -/
def readText : List Char → Outcome Word
  | '{' :: inside =>
    let opened := inside.length + 1
    let literal := skipSpace inside
    match readString literal with
    | .missed => .faulty ⟨.textNotQuoted, opened⟩
    | .faulty fault => .faulty fault
    | .matched content rest =>
      match skipSpace rest with
      | '}' :: behind => .matched (.text content none) behind
      | _ => .faulty ⟨.textNotClosed content, opened⟩
  | _ => .missed

/-- An end tag. -/
def readEndTag : List Char → Outcome Word
  | '<' :: '/' :: inside =>
    let opened := inside.length + 2
    if inside.head? == some '>' then .faulty ⟨.endNameMissing, opened⟩
    else if inside.isEmpty then .faulty ⟨.endTagCut, opened⟩
    else
      match readTagName inside with
      | .missed => .faulty ⟨.endTagGarbage, opened⟩
      | .faulty fault => .faulty fault
      | .matched tag rest =>
        match skipSpace rest with
        | [] => .faulty ⟨.endTagNotClosed tag, opened⟩
        | '>' :: behind => .matched (.endTag tag none) behind
        | _ => .faulty ⟨.endTagTail tag, opened⟩
  | _ => .missed

/-- The end of a start tag behind its attributes; the tag began where `opened` characters were
left.  Of what does not belong there, what comes before the next bracket or blank is shown, but
no more than twenty characters. -/
def closeStartTag (tag : String) (attributes : NameMap Value) (opened : Nat)
    (cs : List Char) : Outcome Word :=
  match skipSpace cs with
  | [] => .faulty ⟨.startTagNotClosed tag, opened⟩
  | '>' :: behind => .matched (.startTag tag attributes none) behind
  | '/' :: '>' :: rest => .faulty ⟨.selfClosing tag, rest.length + 2⟩
  | here =>
    let garbage := (here.take 20).takeWhile fun c => c != '>' && c != ' '
    .faulty ⟨.startTagGarbage tag (String.ofList garbage), here.length⟩

/-- A start tag, and the notices about its attributes. -/
def readStartTag : List Char → List (Placed Notice) × Outcome Word
  | '<' :: inside =>
    let opened := inside.length + 1
    match readTagName inside with
    | .faulty fault => ([], .faulty fault)
    | .missed =>
      if inside.head? == some '>' then ([], .faulty ⟨.startNameMissing, opened⟩)
      else ([], .faulty ⟨.startNameExpected (String.ofList (inside.take 10)), opened⟩)
    | .matched tag rest =>
      let list := readAttributes tag rest
      match list.ending with
      | .error fault => (list.notices tag, .faulty fault)
      | .ok behind => (list.notices tag, closeStartTag tag list.toMap opened behind)
  | _ => ([], .missed)

/-- A word, and the notices on the way. -/
def readWord (cs : List Char) : List (Placed Notice) × Outcome Word :=
  match cs with
  | '{' :: _ => ([], readText cs)
  | '<' :: '/' :: _ => ([], readEndTag cs)
  | '<' :: _ => readStartTag cs
  | _ => ([], .missed)

/-! ## A match leaves fewer characters -/

/-- A text word takes up at least one character. -/
theorem readText_length {cs rest : List Char} {w : Word}
    (h : readText cs = .matched w rest) : rest.length < cs.length := by
  unfold readText at h
  split at h
  · rename_i inside
    simp only at h
    split at h
    · simp at h
    · simp at h
    · rename_i content behind hstring
      have hlen := readString_length hstring
      have hskip := skipSpace_length inside
      have hskip' := skipSpace_length behind
      split at h
      · rename_i closed hclosed
        rw [hclosed, List.length_cons] at hskip'
        simp only [Outcome.matched.injEq] at h
        simp only [← h.2, List.length_cons]
        omega
      · simp at h
  · simp at h

/-- An end tag takes up at least one character. -/
theorem readEndTag_length {cs rest : List Char} {w : Word}
    (h : readEndTag cs = .matched w rest) : rest.length < cs.length := by
  unfold readEndTag at h
  split at h
  · rename_i inside
    simp only at h
    split at h
    · simp at h
    · split at h
      · simp at h
      · split at h
        · simp at h
        · simp at h
        · rename_i tag behind hname
          have hlen := readTagName_length hname
          have hskip := skipSpace_length behind
          split at h
          · simp at h
          · rename_i closed hclosed
            rw [hclosed, List.length_cons] at hskip
            simp only [Outcome.matched.injEq] at h
            simp only [← h.2, List.length_cons]
            omega
          · simp at h
  · simp at h

/-- The end of a start tag takes up at least one character. -/
theorem closeStartTag_length {tag : String} {attributes : NameMap Value} {opened : Nat}
    {cs rest : List Char} {w : Word}
    (h : closeStartTag tag attributes opened cs = .matched w rest) :
    rest.length < cs.length := by
  unfold closeStartTag at h
  have hskip := skipSpace_length cs
  split at h
  · simp at h
  · rename_i behind hbehind
    rw [hbehind, List.length_cons] at hskip
    simp only [Outcome.matched.injEq] at h
    rw [← h.2]
    omega
  · simp at h
  · simp at h

/-- A start tag takes up at least one character. -/
theorem readStartTag_length {cs rest : List Char} {w : Word}
    (h : (readStartTag cs).2 = .matched w rest) : rest.length < cs.length := by
  unfold readStartTag at h
  split at h
  · rename_i inside
    simp only at h
    split at h
    · simp at h
    · split at h <;> simp at h
    · rename_i tag behind hname
      have hlen := readTagName_length hname
      split at h
      · simp at h
      · rename_i after hafter
        have hattributes := attributesFrom_length hafter
        have := closeStartTag_length h
        simp only [List.length_cons]
        omega
  · simp at h

/-- A word is not empty. -/
theorem readWord_length {cs rest : List Char} {w : Word}
    (h : (readWord cs).2 = .matched w rest) : rest.length < cs.length := by
  unfold readWord at h
  split at h
  · exact readText_length h
  · exact readEndTag_length h
  · exact readStartTag_length h
  · simp at h

end MarkupSpans.Grammar
