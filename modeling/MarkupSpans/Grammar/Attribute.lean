import MarkupSpans.Grammar.Expression
import MarkupSpans.NameMap
import MarkupSpans.Value

/-!
# Attributes in the text

An attribute is a name, an equals sign and a value; in front of every attribute of a tag stands
space.  Of a repeated name the last value counts, and every repetition is worth a notice.
-/

set_option autoImplicit false

namespace MarkupSpans.Grammar

open Text

/-- The value of an attribute in braces, behind the opening one; the attribute `name` began where
`opened` characters were left. -/
def readBracedValue (name : String) (opened : Nat) (cs : List Char) : Outcome Expr :=
  match readExpression true (skipSpace cs) with
  | .missed => .faulty ⟨.bracedGarbage name, (skipSpace cs).length⟩
  | .faulty fault => .faulty fault
  | .matched value rest =>
    match skipSpace rest with
    | '}' :: behind => .matched value behind
    | _ => .faulty ⟨.bracesNotClosed name, opened⟩

/-- The value of the attribute `name` without braces, which is no call. -/
def readBareValue (name : String) (cs : List Char) : Outcome Expr :=
  match readExpression false cs with
  | .missed =>
    if cs.isEmpty || cs.head? == some '>' then .faulty ⟨.valueMissing name, cs.length⟩
    else .faulty ⟨.valueGarbage name, cs.length⟩
  | outcome => outcome

/-- An attribute with its value. -/
def readAttribute (cs : List Char) : Outcome (String × Expr) :=
  let chars := cs.takeWhile isAttributeNameChar
  if chars.isEmpty then .missed
  else
    let name := String.ofList chars
    match skipSpace (cs.dropWhile isAttributeNameChar) with
    | '=' :: rest =>
      match skipSpace rest with
      | '{' :: inside => (readBracedValue name cs.length inside).map (name, ·)
      | value => (readBareValue name value).map (name, ·)
    | _ => .faulty ⟨.equalsMissing name, cs.length⟩

/-- A value in braces takes up at least one character. -/
theorem readBracedValue_length {name : String} {opened : Nat} {cs rest : List Char} {e : Expr}
    (h : readBracedValue name opened cs = .matched e rest) : rest.length < cs.length := by
  unfold readBracedValue at h
  have hskip := skipSpace_length cs
  split at h
  · simp at h
  · simp at h
  · rename_i value behind hvalue
    have hlen := readExpression_length hvalue
    have hskip' := skipSpace_length behind
    split at h
    · rename_i closed hclosed
      rw [hclosed, List.length_cons] at hskip'
      simp only [Outcome.matched.injEq] at h
      rw [← h.2]
      omega
    · simp at h

/-- A value without braces takes up at least one character. -/
theorem readBareValue_length {name : String} {cs rest : List Char} {e : Expr}
    (h : readBareValue name cs = .matched e rest) : rest.length < cs.length := by
  unfold readBareValue at h
  split at h
  · split at h <;> simp at h
  · exact readExpression_length h

/-- An attribute takes up at least one character. -/
theorem readAttribute_length {cs rest : List Char} {pair : String × Expr}
    (h : readAttribute cs = .matched pair rest) : rest.length < cs.length := by
  unfold readAttribute at h
  simp only at h
  split at h
  · simp at h
  · have hname := (List.dropWhile_sublist isAttributeNameChar (l := cs)).length_le
    have hskip := skipSpace_length (cs.dropWhile isAttributeNameChar)
    split at h
    · rename_i behind hbehind
      rw [hbehind, List.length_cons] at hskip
      have hskip' := skipSpace_length behind
      split at h
      · rename_i inside hinside
        rw [hinside, List.length_cons] at hskip'
        rw [Outcome.map_eq_matched_iff] at h
        obtain ⟨_, h, _⟩ := h
        have := readBracedValue_length h
        omega
      · rw [Outcome.map_eq_matched_iff] at h
        obtain ⟨_, h, _⟩ := h
        have := readBareValue_length h
        omega
    · simp at h

/-- An attribute as it was read, where `left` characters were left in front of it. -/
structure ReadAttribute where
  name : String
  /-- Its value, not yet evaluated. -/
  value : Expr
  /-- The number of characters from its first one to the end of the text. -/
  left : Nat

/-- The attributes of a tag in the order of the text, and how reading them ended: with a fault, or
where the tag goes on. -/
structure AttributeList where
  read : List ReadAttribute
  /-- The fault that stopped the reading, or the rest of the text. -/
  ending : Except (Placed SyntaxFault) (List Char)

/-- Whether the attributes of a tag end here. -/
def endsAttributes (cs : List Char) : Bool :=
  cs.isEmpty || cs.head? == some '/' || cs.head? == some '>'

/-- The attributes of a tag from some place on; `whole` is the text from the first one on. -/
def attributesFrom (tag : String) (whole cs : List Char) : AttributeList :=
  let here := skipSpace cs
  if endsAttributes here then ⟨[], .ok here⟩
  else if here.length = cs.length then
    let near := whole.take (whole.length - here.length + 5)
    ⟨[], .error ⟨.spaceExpected tag (String.ofList near), here.length⟩⟩
  else
    match _h : readAttribute here with
    | .missed => ⟨[], .ok here⟩
    | .faulty fault => ⟨[], .error fault⟩
    | .matched (name, value) rest =>
      let more := attributesFrom tag whole rest
      ⟨⟨name, value, here.length⟩ :: more.read, more.ending⟩
termination_by cs.length
decreasing_by
  have := readAttribute_length _h
  have := skipSpace_length cs
  simp only [here] at *
  omega

/-- The attributes of a tag. -/
def readAttributes (tag : String) (cs : List Char) : AttributeList := attributesFrom tag cs cs

/-- The attributes among some that repeat a name, of theirs or of `seen`. -/
def repeatedAmong (seen : List String) : List ReadAttribute → List ReadAttribute
  | [] => []
  | one :: rest =>
    if seen.contains one.name then one :: repeatedAmong seen rest
    else repeatedAmong (one.name :: seen) rest

namespace AttributeList

/-- The notices that the attributes of a tag are worth: one for each repetition of a name. -/
def notices (tag : String) (list : AttributeList) : List (Placed Notice) :=
  (repeatedAmong [] list.read).map fun one => ⟨.repeatedAttribute one.name tag, one.left⟩

/-- The map of the attributes, in which a repeated name keeps its place and takes its last
value. -/
def toMap (list : AttributeList) : NameMap Value :=
  NameMap.ofList (list.read.map fun one => (one.name, .expr one.value))

end AttributeList

/-- Reading attributes does not lengthen the text. -/
theorem attributesFrom_length {tag : String} {whole cs rest : List Char}
    (h : (attributesFrom tag whole cs).ending = .ok rest) : rest.length ≤ cs.length := by
  fun_induction attributesFrom tag whole cs with
  | case1 cs here hend =>
    simp only [Except.ok.injEq] at h
    rw [← h]
    exact skipSpace_length cs
  | case2 cs here hend hspace near => simp at h
  | case3 cs here hend hspace hmissed =>
    simp only [Except.ok.injEq] at h
    rw [← h]
    exact skipSpace_length cs
  | case4 cs here hend hspace fault hfaulty => simp at h
  | case5 cs here hend hspace name value behind hread more ih =>
    have := ih h
    have := readAttribute_length hread
    have := skipSpace_length cs
    simp only [here] at *
    omega

end MarkupSpans.Grammar
