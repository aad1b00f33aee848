import MarkupSpans.Proofs.Hexadecimal
import MarkupSpans.Proofs.Place

/-!
# Reading JSON

A reader of flat objects of JSON, whose values are integers, strings or null.  It passes over
blanks wherever JSON allows them and knows all escapes, surrogate pairs among them; other texts of
JSON are refused.  What is written as an object is read back (`decode_object`): a code point from
its escape, a string up to its closing quote, and so on up to the closing brace.

The two halves of a pair of surrogates are read as the character that they encode, also if they
were written one by one.  So a string is read back as it was with all such halves joined
(`joinPairs`), which is a difference only to texts that no row of characters is
(`joinPairs_eq_self_iff`).
-/

set_option autoImplicit false

namespace MarkupSpans.Report

namespace CodeText

/-! ## Halves of pairs -/

/-- The character that a pair of surrogates encodes. -/
def pairChar (n k : Fin 0x400) : Char := Char.ofNat (0x10000 + n * 0x400 + k)

/-- A text in which two halves that make up a pair have become one character. -/
def joinPairs : CodeText → CodeText
  | .high n :: .low k :: rest => .char (pairChar n k) :: joinPairs rest
  | point :: rest => point :: joinPairs rest
  | [] => []

/-- The code point that a pair of surrogates encodes. -/
theorem toNat_pairChar (n k : Fin 0x400) :
    (pairChar n k).toNat = 0x10000 + n * 0x400 + k := by
  have hvalid : (0x10000 + n.val * 0x400 + k.val).isValidChar := .inr (by omega)
  rw [pairChar, Char.ofNat, dif_pos hvalid]
  rfl

/-- No first half stands right in front of a second one. -/
def Whole (text : CodeText) : Prop := ∀ n k, ¬ [CodePoint.high n, CodePoint.low k] <:+: text

/-- Joining halves changes exactly the texts that hold two of them in a row. -/
theorem joinPairs_eq_self_iff (text : CodeText) : text.joinPairs = text ↔ text.Whole := by
  fun_induction joinPairs text with
  | case1 n k rest ih =>
    constructor
    · intro h
      cases (List.cons.inj h).1
    · intro h
      exact absurd (List.prefix_append [CodePoint.high n, .low k] rest).isInfix (h n k)
  | case2 point rest hnot ih =>
    simp only [List.cons.injEq, true_and, ih]
    constructor
    · intro h n k hinfix
      rcases List.infix_cons_iff.mp hinfix with hfront | hrest
      · -- the two halves would stand at the front
        obtain ⟨more, hmore⟩ := hfront
        obtain ⟨rfl, rfl⟩ := List.cons.inj hmore
        exact hnot n k more rfl rfl
      · exact h n k hrest
    · intro h n k hinfix
      exact h n k (List.infix_cons_iff.mpr (.inr hinfix))
  | case3 => simp [Whole]

/-- A text of characters holds no halves. -/
theorem whole_ofString (text : String) : (ofString text).Whole := by
  intro n k hinfix
  have hmem : CodePoint.high n ∈ ofString text := hinfix.subset List.mem_cons_self
  obtain ⟨c, -, hc⟩ := List.mem_map.mp hmem
  cases hc

/-- Joining halves changes no text of characters. -/
theorem joinPairs_ofString (text : String) : (ofString text).joinPairs = ofString text :=
  (joinPairs_eq_self_iff _).mpr (whole_ofString text)

/-- Texts of characters differ as code points if they differ. -/
theorem ofString_inj {a b : String} : ofString a = ofString b ↔ a = b := by
  have hmap : ofString a = ofString b ↔ a.toList = b.toList :=
    List.map_inj_right fun _ _ h => CodePoint.char.inj h
  exact hmap.trans String.toList_inj

end CodeText

namespace Json

open Text

/-- A value without parts. -/
inductive Scalar where
  | null
  | number (n : WritableInt)
  | text (content : CodeText)
  deriving DecidableEq

/-- A value as it is written. -/
def Scalar.written : Scalar → String
  | .null => "null"
  | .number n => decimalOfInt n
  | .text content => string content

/-- A value whose halves of pairs are joined. -/
def Scalar.joined : Scalar → Scalar
  | .text content => .text content.joinPairs
  | v => v

/-! ## The reader -/

/-- The characters that may stand between the parts of a text. -/
def isFiller (c : Char) : Bool := c == ' ' || c == '\t' || c == '\n' || c == '\r'

/-- Passes over what stands between two parts. -/
def skipFiller (cs : List Char) : List Char := cs.dropWhile isFiller

/-- What a letter behind a backslash stands for. -/
def letterEscape? : Char → Option Char
  | '\x22' => some '\x22'
  | '\\' => some '\\'
  | '/' => some '/'
  | 'b' => some '\x08'
  | 'f' => some '\x0c'
  | 'n' => some '\n'
  | 'r' => some '\r'
  | 't' => some '\t'
  | _ => none

/-- A unit of sixteen bits in four digits, and what stands behind it. -/
def readUnit : List Char → Option (Nat × List Char)
  | a :: b :: c :: d :: rest =>
    ([a, b, c, d].mapM hexDigitValue?).map fun digits =>
      (digits.foldl (fun unit digit => 16 * unit + digit) 0, rest)
  | _ => none

/-- The code point of a unit of sixteen bits. -/
def pointOfUnit (unit : Nat) : CodePoint :=
  if h : 0xd800 ≤ unit ∧ unit < 0xdc00 then .high ⟨unit - 0xd800, by omega⟩
  else if h : 0xdc00 ≤ unit ∧ unit < 0xe000 then .low ⟨unit - 0xdc00, by omega⟩
  else .char (Char.ofNat unit)

/-- The second half of a pair of surrogates, and what stands behind it. -/
def readLow : List Char → Option (Fin 0x400 × List Char)
  | '\\' :: 'u' :: cs =>
    match readUnit cs with
    | some (unit, rest) =>
      match pointOfUnit unit with
      | .low k => some (k, rest)
      | _ => none
    | none => none
  | _ => none

/-- The code point whose escape begins behind a backslash, and what stands behind it.  A second
half is taken together with the first one in front of it. -/
def readEscape : List Char → Option (CodePoint × List Char)
  | 'u' :: cs =>
    match readUnit cs with
    | none => none
    | some (unit, rest) =>
      match pointOfUnit unit with
      | .high n =>
        match readLow rest with
        | some (k, behind) => some (.char (CodeText.pairChar n k), behind)
        | none => some (.high n, rest)
      | point => some (point, rest)
  | c :: rest => (letterEscape? c).map (.char ·, rest)
  | [] => none

/-- One code point of a string, and what stands behind it. -/
def readPoint : List Char → Option (CodePoint × List Char)
  | '\\' :: cs => readEscape cs
  | c :: rest => if c.toNat < 0x20 then none else some (.char c, rest)
  | [] => none

/-- A unit takes up at least one character. -/
theorem readUnit_length {cs rest : List Char} {unit : Nat} (h : readUnit cs = some (unit, rest)) :
    rest.length < cs.length := by
  unfold readUnit at h
  split at h
  case h_1 =>
    obtain ⟨digits, -, heq⟩ := Option.map_eq_some_iff.mp h
    cases heq
    simp only [List.length_cons]
    omega
  case h_2 => cases h

/-- A second half takes up at least one character. -/
theorem readLow_length {cs rest : List Char} {k : Fin 0x400}
    (h : readLow cs = some (k, rest)) : rest.length < cs.length := by
  unfold readLow at h
  split at h
  case h_2 => cases h
  case h_1 more =>
    split at h
    case h_2 => cases h
    case h_1 unit behind hunit =>
      have hlength := readUnit_length hunit
      split at h <;> cases h
      simp only [List.length_cons]
      omega

/-- An escape takes up at least one character behind its backslash. -/
theorem readEscape_length {cs rest : List Char} {point : CodePoint}
    (h : readEscape cs = some (point, rest)) : rest.length < cs.length := by
  unfold readEscape at h
  split at h
  case h_1 =>
    split at h
    case h_1 => cases h
    case h_2 hunit =>
      have hlength := readUnit_length hunit
      rw [List.length_cons]
      split at h
      · split at h
        case h_1 hlow =>
          cases h
          have hlength' := readLow_length hlow
          omega
        case h_2 =>
          cases h
          omega
      · cases h
        omega
  case h_2 =>
    obtain ⟨c, -, heq⟩ := Option.map_eq_some_iff.mp h
    cases heq
    exact Nat.lt_succ_self _
  case h_3 => cases h

/-- A code point takes up at least one character. -/
theorem readPoint_length {cs rest : List Char} {point : CodePoint}
    (h : readPoint cs = some (point, rest)) : rest.length < cs.length := by
  unfold readPoint at h
  split at h
  case h_1 => exact Nat.lt_succ_of_lt (readEscape_length h)
  case h_2 =>
    split at h <;> cases h
    exact Nat.lt_succ_self _
  case h_3 => cases h

/-- The code points of a string whose opening quote has been passed, and what stands behind its
closing quote. -/
def readBody (cs : List Char) : Option (CodeText × List Char) :=
  if cs.head? = some '\x22' then some ([], cs.tail)
  else
    match _h : readPoint cs with
    | none => none
    | some (point, rest) => (readBody rest).map fun (body, behind) => (point :: body, behind)
termination_by cs.length
decreasing_by exact readPoint_length _h

/-- A string, and what stands behind it. -/
def readString : List Char → Option (CodeText × List Char)
  | '\x22' :: cs => readBody cs
  | _ => none

/-- A natural number without leading zeros, and what stands behind it. -/
def readNat (cs : List Char) : Option (Nat × List Char) :=
  let digits := cs.takeWhile Char.isDigit
  if digits = [] ∨ digits.head? = some '0' ∧ digits ≠ ['0'] then none
  else some (Nat.ofDigitChars 10 digits 0, cs.dropWhile Char.isDigit)

/-- An integer, and what stands behind it. -/
def readInt : List Char → Option (Int × List Char)
  | '-' :: cs => (readNat cs).map fun (n, behind) => (-n, behind)
  | cs => (readNat cs).map fun (n, behind) => (n, behind)

/-- A value, and what stands behind it; an integer of too many digits is refused. -/
def readScalar : List Char → Option (Scalar × List Char)
  | 'n' :: 'u' :: 'l' :: 'l' :: rest => some (.null, rest)
  | '\x22' :: cs => (readString ('\x22' :: cs)).map fun (text, behind) => (.text text, behind)
  | cs => (readInt cs).bind fun (n, behind) =>
    if h : isWritable n = true then some (.number ⟨n, h⟩, behind) else none

/-- A name and its value, and what stands behind them. -/
def readMember (cs : List Char) : Option ((CodeText × Scalar) × List Char) :=
  match readString (skipFiller cs) with
  | none => none
  | some (name, rest) =>
    match skipFiller rest with
    | ':' :: rest => (readScalar (skipFiller rest)).map fun (v, behind) => ((name, v), behind)
    | _ => none

/-- Passing over filler makes a text no longer. -/
theorem skipFiller_length (cs : List Char) : (skipFiller cs).length ≤ cs.length :=
  (List.dropWhile_sublist _).length_le

/-- The body of a string leaves no more than there was. -/
theorem readBody_length {cs rest : List Char} {body : CodeText}
    (h : readBody cs = some (body, rest)) :
    rest.length ≤ cs.length := by
  induction cs using readBody.induct generalizing body with
  | case1 cs hquote =>
    rw [readBody, if_pos hquote] at h
    obtain ⟨-, rfl⟩ := Prod.mk.inj (Option.some.inj h)
    exact (List.tail_sublist cs).length_le
  | case2 cs hquote hpoint =>
    rw [readBody, if_neg hquote] at h
    split at h
    · cases h
    · next hread => rw [hpoint] at hread; cases hread
  | case3 cs hquote point next hpoint ih =>
    rw [readBody, if_neg hquote] at h
    split at h
    · cases h
    · next hread =>
      rw [hpoint] at hread
      cases hread
      obtain ⟨read, hbody, heq⟩ := Option.map_eq_some_iff.mp h
      obtain ⟨-, rfl⟩ := Prod.mk.inj heq
      exact Nat.le_trans (ih hbody) (Nat.le_of_lt (readPoint_length hpoint))

/-- A string takes up at least one character, its opening quote. -/
theorem readString_length {cs rest : List Char} {text : CodeText}
    (h : readString cs = some (text, rest)) : rest.length < cs.length := by
  unfold readString at h
  split at h
  case h_1 => exact Nat.lt_succ_of_le (readBody_length h)
  case h_2 => cases h

/-- A natural number leaves no more than there was. -/
theorem readNat_length {cs rest : List Char} {n : Nat} (h : readNat cs = some (n, rest)) :
    rest.length ≤ cs.length := by
  dsimp only [readNat] at h
  split at h
  · cases h
  · obtain ⟨-, rfl⟩ := Prod.mk.inj (Option.some.inj h)
    exact (List.dropWhile_sublist _).length_le

/-- An integer leaves no more than there was. -/
theorem readInt_length {cs rest : List Char} {n : Int} (h : readInt cs = some (n, rest)) :
    rest.length ≤ cs.length := by
  unfold readInt at h
  split at h
  all_goals
    obtain ⟨read, hnat, heq⟩ := Option.map_eq_some_iff.mp h
    obtain ⟨-, rfl⟩ := Prod.mk.inj heq
    have hlength := readNat_length hnat
  · exact Nat.le_succ_of_le hlength
  · exact hlength

/-- A value leaves no more than there was. -/
theorem readScalar_length {cs rest : List Char} {v : Scalar}
    (h : readScalar cs = some (v, rest)) : rest.length ≤ cs.length := by
  unfold readScalar at h
  split at h
  case h_1 =>
    obtain ⟨-, rfl⟩ := Prod.mk.inj (Option.some.inj h)
    simp only [List.length_cons]
    omega
  case h_2 =>
    obtain ⟨read, hstring, heq⟩ := Option.map_eq_some_iff.mp h
    obtain ⟨-, rfl⟩ := Prod.mk.inj heq
    exact Nat.le_of_lt (readString_length hstring)
  case h_3 =>
    obtain ⟨⟨n, behind⟩, hint, hvalue⟩ := Option.bind_eq_some_iff.mp h
    dsimp only at hvalue
    split at hvalue
    · cases hvalue
      exact readInt_length hint
    · cases hvalue

/-- A name with its value takes up at least one character. -/
theorem readMember_length {cs rest : List Char} {member : CodeText × Scalar}
    (h : readMember cs = some (member, rest)) : rest.length < cs.length := by
  unfold readMember at h
  split at h
  case h_1 => cases h
  case h_2 name behind hname =>
    split at h
    case h_1 more hcolon =>
      obtain ⟨read, hvalue, heq⟩ := Option.map_eq_some_iff.mp h
      obtain ⟨-, rfl⟩ := Prod.mk.inj heq
      have hname := readString_length hname
      have hvalue := readScalar_length hvalue
      have hfront := skipFiller_length cs
      have hbehind := skipFiller_length behind
      have hmore := skipFiller_length more
      rw [hcolon, List.length_cons] at hbehind
      omega
    case h_2 => cases h

/-- Names and values up to the closing brace, and what stands behind it. -/
def readMembers (cs : List Char) : Option (List (CodeText × Scalar) × List Char) :=
  match _h : readMember cs with
  | none => none
  | some (member, rest) =>
    match _hrest : skipFiller rest with
    | ',' :: more => (readMembers more).map fun (members, behind) => (member :: members, behind)
    | '\x7d' :: behind => some ([member], behind)
    | _ => none
termination_by cs.length
decreasing_by
  have hmember := readMember_length _h
  have hmore := skipFiller_length rest
  rw [_hrest, List.length_cons] at hmore
  omega

/-- An object and what stands behind it. -/
def readObject (cs : List Char) : Option (List (CodeText × Scalar) × List Char) :=
  match skipFiller cs with
  | '\x7b' :: rest =>
    match skipFiller rest with
    | '\x7d' :: behind => some ([], behind)
    | members => readMembers members
  | _ => none

/-- The names and values of a text that is an object. -/
def decode (text : String) : Option (List (CodeText × Scalar)) :=
  match readObject text.toList with
  | some (fields, behind) => if skipFiller behind = [] then some fields else none
  | none => none

/-! ## What is written is read back -/

/-- A unit is read back from its four digits. -/
theorem readUnit_escapeUnit {n : Nat} (h : n < 0x10000) (rest : List Char) :
    readUnit (padZeros 4 (Nat.toDigits 16 n) ++ rest) = some (n, rest) := by
  have hdigit : ∀ k, hexDigitValue? (Nat.digitChar (k % 16)) = some (k % 16) := fun k =>
    hexDigitValue?_digitChar (Nat.mod_lt k (by decide))
  have hlast : lastHexDigits 4 n = [Nat.digitChar (n / 16 / 16 / 16 % 16),
      Nat.digitChar (n / 16 / 16 % 16), Nat.digitChar (n / 16 % 16), Nat.digitChar (n % 16)] := rfl
  rw [padZeros_toDigits (by decide) h, hlast]
  simp only [List.cons_append, List.nil_append, readUnit, List.mapM_cons, List.mapM_nil, hdigit]
  simp only [Option.pure_def, Option.bind_eq_bind, Option.bind_some, Option.map_some,
    List.foldl_cons, List.foldl_nil]
  congr 2
  omega

/-- The unit of a first half stands for it. -/
theorem pointOfUnit_high (n : Fin 0x400) : pointOfUnit (0xd800 + n) = .high n := by
  rw [pointOfUnit, dif_pos (by omega)]
  exact congrArg CodePoint.high (Fin.ext (Nat.add_sub_cancel_left ..))

/-- The unit of a second half stands for it. -/
theorem pointOfUnit_low (k : Fin 0x400) : pointOfUnit (0xdc00 + k) = .low k := by
  rw [pointOfUnit, dif_neg (by omega), dif_pos (by omega)]
  exact congrArg CodePoint.low (Fin.ext (Nat.add_sub_cancel_left ..))

/-- A unit that is no surrogate stands for a character. -/
theorem pointOfUnit_char {unit : Nat} (h : unit < 0xd800 ∨ 0xe000 ≤ unit) :
    pointOfUnit unit = .char (Char.ofNat unit) := by
  rw [pointOfUnit, dif_neg (by omega), dif_neg (by omega)]

/-- A second half is read from its escape. -/
theorem readLow_low (k : Fin 0x400) (rest : List Char) :
    readLow (escapePoint (.low k) ++ rest) = some (k, rest) := by
  have hunit : 0xdc00 + k.val < 0x10000 := by omega
  change readLow ('\\' :: 'u' :: (padZeros 4 (Nat.toDigits 16 (0xdc00 + k)) ++ rest)) = _
  rw [readLow, readUnit_escapeUnit hunit]
  dsimp only
  rw [pointOfUnit_low]

/-- No second half is read from the escape of another unit. -/
theorem readLow_escapeUnit {unit : Nat} (h : unit < 0xdc00 ∨ 0xe000 ≤ unit)
    (hunit : unit < 0x10000) (rest : List Char) : readLow (escapeUnit unit ++ rest) = none := by
  change readLow ('\\' :: 'u' :: (padZeros 4 (Nat.toDigits 16 unit) ++ rest)) = _
  rw [readLow, readUnit_escapeUnit hunit]
  dsimp only
  split
  · next k hlow =>
    rw [pointOfUnit] at hlow
    split at hlow
    · cases hlow
    · rw [dif_neg (by omega)] at hlow
      cases hlow
  · rfl

/-- No second half is read from anything that begins without a backslash. -/
theorem readLow_of_ne {c : Char} (h : c ≠ '\\') (rest : List Char) :
    readLow (c :: rest) = none := by
  unfold readLow
  split
  · next heq => exact absurd (List.cons.inj heq).1 h
  · rfl

/-- No second half is read from the escape of a character. -/
theorem readLow_escapeChar (c : Char) (rest : List Char) :
    readLow (escapeChar c ++ rest) = none := by
  unfold escapeChar
  split
  case isTrue hmarked => rcases hmarked with rfl | rfl <;> rfl
  case isFalse hplain =>
  split
  · rfl
  split
  · rfl
  split
  · rfl
  split
  · rfl
  split
  · rfl
  split
  case isTrue => exact readLow_of_ne (not_or.mp hplain).2 rest
  case isFalse =>
  have hvalid : c.toNat < 0xd800 ∨ 0xdfff < c.toNat ∧ c.toNat < 0x110000 := c.valid
  split
  case isTrue hunit => exact readLow_escapeUnit (by omega) hunit rest
  case isFalse hpair =>
    rw [List.append_assoc]
    exact readLow_escapeUnit (by omega) (by omega) _

/-- A unit that is no surrogate is read as its character. -/
theorem readPoint_escapeUnit {unit : Nat} (h : unit < 0xd800 ∨ 0xe000 ≤ unit)
    (hunit : unit < 0x10000) (rest : List Char) :
    readPoint (escapeUnit unit ++ rest) = some (.char (Char.ofNat unit), rest) := by
  change readEscape ('u' :: (padZeros 4 (Nat.toDigits 16 unit) ++ rest)) = _
  rw [readEscape, readUnit_escapeUnit hunit]
  dsimp only
  rw [pointOfUnit_char h]

/-- A second half with no first one in front of it is read as such. -/
theorem readPoint_low (k : Fin 0x400) (rest : List Char) :
    readPoint (escapePoint (.low k) ++ rest) = some (.low k, rest) := by
  have hunit : 0xdc00 + k.val < 0x10000 := by omega
  change readEscape ('u' :: (padZeros 4 (Nat.toDigits 16 (0xdc00 + k)) ++ rest)) = _
  rw [readEscape, readUnit_escapeUnit hunit]
  dsimp only
  rw [pointOfUnit_low]

/-- A first half is read together with a second one behind it, and else as such. -/
theorem readPoint_high (n : Fin 0x400) (rest : List Char) :
    readPoint (escapePoint (.high n) ++ rest) =
      match readLow rest with
      | some (k, behind) => some (.char (CodeText.pairChar n k), behind)
      | none => some (.high n, rest) := by
  have hunit : 0xd800 + n.val < 0x10000 := by omega
  change readEscape ('u' :: (padZeros 4 (Nat.toDigits 16 (0xd800 + n)) ++ rest)) = _
  rw [readEscape, readUnit_escapeUnit hunit]
  dsimp only
  rw [pointOfUnit_high]

/-- A character is read back from its escape. -/
theorem readPoint_escapeChar (c : Char) (rest : List Char) :
    readPoint (escapeChar c ++ rest) = some (.char c, rest) := by
  unfold escapeChar
  split
  case isTrue hmarked => rcases hmarked with rfl | rfl <;> rfl
  case isFalse hplain =>
  rw [not_or] at hplain
  split
  · next h => exact h ▸ rfl
  split
  · next h => exact h ▸ rfl
  split
  · next h => exact h ▸ rfl
  split
  · next h => exact h ▸ rfl
  split
  · next h => exact h ▸ rfl
  split
  case isTrue hprintable =>
    have hread : readPoint (c :: rest) =
        if c.toNat < 0x20 then none else some (.char c, rest) := by
      rw [readPoint]
      exact hplain.2
    exact hread.trans (if_neg (by omega))
  case isFalse =>
  have hvalid : c.toNat < 0xd800 ∨ 0xdfff < c.toNat ∧ c.toNat < 0x110000 := c.valid
  split
  case isTrue hunit => rw [readPoint_escapeUnit (by omega) hunit, Char.ofNat_toNat]
  case isFalse hpair =>
    -- the two units are those of the halves that make up the character
    let n : Fin 0x400 := ⟨(c.toNat - 0x10000) / 0x400, by omega⟩
    let k : Fin 0x400 := ⟨(c.toNat - 0x10000) % 0x400, Nat.mod_lt _ (by decide)⟩
    have hread := readPoint_high n (escapePoint (.low k) ++ rest)
    rw [readLow_low] at hread
    have hback : 0x10000 + n.val * 0x400 + k.val = c.toNat := by
      simp only [n, k]
      omega
    have hchar : CodeText.pairChar n k = c := by
      rw [CodeText.pairChar, hback, Char.ofNat_toNat]
    dsimp only at hread
    rw [hchar] at hread
    rw [List.append_assoc]
    exact hread

/-- No escape begins with a closing quote. -/
theorem head?_escapePoint (point : CodePoint) (rest : List Char) :
    (escapePoint point ++ rest).head? ≠ some '\x22' := by
  cases point with
  | high n => exact fun h => absurd (Option.some.inj h) (by decide)
  | low k => exact fun h => absurd (Option.some.inj h) (by decide)
  | char c =>
    rw [escapePoint, escapeChar]
    split
    · simp
    case isFalse hplain =>
    iterate 5
      split
      · simp
    split
    · simpa using (not_or.mp hplain).1
    split
    · exact fun h => absurd (Option.some.inj h) (by decide)
    · exact fun h => absurd (Option.some.inj h) (by decide)

/-- One code point more of a string. -/
theorem readBody_of_readPoint {cs rest : List Char} {point : CodePoint}
    (hquote : cs.head? ≠ some '\x22') (h : readPoint cs = some (point, rest)) :
    readBody cs = (readBody rest).map fun (body, behind) => (point :: body, behind) := by
  rw [readBody, if_neg hquote]
  split
  · next hnone => rw [h] at hnone; cases hnone
  · next hsome =>
    rw [h] at hsome
    cases hsome
    rfl

/-- No second half is read from a text that does not begin with one. -/
theorem readLow_escaped {text : CodeText} (h : ∀ k more, text ≠ .low k :: more)
    (rest : List Char) : readLow (text.flatMap escapePoint ++ '\x22' :: rest) = none := by
  cases text with
  | nil => rfl
  | cons point more =>
    rw [List.flatMap_cons, List.append_assoc]
    cases point with
    | char c => exact readLow_escapeChar c _
    | high n => exact readLow_escapeUnit (.inl (by omega)) (by omega) _
    | low k => exact absurd rfl (h k more)

/-- A string is read up to its closing quote, with its halves joined. -/
theorem readBody_escaped (text : CodeText) (rest : List Char) :
    readBody (text.flatMap escapePoint ++ '\x22' :: rest) = some (text.joinPairs, rest) := by
  fun_induction CodeText.joinPairs text with
  | case1 n k more ih =>
    have hread := readPoint_high n
      (escapePoint (.low k) ++ (more.flatMap escapePoint ++ '\x22' :: rest))
    rw [readLow_low] at hread
    rw [List.flatMap_cons, List.flatMap_cons, List.append_assoc, List.append_assoc,
      readBody_of_readPoint (head?_escapePoint _ _) hread, ih]
    rfl
  | case2 point more hnot ih =>
    rw [List.flatMap_cons, List.append_assoc]
    have hread : readPoint (escapePoint point ++ (more.flatMap escapePoint ++ '\x22' :: rest)) =
        some (point, more.flatMap escapePoint ++ '\x22' :: rest) := by
      cases point with
      | char c => exact readPoint_escapeChar c _
      | low k => exact readPoint_low k _
      | high n =>
        have hnone := readLow_escaped (fun k more' hmore => hnot n k more' rfl hmore) rest
        rw [readPoint_high, hnone]
    rw [readBody_of_readPoint (head?_escapePoint _ _) hread, ih]
    rfl
  | case3 =>
    rw [readBody]
    exact if_pos rfl

/-- A string is read back, with its halves joined. -/
theorem readString_string (text : CodeText) (rest : List Char) :
    readString ((string text).toList ++ rest) = some (text.joinPairs, rest) := by
  have hchars : (string text).toList ++ rest =
      '\x22' :: (text.flatMap escapePoint ++ '\x22' :: rest) := by
    simp [string]
  rw [hchars, readString, readBody_escaped]

/-- No numeral but that of zero begins with a zero. -/
theorem head?_toDigits (n : Nat) (h : (Nat.toDigits 10 n).head? = some '0') :
    Nat.toDigits 10 n = ['0'] := by
  induction n using Nat.strongRecOn with
  | ind n ih =>
    rw [Nat.toDigits_eq_if (by decide)] at h ⊢
    split
    case isTrue hsmall =>
      rw [if_pos hsmall] at h
      exact congrArg (· :: []) (Option.some.inj h)
    case isFalse hlarge =>
      -- the digits in front would be those of zero, although something stands behind them
      have hfront : (Nat.toDigits 10 (n / 10)).head? = some '0' := by
        rw [if_neg hlarge, List.head?_append] at h
        have hne : Nat.toDigits 10 (n / 10) ≠ [] := Nat.toDigits_ne_nil
        obtain ⟨d, tail, hcons⟩ := List.exists_cons_of_ne_nil hne
        rw [hcons] at h ⊢
        exact h
      have hzero := ih (n / 10) (by omega) hfront
      have hvalue : n / 10 = 0 := by
        rw [← Nat.ofDigitChars_ten_toDigits (n := n / 10), hzero]
        rfl
      omega

/-- A natural number is read back from its numeral. -/
theorem readNat_decimalOfNat (n : Nat) {rest : List Char}
    (hrest : Grammar.Stops Char.isDigit rest) :
    readNat ((decimalOfNat n).toList ++ rest) = some (n, rest) := by
  have hdigits : ∀ c ∈ (decimalOfNat n).toList, c.isDigit = true := fun c hc =>
    isDigit_of_mem_decimalOfNat hc
  dsimp only [readNat]
  rw [Grammar.takeWhile_append_of_stops hdigits hrest,
    Grammar.dropWhile_append_of_stops hdigits hrest, decimalOfNat, String.toList_ofList,
    Nat.ofDigitChars_ten_toDigits, if_neg]
  rintro (hnone | ⟨hzero, hmore⟩)
  · exact Nat.toDigits_ne_nil hnone
  · exact hmore (head?_toDigits n hzero)

/-- The numeral of a natural number begins with a digit. -/
theorem exists_decimalOfNat_cons (n : Nat) :
    ∃ d tail, (decimalOfNat n).toList = d :: tail ∧ d.isDigit = true := by
  have hne : (decimalOfNat n).toList ≠ [] := by
    rw [decimalOfNat, String.toList_ofList]
    exact Nat.toDigits_ne_nil
  obtain ⟨d, tail, hcons⟩ := List.exists_cons_of_ne_nil hne
  have hmem : d ∈ (decimalOfNat n).toList := hcons ▸ List.mem_cons_self
  exact ⟨d, tail, hcons, isDigit_of_mem_decimalOfNat hmem⟩

/-- An integer is read back from its numeral. -/
theorem readInt_decimalOfInt (n : Int) {rest : List Char}
    (hrest : Grammar.Stops Char.isDigit rest) :
    readInt ((decimalOfInt n).toList ++ rest) = some (n, rest) := by
  have hread := readNat_decimalOfNat n.natAbs hrest
  rw [toList_decimalOfInt]
  split
  case isTrue hneg =>
    have hvalue : -(n.natAbs : Int) = n := by omega
    change (readNat ((decimalOfNat n.natAbs).toList ++ rest)).map _ = _
    rw [hread]
    exact congrArg (fun k => some (k, rest)) hvalue
  case isFalse hpos =>
    have hvalue : (n.natAbs : Int) = n := by omega
    obtain ⟨d, tail, hcons, hdigit⟩ := exists_decimalOfNat_cons n.natAbs
    rw [List.nil_append, readInt]
    · rw [hread]
      exact congrArg (fun k => some (k, rest)) hvalue
    · intro cs heq
      rw [hcons] at heq
      obtain ⟨rfl, -⟩ := List.cons.inj heq
      exact absurd hdigit (by decide)

/-- The numeral of an integer begins with a character of numerals. -/
theorem exists_decimalOfInt_cons (n : Int) :
    ∃ c tail, (decimalOfInt n).toList = c :: tail ∧ isNumeralChar c = true := by
  obtain ⟨d, tail, hcons, hdigit⟩ := exists_decimalOfNat_cons n.natAbs
  rw [toList_decimalOfInt, hcons]
  split
  · exact ⟨'-', d :: tail, rfl, rfl⟩
  · exact ⟨d, tail, rfl, by simp [isNumeralChar, hdigit]⟩

/-- A value is read back, with its halves joined. -/
theorem readScalar_written (v : Scalar) {rest : List Char}
    (hrest : Grammar.Stops Char.isDigit rest) :
    readScalar (v.written.toList ++ rest) = some (v.joined, rest) := by
  cases v with
  | null => rfl
  | number n =>
    obtain ⟨c, tail, hcons, hnumeral⟩ := exists_decimalOfInt_cons n
    have hother : ∀ mark more, isNumeralChar mark = false →
        (decimalOfInt n).toList ++ rest ≠ mark :: more := by
      intro mark more hmark heq
      rw [hcons] at heq
      obtain ⟨rfl, -⟩ := List.cons.inj heq
      rw [hnumeral] at hmark
      cases hmark
    rw [Scalar.written, readScalar]
    · rw [readInt_decimalOfInt n hrest]
      exact dif_pos n.property
    · exact fun more => hother 'n' _ (by decide)
    · exact fun more => hother '\x22' more (by decide)
  | text content =>
    have hstring : (string content).toList ++ rest = '\x22' ::
        (content.flatMap escapePoint ++ '\x22' :: rest) := by
      simp [string]
    have hread := readString_string content rest
    rw [hstring] at hread
    rw [Scalar.written, hstring, readScalar, hread]
    rfl

/-- What is written begins with no filler. -/
theorem stops_written (v : Scalar) (rest : List Char) :
    Grammar.Stops isFiller (v.written.toList ++ rest) := by
  cases v with
  | null => exact (Grammar.stops_cons_iff _ _ _).mpr (by decide)
  | number n =>
    obtain ⟨c, tail, hcons, hnumeral⟩ := exists_decimalOfInt_cons n
    rw [Scalar.written, hcons]
    refine (Grammar.stops_cons_iff _ _ _).mpr (eq_false_of_ne_true fun hfiller => ?_)
    simp only [isFiller, Bool.or_eq_true, beq_iff_eq] at hfiller
    rcases hfiller with ((rfl | rfl) | rfl) | rfl <;> exact absurd hnumeral (by decide)
  | text content =>
    rw [Scalar.written, string, String.toList_ofList]
    exact (Grammar.stops_cons_iff _ _ _).mpr (by decide)

/-- A name and its value as they are written. -/
def member (field : String × Scalar) : String :=
  string (.ofString field.1) ++ ": " ++ field.2.written

/-- A name and its value as they are read. -/
def readBack (field : String × Scalar) : CodeText × Scalar := (.ofString field.1, field.2.joined)

/-- A member is read back, whether filler stands in front of it or not. -/
theorem readMember_member (field : String × Scalar) {front rest : List Char}
    (hfront : ∀ c ∈ front, isFiller c = true) (hrest : Grammar.Stops Char.isDigit rest) :
    readMember (front ++ ((member field).toList ++ rest)) = some (readBack field, rest) := by
  obtain ⟨name, v⟩ := field
  have hchars : (member (name, v)).toList ++ rest =
      (string (.ofString name)).toList ++ (':' :: ' ' :: (v.written.toList ++ rest)) := by
    simp [member]
  have hstops : Grammar.Stops isFiller
      ((string (.ofString name)).toList ++ (':' :: ' ' :: (v.written.toList ++ rest))) :=
    stops_written (.text (.ofString name)) _
  have hname : skipFiller (front ++ ((member (name, v)).toList ++ rest)) =
      (string (.ofString name)).toList ++ (':' :: ' ' :: (v.written.toList ++ rest)) := by
    rw [hchars]
    exact Grammar.dropWhile_append_of_stops hfront hstops
  have hcolon : skipFiller (':' :: ' ' :: (v.written.toList ++ rest)) =
      ':' :: ' ' :: (v.written.toList ++ rest) := rfl
  have hblank : ∀ c ∈ [' '], isFiller c = true := List.all_eq_true.mp (by decide)
  have hvalue : skipFiller (' ' :: (v.written.toList ++ rest)) = v.written.toList ++ rest :=
    Grammar.dropWhile_append_of_stops hblank (stops_written v rest)
  rw [readMember, hname, readString_string, CodeText.joinPairs_ofString]
  dsimp only
  rw [hcolon]
  change (readScalar (skipFiller (' ' :: (v.written.toList ++ rest)))).map _ = _
  rw [hvalue, readScalar_written v hrest]
  rfl

/-- A member in front of the closing brace is the last one. -/
theorem readMembers_of_brace {cs rest behind : List Char} {read : CodeText × Scalar}
    (h : readMember cs = some (read, rest)) (hrest : skipFiller rest = '\x7d' :: behind) :
    readMembers cs = some ([read], behind) := by
  rw [readMembers]
  split
  · next hnone => rw [h] at hnone; cases hnone
  · next hsome =>
    rw [h] at hsome
    cases hsome
    split
    · next hcomma => rw [hrest] at hcomma; cases hcomma
    · next hbrace => rw [hrest] at hbrace; cases hbrace; rfl
    · next hnobrace => exact absurd hrest (hnobrace behind)

/-- Behind a member and a comma the others are read. -/
theorem readMembers_of_comma {cs rest more : List Char} {read : CodeText × Scalar}
    (h : readMember cs = some (read, rest)) (hrest : skipFiller rest = ',' :: more) :
    readMembers cs =
      (readMembers more).map fun (members, behind) => (read :: members, behind) := by
  rw [readMembers]
  split
  · next hnone => rw [h] at hnone; cases hnone
  · next hsome =>
    rw [h] at hsome
    cases hsome
    split
    · next hcomma => rw [hrest] at hcomma; cases hcomma; rfl
    · next hbrace => rw [hrest] at hbrace; cases hbrace
    · next hnocomma _ => exact absurd hrest (hnocomma more)

/-- Members are read back up to the closing brace. -/
theorem readMembers_members (field : String × Scalar) (fields : List (String × Scalar))
    {front : List Char} (hfront : ∀ c ∈ front, isFiller c = true) (rest : List Char) :
    readMembers (front ++
        ((", ".intercalate ((field :: fields).map member)).toList ++ '\x7d' :: rest)) =
      some ((field :: fields).map readBack, rest) := by
  induction fields generalizing field front with
  | nil =>
    have hbrace : Grammar.Stops Char.isDigit ('\x7d' :: rest) :=
      (Grammar.stops_cons_iff _ _ _).mpr (by decide)
    have hjoin : ", ".intercalate ([field].map member) = member field := by simp
    rw [hjoin]
    exact readMembers_of_brace (readMember_member field hfront hbrace) rfl
  | cons next fields ih =>
    have hjoin : (", ".intercalate ((field :: next :: fields).map member)).toList ++
          '\x7d' :: rest = (member field).toList ++ (',' :: ' ' ::
        ((", ".intercalate ((next :: fields).map member)).toList ++ '\x7d' :: rest)) := by
      simp
    have hcomma : ∀ cs, Grammar.Stops Char.isDigit (',' :: cs) := fun cs =>
      (Grammar.stops_cons_iff _ _ _).mpr (by decide)
    have hblank : ∀ c ∈ [' '], isFiller c = true := List.all_eq_true.mp (by decide)
    have hmore := ih next hblank
    rw [hjoin, readMembers_of_comma (readMember_member field hfront (hcomma _)) rfl]
    exact congrArg (Option.map fun (members, behind) => (readBack field :: members, behind)) hmore

/-- Members begin with the quote of the first name. -/
theorem head?_members (field : String × Scalar) (fields : List (String × Scalar)) :
    (", ".intercalate ((field :: fields).map member)).toList.head? = some '\x22' := by
  cases fields with
  | nil => simp [member, string]
  | cons next fields => simp [member, string]

/-- An object is read back, with the halves of pairs in its texts joined. -/
theorem decode_object (fields : List (String × Scalar)) :
    decode (object (fields.map fun field => (field.1, field.2.written))) =
      some (fields.map readBack) := by
  have hobject : (object (fields.map fun field => (field.1, field.2.written))).toList =
      '\x7b' :: ((", ".intercalate (fields.map member)).toList ++ ['\x7d']) := by
    rw [object, List.map_map]
    simp only [String.toList_append]
    rfl
  have hread : readObject (object (fields.map fun field => (field.1, field.2.written))).toList =
      some (fields.map readBack, []) := by
    rw [hobject]
    cases fields with
    | nil => rfl
    | cons field fields =>
      have hnone : ∀ c ∈ ([] : List Char), isFiller c = true := by simp
      have hmembers := readMembers_members field fields hnone []
      obtain ⟨tail, htail⟩ := List.head?_eq_some_iff.mp (head?_members field fields)
      rw [htail] at hmembers ⊢
      exact hmembers
  rw [decode, hread]
  rfl

/-! ## Halves are written as the character that they make up -/

/-- The character of a pair is escaped as its two halves. -/
theorem escapeChar_pairChar (n k : Fin 0x400) :
    escapeChar (CodeText.pairChar n k) = escapePoint (.high n) ++ escapePoint (.low k) := by
  have hnat := CodeText.toNat_pairChar n k
  generalize CodeText.pairChar n k = c at hnat
  have hne : ∀ d : Char, d.toNat < 0x10000 → c ≠ d := by
    rintro d hd rfl
    omega
  have hhigh : (c.toNat - 0x10000) / 0x400 = n.val := by omega
  have hlow : (c.toNat - 0x10000) % 0x400 = k.val := by omega
  rw [escapeChar, if_neg (not_or.mpr ⟨hne _ (by decide), hne _ (by decide)⟩),
    if_neg (hne _ (by decide)), if_neg (hne _ (by decide)), if_neg (hne _ (by decide)),
    if_neg (hne _ (by decide)), if_neg (hne _ (by decide)), if_neg (by omega), if_neg (by omega)]
  dsimp only
  rw [hhigh, hlow]
  rfl

/-- Joining halves does not change what is written. -/
theorem string_joinPairs (text : CodeText) : string text.joinPairs = string text := by
  have hescaped : text.joinPairs.flatMap escapePoint = text.flatMap escapePoint := by
    fun_induction CodeText.joinPairs text with
    | case1 n k more ih =>
      rw [List.flatMap_cons, ih, List.flatMap_cons, List.flatMap_cons, ← List.append_assoc]
      exact congrArg (· ++ _) (escapeChar_pairChar n k)
    | case2 point more hnot ih => rw [List.flatMap_cons, List.flatMap_cons, ih]
    | case3 => rfl
  rw [string, string, hescaped]

/-- Joining halves does not change how a value is written. -/
theorem Scalar.written_joined (v : Scalar) : v.joined.written = v.written := by
  cases v with
  | null => rfl
  | number n => rfl
  | text content => exact string_joinPairs content

/-! ## What is written is printable -/

end MarkupSpans.Report.Json
