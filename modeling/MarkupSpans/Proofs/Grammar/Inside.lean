import MarkupSpans.Grammar.Tokens
import MarkupSpans.Proofs.Grammar.Word

/-!
# Faults lie inside the text

What is wrong inside a word is an error of the grammar, or an integer of more digits than can be
read, which then stand in the text side by side (`SyntaxFault.FitsIn`).  The place of a fault, of a
notice and of a word is told by the number of characters that are left from there.  This number is
never larger than that of the whole text: each rule speaks of places that it was given or has come
upon, and a rule inside another one is given an end of the text.
-/

set_option autoImplicit false

namespace MarkupSpans.Grammar

open Text

variable {α β : Type}

/-- So many decimal digits stand in a text side by side. -/
def HasDigits (digits : Nat) (text : List Char) : Prop :=
  ∃ row : List Char, row <:+: text ∧ row.length = digits ∧ ∀ c ∈ row, isDecimalDigit c = true

/-- What can be wrong inside a word of a text: the grammar, or an integer of too many digits. -/
def SyntaxFault.FitsIn (text : List Char) (fault : SyntaxFault) : Prop :=
  fault.kind = .ok .grammar ∨
    ∃ digits, fault = .numberTooLong digits ∧ digitLimit < digits ∧ HasDigits digits text

/-- What fits in a part of a text fits in the text. -/
theorem SyntaxFault.FitsIn.mono {text text' : List Char} {fault : SyntaxFault}
    (h : fault.FitsIn text) (htext : text <:+: text') : fault.FitsIn text' := by
  rcases h with hgrammar | ⟨digits, hfault, hlong, row, hrow, hrest⟩
  · exact .inl hgrammar
  · exact .inr ⟨digits, hfault, hlong, row, hrow.trans htext, hrest⟩

/-- What is wrong inside a word is not that there is none. -/
theorem SyntaxFault.FitsIn.kind_ne {text : List Char} {fault : SyntaxFault}
    (h : fault.FitsIn text) : fault.kind ≠ .ok .unterminatedInput := by
  intro hkind
  rcases h with hgrammar | ⟨digits, rfl, -⟩
  · rw [hgrammar] at hkind
    cases hkind
  · cases hkind

/-- What is wrong inside a word stops the reading with an error of the grammar, or because of the
digits of an integer. -/
theorem SyntaxFault.FitsIn.failure_eq {text : List Char} {fault : SyntaxFault}
    (h : fault.FitsIn text) (loc : String) :
    fault.failure loc = .compile ⟨.grammar, fault.message, some loc⟩ ∨
      ∃ digits, digitLimit < digits ∧ HasDigits digits text ∧
        fault.failure loc = .value (.numeralTooLong digits) := by
  rcases h with hgrammar | ⟨digits, rfl, hlong, hdigits⟩
  · left
    rw [SyntaxFault.failure, hgrammar]
  · exact .inr ⟨digits, hlong, hdigits, rfl⟩

/-- If an outcome is a fault, at most `n` characters are left from it. -/
def Outcome.Inside (n : Nat) (o : Outcome α) : Prop := ∀ fault, o = .faulty fault → fault.left ≤ n

/-- If an outcome is a fault, it is one that fits in a text. -/
def Outcome.FitsIn (text : List Char) (o : Outcome α) : Prop :=
  ∀ fault, o = .faulty fault → fault.item.FitsIn text

/-- If an outcome is a fault, it fits in a text and at most `n` characters are left from it. -/
structure Outcome.FaultInside (text : List Char) (n : Nat) (o : Outcome α) : Prop where
  inside : o.Inside n
  fits : o.FitsIn text

namespace Outcome

variable {text : List Char}

/-- A match is no fault. -/
theorem inside_matched (n : Nat) (value : α) (rest : List Char) :
    (Outcome.matched value rest).FaultInside text n := by
  constructor
  · intro fault h
    cases h
  · intro fault h
    cases h

/-- A miss is no fault. -/
theorem inside_missed (n : Nat) : (Outcome.missed : Outcome α).FaultInside text n := by
  constructor
  · intro fault h
    cases h
  · intro fault h
    cases h

/-- A fault is one if it fits and lies where it should. -/
theorem inside_faulty {n : Nat} {fault : Placed SyntaxFault} (hleft : fault.left ≤ n)
    (hfits : fault.item.FitsIn text) : (Outcome.faulty fault : Outcome α).FaultInside text n := by
  constructor
  · intro other heq
    cases heq
    exact hleft
  · intro other heq
    cases heq
    exact hfits

/-- An error of the grammar fits in every text. -/
theorem inside_grammar {n : Nat} {fault : Placed SyntaxFault} (hleft : fault.left ≤ n)
    (hkind : fault.item.kind = .ok .grammar) :
    (Outcome.faulty fault : Outcome α).FaultInside text n :=
  inside_faulty hleft (.inl hkind)

/-- More characters may be left, and more text be there, than a rule makes use of. -/
theorem FaultInside.mono {text' : List Char} {m n : Nat} {o : Outcome α}
    (h : o.FaultInside text m) (hmn : m ≤ n) (htext : text <:+: text') : o.FaultInside text' n :=
  ⟨fun fault hfault => Nat.le_trans (h.inside fault hfault) hmn,
    fun fault hfault => (h.fits fault hfault).mono htext⟩

/-- A rule that reads no numbers finds errors of the grammar only, in every text. -/
theorem FaultInside.of_nil {m n : Nat} {o : Outcome α} (h : o.FaultInside [] m) (hmn : m ≤ n) :
    o.FaultInside text n :=
  h.mono hmn List.nil_infix

/-- A fault that a rule hands on is as it was. -/
theorem FaultInside.faulty {n : Nat} {o : Outcome α} (h : o.FaultInside text n)
    {fault : Placed SyntaxFault} (hfault : o = .faulty fault) :
    (Outcome.faulty fault : Outcome β).FaultInside text n :=
  inside_faulty (h.inside fault hfault) (h.fits fault hfault)

/-- Another value makes no other fault. -/
theorem FaultInside.map {n : Nat} {o : Outcome α} (h : o.FaultInside text n) (f : α → β) :
    (o.map f).FaultInside text n := by
  cases o with
  | matched value rest => exact inside_matched n (f value) rest
  | missed => exact inside_missed n
  | faulty fault => exact h.faulty rfl

end Outcome

open Outcome

/-! ## Ends of the text -/

/-- What stands behind space is an end of the text. -/
theorem skipSpace_suffix (cs : List Char) : skipSpace cs <:+ cs := List.dropWhile_suffix isSpace

/-- What stands behind space and one more character is an end of the text. -/
theorem suffix_of_skipSpace {c : Char} {cs rest : List Char} (h : skipSpace cs = c :: rest) :
    rest <:+ cs :=
  (List.suffix_cons c rest).trans (h ▸ skipSpace_suffix cs)

/-- What stands behind an identifier is an end of the text. -/
theorem readIdentifier_suffix {cs rest : List Char} {name : String}
    (h : readIdentifier cs = .matched name rest) : rest <:+ cs := by
  obtain ⟨chars, -, rfl⟩ := exists_of_readIdentifier h
  exact List.suffix_append chars rest

/-- What stands behind a tag name is an end of the text. -/
theorem readTagName_suffix {cs rest : List Char} {name : String}
    (h : readTagName cs = .matched name rest) : rest <:+ cs := by
  obtain ⟨chars, -, rfl⟩ := exists_of_readTagName h
  exact List.suffix_append chars rest

/-- What stands behind an attribute is an end of the text. -/
theorem readAttribute_suffix {cs rest : List Char} {pair : String × Expr}
    (h : readAttribute cs = .matched pair rest) : rest <:+ cs := by
  obtain ⟨a, rfl⟩ := exists_of_readAttribute h
  exact List.suffix_append a.chars rest

/-- What stands behind a word is an end of the text. -/
theorem readWord_suffix {cs rest : List Char} {w : Word}
    (h : (readWord cs).2 = .matched w rest) : rest <:+ cs := by
  obtain ⟨t, rfl, -⟩ := exists_of_readWord h
  exact List.suffix_append t.chars rest

/-! ## Strings, names and numbers -/

/-- A string that is not closed is an error of the grammar at its quote. -/
theorem readString_inside (cs : List Char) : (readString cs).FaultInside [] cs.length := by
  cases cs with
  | nil => exact inside_missed _
  | cons quote rest =>
    simp only [readString]
    split
    · split
      · exact inside_matched _ _ _
      · exact inside_grammar (by simp) rfl
    · exact inside_missed _

/-- Nothing is wrong with a tag name. -/
theorem readTagName_inside (n : Nat) (cs : List Char) : (readTagName cs).FaultInside [] n := by
  cases cs with
  | nil => exact inside_missed n
  | cons c rest =>
    simp only [readTagName]
    split
    · exact inside_matched n _ _
    · exact inside_missed n

/-- An identifier that ends in a dot is an error of the grammar where it begins. -/
theorem readIdentifier_inside (cs : List Char) :
    (readIdentifier cs).FaultInside [] cs.length := by
  unfold readIdentifier
  split
  · exact inside_missed _
  · split
    · exact inside_grammar (Nat.le_refl _) rfl
    · exact inside_matched _ _ _

/-- The digits of an integer that is too long stand in the text. -/
theorem hasDigits_of_readNumberLiteral {cs rest : List Char} {literal : NumberLiteral}
    (h : readNumberLiteral cs = some (literal, rest)) : HasDigits literal.whole.length cs := by
  obtain ⟨hchars, -, hwhole, -⟩ := readNumberLiteral_sound h
  refine ⟨literal.whole, ?_, rfl, hwhole⟩
  rw [hchars, NumberLiteral.chars, List.append_assoc, List.append_assoc]
  exact (List.prefix_append literal.whole _).isInfix.trans (List.suffix_append _ _).isInfix

/-- The only fault of a number is that it is an integer of too many digits. -/
theorem readNumber_inside (cs : List Char) : (readNumber cs).FaultInside cs cs.length := by
  unfold readNumber
  split
  · rename_i literal rest hread
    split
    · rename_i hlong
      rw [NumberLiteral.isOverlong, Bool.and_eq_true, decide_eq_true_eq] at hlong
      exact inside_faulty (Nat.le_refl _)
        (.inr ⟨literal.whole.length, rfl, hlong.2, hasDigits_of_readNumberLiteral hread⟩)
    · exact inside_matched _ _ _
  · exact inside_missed _

/-! ## Expressions and attributes -/

/-- Arguments also speak of the parenthesis that opened them, where `opened` characters were
left. -/
theorem within_inside (steps : Nat) :
    (∀ callAllowed cs, (expressionWithin steps callAllowed cs).FaultInside cs cs.length) ∧
    ∀ function opened cs, cs.length ≤ opened →
      (argumentsWithin steps function opened cs).FaultInside cs opened := by
  induction steps with
  | zero =>
    constructor
    · intro callAllowed cs
      exact inside_missed _
    · intro function opened cs hopened
      exact inside_missed _
  | succ steps ih =>
    constructor
    · intro callAllowed cs
      unfold expressionWithin
      split
      · exact inside_missed _
      · split
        · exact ((readString_inside cs).of_nil (Nat.le_refl _)).map _
        · split
          · exact (readNumber_inside cs).map _
          · split
            · exact inside_missed _
            · rename_i fault hfault
              exact ((readIdentifier_inside cs).of_nil (Nat.le_refl _)).faulty hfault
            · rename_i name rest hname
              have hrest := readIdentifier_suffix hname
              have hlength := readIdentifier_length hname
              have hskip := skipSpace_length rest
              split
              · split
                · -- a call: its parenthesis is behind the name, so fewer characters are left there
                  rename_i inside hinside
                  have hfirst := (skipSpace_suffix inside).trans
                    ((suffix_of_skipSpace hinside).trans hrest)
                  rw [hinside, List.length_cons] at hskip
                  split
                  · exact inside_matched _ _ _
                  · have hlength' := skipSpace_length inside
                    have harguments := ih.2 name (inside.length + 1) (skipSpace inside) (by omega)
                    exact (harguments.mono (by omega) hfirst.isInfix).map _
                · exact inside_matched _ _ _
              · exact inside_matched _ _ _
    · intro function opened cs hopened
      unfold argumentsWithin
      split
      · exact inside_grammar hopened rfl
      · rename_i fault hfault
        exact ((ih.1 true cs).faulty hfault).mono hopened List.infix_rfl
      · rename_i argument rest hargument
        obtain ⟨e, -, hchars⟩ := (exists_of_within steps).1 true cs argument rest hargument
        have hrest : rest <:+ cs := hchars ▸ List.suffix_append e.chars rest
        have hlength := (length_within steps).1 true cs argument rest hargument
        have hskip := skipSpace_length rest
        split
        · exact inside_matched _ _ _
        · rename_i more hmore
          have hnext := (skipSpace_suffix more).trans ((suffix_of_skipSpace hmore).trans hrest)
          rw [hmore, List.length_cons] at hskip
          have hskip' := skipSpace_length more
          have harguments := ih.2 function opened (skipSpace more) (by omega)
          exact (harguments.mono (Nat.le_refl _) hnext.isInfix).map _
        · exact inside_grammar (Nat.le_refl _) rfl

/-- What is wrong with an expression lies inside the text from its beginning on. -/
theorem readExpression_inside (callAllowed : Bool) (cs : List Char) :
    (readExpression callAllowed cs).FaultInside cs cs.length :=
  (within_inside (cs.length + 1)).1 callAllowed cs

/-- A value in braces also speaks of its attribute, which began where `opened` characters were
left. -/
theorem readBracedValue_inside (name : String) {opened : Nat} {cs : List Char}
    (hopened : cs.length ≤ opened) : (readBracedValue name opened cs).FaultInside cs opened := by
  have hskip := skipSpace_length cs
  unfold readBracedValue
  split
  · exact inside_grammar (by dsimp only; omega) rfl
  · rename_i fault hfault
    exact ((readExpression_inside true (skipSpace cs)).faulty hfault).mono (by omega)
      (skipSpace_suffix cs).isInfix
  · split
    · exact inside_matched _ _ _
    · exact inside_grammar (Nat.le_refl _) rfl

/-- What is wrong with a value without braces lies inside the text from its beginning on. -/
theorem readBareValue_inside (name : String) (cs : List Char) :
    (readBareValue name cs).FaultInside cs cs.length := by
  unfold readBareValue
  split
  · split
    · exact inside_grammar (Nat.le_refl _) rfl
    · exact inside_grammar (Nat.le_refl _) rfl
  · exact readExpression_inside false cs

/-- What is wrong with an attribute lies inside the text from its name on. -/
theorem readAttribute_inside (cs : List Char) : (readAttribute cs).FaultInside cs cs.length := by
  have hname : cs.dropWhile isAttributeNameChar <:+ cs := List.dropWhile_suffix _
  have hskip := skipSpace_length (cs.dropWhile isAttributeNameChar)
  have hlength := hname.length_le
  unfold readAttribute
  dsimp only
  split
  · exact inside_missed _
  · split
    · rename_i rest hrest
      have hvalue := (skipSpace_suffix rest).trans ((suffix_of_skipSpace hrest).trans hname)
      rw [hrest, List.length_cons] at hskip
      have hskip' := skipSpace_length rest
      split
      · rename_i inside hinside
        have hinside' := ((hinside ▸ List.suffix_cons '\x7b' inside).trans hvalue).isInfix
        rw [hinside, List.length_cons] at hskip'
        exact ((readBracedValue_inside _ (by omega)).mono (Nat.le_refl _) hinside').map _
      · exact ((readBareValue_inside _ _).mono (by omega) hvalue.isInfix).map _
    · exact inside_grammar (Nat.le_refl _) rfl

/-- The attributes of a tag begin inside the text, and so does what is wrong with them. -/
theorem attributesFrom_inside (tag : String) (whole cs : List Char) :
    (∀ one ∈ (attributesFrom tag whole cs).read, one.left ≤ cs.length) ∧
      ∀ fault, (attributesFrom tag whole cs).ending = .error fault →
        fault.left ≤ cs.length ∧ fault.item.FitsIn cs := by
  fun_induction attributesFrom tag whole cs with
  | case1 cs here hend =>
    constructor
    · intro one hone
      cases hone
    · intro fault hfault
      cases hfault
  | case2 cs here hend hspace near =>
    constructor
    · intro one hone
      cases hone
    · intro fault hfault
      cases hfault
      exact ⟨skipSpace_length cs, .inl rfl⟩
  | case3 cs here hend hspace hmissed =>
    constructor
    · intro one hone
      cases hone
    · intro fault hfault
      cases hfault
  | case4 cs here hend hspace fault hfaulty =>
    constructor
    · intro one hone
      cases hone
    · intro other hother
      cases hother
      have hattribute := (readAttribute_inside here).mono (skipSpace_length cs)
        (skipSpace_suffix cs).isInfix
      exact ⟨hattribute.inside fault hfaulty, hattribute.fits fault hfaulty⟩
  | case5 cs here hend hspace name value rest hread more ih =>
    have hskip : here.length ≤ cs.length := skipSpace_length cs
    have hlength := readAttribute_length hread
    have hrest := (readAttribute_suffix hread).trans (skipSpace_suffix cs)
    constructor
    · intro one hone
      rcases List.mem_cons.mp hone with rfl | hone
      · exact hskip
      · have hmore := ih.1 one hone
        omega
    · intro fault hfault
      obtain ⟨hmore, hfits⟩ := ih.2 fault hfault
      exact ⟨by omega, hfits.mono hrest.isInfix⟩

/-- Attributes that repeat a name are some of those that were read. -/
theorem mem_of_mem_repeatedAmong {seen : List String} {read : List ReadAttribute}
    {one : ReadAttribute} (h : one ∈ repeatedAmong seen read) : one ∈ read := by
  induction read generalizing seen with
  | nil => cases h
  | cons first rest ih =>
    rw [repeatedAmong] at h
    split at h
    · rcases List.mem_cons.mp h with rfl | h
      · simp
      · exact List.mem_cons_of_mem _ (ih h)
    · exact List.mem_cons_of_mem _ (ih h)

/-! ## Words -/

/-- What is wrong with a text word is an error of the grammar inside the text. -/
theorem readText_inside (cs : List Char) : (readText cs).FaultInside [] cs.length := by
  unfold readText
  split
  · rename_i inside
    have hskip := skipSpace_length inside
    dsimp only
    split
    · exact inside_grammar (by simp) rfl
    · rename_i fault hfault
      have hshorter : (skipSpace inside).length ≤ ('\x7b' :: inside).length := by
        rw [List.length_cons]
        omega
      exact ((readString_inside (skipSpace inside)).of_nil hshorter).faulty hfault
    · split
      · exact inside_matched _ _ _
      · exact inside_grammar (by simp) rfl
  · exact inside_missed _

/-- What is wrong with an end tag is an error of the grammar inside the text. -/
theorem readEndTag_inside (cs : List Char) : (readEndTag cs).FaultInside [] cs.length := by
  unfold readEndTag
  split
  · dsimp only
    split
    · exact inside_grammar (by simp) rfl
    · split
      · exact inside_grammar (by simp) rfl
      · split
        · exact inside_grammar (by simp) rfl
        · rename_i fault hfault
          exact (readTagName_inside _ _).faulty hfault
        · split
          · exact inside_grammar (by simp) rfl
          · exact inside_matched _ _ _
          · exact inside_grammar (by simp) rfl
  · exact inside_missed _

/-- The end of a start tag also speaks of its beginning, where `opened` characters were left. -/
theorem closeStartTag_inside (tag : String) (attributes : NameMap Value) {opened : Nat}
    {cs : List Char} (hopened : cs.length ≤ opened) :
    (closeStartTag tag attributes opened cs).FaultInside [] opened := by
  have hskip := skipSpace_length cs
  unfold closeStartTag
  split
  · exact inside_grammar (Nat.le_refl _) rfl
  · exact inside_matched _ _ _
  · rename_i rest hrest
    rw [hrest] at hskip
    exact inside_grammar (Nat.le_trans hskip hopened) rfl
  · exact inside_grammar (Nat.le_trans hskip hopened) rfl

/-- The notices about a start tag and its fault lie inside the text. -/
theorem readStartTag_inside (cs : List Char) :
    (∀ n ∈ (readStartTag cs).1, n.left ≤ cs.length) ∧
      (readStartTag cs).2.FaultInside cs cs.length := by
  unfold readStartTag
  split
  · rename_i inside
    dsimp only
    split
    · rename_i fault hfault
      exact ⟨by simp, ((readTagName_inside _ _).of_nil (Nat.le_refl _)).faulty hfault⟩
    · split
      · exact ⟨by simp, inside_grammar (by simp) rfl⟩
      · exact ⟨by simp, inside_grammar (by simp) rfl⟩
    · rename_i tag rest htag
      have hlength := readTagName_length htag
      have hrest := (readTagName_suffix htag).trans (List.suffix_cons '<' inside)
      obtain ⟨hread, hending⟩ := attributesFrom_inside tag rest rest
      have hnotices : ∀ n ∈ (readAttributes tag rest).notices tag,
          n.left ≤ ('<' :: inside).length := by
        intro n hn
        rw [AttributeList.notices, List.mem_map] at hn
        obtain ⟨one, hone, rfl⟩ := hn
        have hleft := hread one (mem_of_mem_repeatedAmong hone)
        simp only [List.length_cons]
        omega
      split
      · rename_i fault hfault
        obtain ⟨hleft, hfits⟩ := hending fault hfault
        refine ⟨hnotices, inside_faulty ?_ (hfits.mono hrest.isInfix)⟩
        rw [List.length_cons]
        omega
      · rename_i behind hbehind
        have hshorter := attributesFrom_length hbehind
        refine ⟨hnotices, (closeStartTag_inside _ _ ?_).of_nil (Nat.le_refl _)⟩
        omega
  · exact ⟨by simp, inside_missed _⟩

/-- The notices about a word and its fault lie inside the text. -/
theorem readWord_inside (cs : List Char) :
    (∀ n ∈ (readWord cs).1, n.left ≤ cs.length) ∧
      (readWord cs).2.FaultInside cs cs.length := by
  unfold readWord
  split
  · exact ⟨by simp, (readText_inside _).of_nil (Nat.le_refl _)⟩
  · exact ⟨by simp, (readEndTag_inside _).of_nil (Nat.le_refl _)⟩
  · exact readStartTag_inside _
  · exact ⟨by simp, inside_missed _⟩

/-- All that reading a text comes upon lies inside the text.  So does the fault that ends it, which
is one that can be in a word, unless it is that no word begins where one is needed. -/
theorem readTokens_inside (allowed : Bool) (cs : List Char) :
    (∀ token ∈ (readTokens allowed cs).read, token.left ≤ cs.length) ∧
      ∀ fault, (readTokens allowed cs).fault = some fault →
        fault.left ≤ cs.length ∧ (fault.item.FitsIn cs ∨
          fault.item.kind = .ok .unterminatedInput ∧ allowed = false) := by
  fun_induction readTokens allowed cs with
  | case1 cs here hempty => simp
  | case2 cs here hempty notices hmissed =>
    have hskip : here.length ≤ cs.length := skipSpace_length cs
    unfold readTrailing
    split
    case isTrue => simpa using hskip
    case isFalse hallowed =>
      refine ⟨by simp, fun fault hfault => ?_⟩
      cases hfault
      exact ⟨hskip, .inr ⟨rfl, by simpa using hallowed⟩⟩
  | case3 cs here hempty notices fault hfaulty =>
    have hskip : here.length ≤ cs.length := skipSpace_length cs
    obtain ⟨hnotices, hinside⟩ := readWord_inside here
    rw [hfaulty] at hnotices hinside
    constructor
    · intro token htoken
      simp only [Tokens.withNotices, List.append_nil, List.mem_map] at htoken
      obtain ⟨n, hn, rfl⟩ := htoken
      exact Nat.le_trans (hnotices n hn) hskip
    · intro other hother
      cases hother
      have hwhole := hinside.mono hskip (skipSpace_suffix cs).isInfix
      exact ⟨hwhole.inside fault rfl, .inl (hwhole.fits fault rfl)⟩
  | case4 cs here hempty notices w rest hmatched more ih =>
    have hskip : here.length ≤ cs.length := skipSpace_length cs
    have hlength := readWord_length (congrArg Prod.snd hmatched)
    have hrest := (readWord_suffix (congrArg Prod.snd hmatched)).trans (skipSpace_suffix cs)
    obtain ⟨hnotices, -⟩ := readWord_inside here
    rw [hmatched] at hnotices
    constructor
    · intro token htoken
      simp only [Tokens.withNotices, List.mem_append, List.mem_map, List.mem_cons] at htoken
      rcases htoken with ⟨n, hn, rfl⟩ | rfl | htoken
      · exact Nat.le_trans (hnotices n hn) hskip
      · exact hskip
      · have hmore := ih.1 token htoken
        omega
    · intro fault hfault
      obtain ⟨hleft, hsort⟩ := ih.2 fault hfault
      exact ⟨by omega, hsort.imp_left fun hfits => hfits.mono hrest.isInfix⟩

end MarkupSpans.Grammar
