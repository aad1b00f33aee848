import MarkupSpans.Expr
import MarkupSpans.Grammar.Literal

/-!
# Expressions in the text

A string, a number, an identifier, or, where calls are allowed, an identifier with arguments in
parentheses that are expressions themselves.  The two rules refer to each other; the steps they
may take are bounded by the length of the text, which is always enough, as each round reads at
least one character.  `readExpression_eq`, `readArguments` and `readMoreArguments_eq` say what the
rules are without the bound.
-/

set_option autoImplicit false

namespace MarkupSpans.Grammar

open Text

mutual

/-- An expression, read in a bounded number of steps. -/
def expressionWithin : Nat → Bool → List Char → Outcome Expr
  | 0, _, _ => .missed
  | steps + 1, callAllowed, cs =>
    match cs.head? with
    | none => .missed
    | some c =>
      if isQuote c then (readString cs).map .text
      else if c == '-' || isDigit c then (readNumber cs).map .number
      else
        match readIdentifier cs with
        | .missed => .missed
        | .faulty fault => .faulty fault
        | .matched name rest =>
          if callAllowed then
            match skipSpace rest with
            | '(' :: inside =>
              match skipSpace inside with
              | ')' :: behind => .matched (.call name []) behind
              | first =>
                (argumentsWithin steps name (inside.length + 1) first).map (.call name ·)
            | _ => .matched (.ref name) rest
          else .matched (.ref name) rest

/-- One argument or more, with commas between them and a closing parenthesis behind them, read
in a bounded number of steps; `opened` characters were left at the opening parenthesis. -/
def argumentsWithin : Nat → String → Nat → List Char → Outcome (List Expr)
  | 0, _, _, _ => .missed
  | steps + 1, function, opened, cs =>
    match expressionWithin steps true cs with
    | .missed => .faulty ⟨.argumentGarbage function, cs.length⟩
    | .faulty fault => .faulty fault
    | .matched argument rest =>
      match skipSpace rest with
      | ')' :: behind => .matched [argument] behind
      | ',' :: more =>
        (argumentsWithin steps function opened (skipSpace more)).map (argument :: ·)
      | _ => .faulty ⟨.argumentsNotClosed function, opened⟩

end

/-- An expression; `callAllowed` says whether it may be a call. -/
def readExpression (callAllowed : Bool) (cs : List Char) : Outcome Expr :=
  expressionWithin (cs.length + 1) callAllowed cs

/-- One argument or more of a call of `function`, with the closing parenthesis; `opened`
characters were left at the opening one. -/
def readMoreArguments (function : String) (opened : Nat) (cs : List Char) :
    Outcome (List Expr) :=
  argumentsWithin (cs.length + 2) function opened cs

/-- The arguments of a call of `function`, with their parentheses. -/
def readArguments (function : String) : List Char → Outcome (List Expr)
  | '(' :: inside =>
    match skipSpace inside with
    | ')' :: behind => .matched [] behind
    | first => readMoreArguments function (inside.length + 1) first
  | _ => .missed

/-! ## A match leaves fewer characters -/

/-- Neither rule matches without reading a character. -/
theorem length_within (steps : Nat) :
    (∀ callAllowed cs e rest, expressionWithin steps callAllowed cs = .matched e rest →
      rest.length < cs.length) ∧
    (∀ function opened cs args rest,
      argumentsWithin steps function opened cs = .matched args rest →
      rest.length < cs.length) := by
  induction steps with
  | zero => simp [expressionWithin, argumentsWithin]
  | succ steps ih =>
    constructor
    · intro callAllowed cs e rest h
      unfold expressionWithin at h
      split at h
      · simp at h
      · split at h
        · rw [Outcome.map_eq_matched_iff] at h
          obtain ⟨_, h, _⟩ := h
          exact readString_length h
        · split at h
          · rw [Outcome.map_eq_matched_iff] at h
            obtain ⟨_, h, _⟩ := h
            exact readNumber_length h
          · split at h
            · simp at h
            · simp at h
            · rename_i name behind hname
              have hlen := readIdentifier_length hname
              split at h
              · have hskip := skipSpace_length behind
                split at h
                · rename_i inside hinside
                  rw [hinside, List.length_cons] at hskip
                  have hskip' := skipSpace_length inside
                  split at h
                  · rename_i closed hclosed
                    rw [hclosed, List.length_cons] at hskip'
                    simp only [Outcome.matched.injEq] at h
                    rw [← h.2]
                    omega
                  · rw [Outcome.map_eq_matched_iff] at h
                    obtain ⟨_, h, _⟩ := h
                    have := ih.2 _ _ _ _ _ h
                    omega
                · simp only [Outcome.matched.injEq] at h
                  rw [← h.2]
                  exact hlen
              · simp only [Outcome.matched.injEq] at h
                rw [← h.2]
                exact hlen
    · intro function opened cs args rest h
      unfold argumentsWithin at h
      split at h
      · simp at h
      · simp at h
      · rename_i argument behind hargument
        have hlen := ih.1 _ _ _ _ hargument
        have hskip := skipSpace_length behind
        split at h
        · rename_i closed hclosed
          rw [hclosed, List.length_cons] at hskip
          simp only [Outcome.matched.injEq] at h
          rw [← h.2]
          omega
        · rename_i more hmore
          rw [hmore, List.length_cons] at hskip
          rw [Outcome.map_eq_matched_iff] at h
          obtain ⟨_, h, _⟩ := h
          have hskip' := skipSpace_length more
          have := ih.2 _ _ _ _ _ h
          omega
        · simp at h

/-- An expression takes up at least one character. -/
theorem readExpression_length {callAllowed : Bool} {cs rest : List Char} {e : Expr}
    (h : readExpression callAllowed cs = .matched e rest) : rest.length < cs.length :=
  (length_within _).1 _ _ _ _ h

/-! ## The bound on the steps does not show -/

/-- With more steps than characters the number of steps makes no difference. -/
theorem within_eq_within (steps : Nat) :
    (∀ steps' callAllowed cs, cs.length < steps → cs.length < steps' →
      expressionWithin steps callAllowed cs = expressionWithin steps' callAllowed cs) ∧
    (∀ steps' function opened cs, cs.length + 1 < steps → cs.length + 1 < steps' →
      argumentsWithin steps function opened cs = argumentsWithin steps' function opened cs) := by
  induction steps with
  | zero => constructor <;> intros <;> omega
  | succ steps ih =>
    constructor
    · intro steps' callAllowed cs h h'
      obtain ⟨steps', rfl⟩ : ∃ n, steps' = n + 1 := ⟨steps' - 1, by omega⟩
      unfold expressionWithin
      cases hhead : cs.head? with
      | none => rfl
      | some c =>
        simp only
        split
        · rfl
        · split
          · rfl
          · cases hname : readIdentifier cs with
            | missed => rfl
            | faulty fault => rfl
            | matched name rest =>
              have hlen := readIdentifier_length hname
              have hskip := skipSpace_length rest
              simp only
              split
              · split
                · rename_i inside hinside
                  rw [hinside, List.length_cons] at hskip
                  have hskip' := skipSpace_length inside
                  split
                  · rfl
                  · rw [ih.2 steps' name (inside.length + 1) (skipSpace inside)
                      (by omega) (by omega)]
                · rfl
              · rfl
    · intro steps' function opened cs h h'
      obtain ⟨steps', rfl⟩ : ∃ n, steps' = n + 1 := ⟨steps' - 1, by omega⟩
      unfold argumentsWithin
      rw [ih.1 steps' true cs (by omega) (by omega)]
      cases hargument : expressionWithin steps' true cs with
      | missed => rfl
      | faulty fault => rfl
      | matched argument rest =>
        have hlen := (length_within _).1 _ _ _ _ hargument
        have hskip := skipSpace_length rest
        simp only
        split
        · rfl
        · rename_i more hmore
          rw [hmore, List.length_cons] at hskip
          have hskip' := skipSpace_length more
          rw [ih.2 steps' function opened (skipSpace more) (by omega) (by omega)]
        · rfl

/-- Arguments in terms of expressions: one, and then a closing parenthesis, or a comma and more
arguments. -/
theorem readMoreArguments_eq (function : String) (opened : Nat) (cs : List Char) :
    readMoreArguments function opened cs =
      match readExpression true cs with
      | .missed => .faulty ⟨.argumentGarbage function, cs.length⟩
      | .faulty fault => .faulty fault
      | .matched argument rest =>
        match skipSpace rest with
        | ')' :: behind => .matched [argument] behind
        | ',' :: more =>
          (readMoreArguments function opened (skipSpace more)).map (argument :: ·)
        | _ => .faulty ⟨.argumentsNotClosed function, opened⟩ := by
  rw [readMoreArguments, argumentsWithin]
  change (match readExpression true cs with
    | .missed => _
    | .faulty fault => _
    | .matched argument rest => _) = _
  cases hargument : readExpression true cs with
  | missed => rfl
  | faulty fault => rfl
  | matched argument rest =>
    have hlen := readExpression_length hargument
    have hskip := skipSpace_length rest
    simp only
    split
    · rfl
    · rename_i more hmore
      rw [hmore, List.length_cons] at hskip
      have hskip' := skipSpace_length more
      rw [readMoreArguments, (within_eq_within _).2 ((skipSpace more).length + 2) function opened
        (skipSpace more) (by omega) (by omega)]
    · rfl

/-- Expressions in terms of arguments: a string, a number, or an identifier that may be called. -/
theorem readExpression_eq (callAllowed : Bool) (cs : List Char) :
    readExpression callAllowed cs =
      match cs.head? with
      | none => .missed
      | some c =>
        if isQuote c then (readString cs).map .text
        else if c == '-' || isDigit c then (readNumber cs).map .number
        else
          match readIdentifier cs with
          | .missed => .missed
          | .faulty fault => .faulty fault
          | .matched name rest =>
            if callAllowed && (skipSpace rest).head? == some '(' then
              (readArguments name (skipSpace rest)).map (.call name ·)
            else .matched (.ref name) rest := by
  rw [readExpression, expressionWithin]
  cases hhead : cs.head? with
  | none => rfl
  | some c =>
    simp only
    split
    · rfl
    · split
      · rfl
      · cases hname : readIdentifier cs with
        | missed => rfl
        | faulty fault => rfl
        | matched name rest =>
          have hlen := readIdentifier_length hname
          have hskip := skipSpace_length rest
          cases callAllowed with
          | false => rfl
          | true =>
            simp only [Bool.true_and, ↓reduceIte]
            split
            · rename_i inside hinside
              rw [hinside, List.length_cons] at hskip
              have hskip' := skipSpace_length inside
              simp only [hinside, List.head?_cons, beq_self_eq_true, if_true, readArguments]
              split
              · rfl
              · rw [readMoreArguments, (within_eq_within _).2 ((skipSpace inside).length + 2) name
                  (inside.length + 1) (skipSpace inside) (by omega) (by omega)]
            · rename_i hother
              have : ((skipSpace rest).head? == some '(') = false := by
                cases hrest : skipSpace rest with
                | nil => rfl
                | cons d more =>
                  simp only [List.head?_cons, beq_eq_false_iff_ne, ne_eq, Option.some.injEq]
                  intro hd
                  exact hother more (by rw [hrest, hd])
              simp [this]

end MarkupSpans.Grammar
