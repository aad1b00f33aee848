import MarkupSpans.Proofs.Parsing
import MarkupSpans.Proofs.Grammar.Inside

/-!
# Reading a text behind another one

Words end with their closing brackets, so a text that is read completely is read in the same way
whatever stands behind it, and what stands behind it is read as if nothing stood in front
(`readTokens_append`).  Places are told by the characters that are left; those of the first text
are moved by the length of the second one, and those of the second one stay.
-/

set_option autoImplicit false

namespace MarkupSpans.Grammar

/-- The same with `n` more characters behind it. -/
def Placed.shift {α : Type} (n : Nat) (p : Placed α) : Placed α := { p with left := p.left + n }

/-- A notice as something that is come upon. -/
def Placed.ofNotice (n : Placed Notice) : Placed Token := ⟨.notice n.item, n.left⟩

/-- More characters behind the attributes move the places where they begin. -/
theorem readsOf_add (attributes : List (Gap × AttributeTree)) (behind n : Nat) :
    readsOf attributes (behind + n) =
      (readsOf attributes behind).map fun one => { one with left := one.left + n } := by
  induction attributes with
  | nil => rfl
  | cons pair more ih =>
    rw [readsOf, readsOf, List.map_cons, ih]
    simp only [Nat.add_assoc]

/-- Which attributes repeat a name does not depend on where they stand. -/
theorem repeatedAmong_map (seen : List String) (read : List ReadAttribute) (n : Nat) :
    repeatedAmong seen (read.map fun one => { one with left := one.left + n }) =
      (repeatedAmong seen read).map fun one => { one with left := one.left + n } := by
  induction read generalizing seen with
  | nil => rfl
  | cons one rest ih =>
    simp only [List.map_cons, repeatedAmong]
    split
    · rw [List.map_cons, ih]
    · exact ih _

/-- More characters behind a word move the places of its notices. -/
theorem WordTree.notices_add (t : WordTree) (behind n : Nat) :
    t.notices (behind + n) = (t.notices behind).map (Placed.shift n) := by
  cases t with
  | startTag name attributes after =>
    have hbehind : after.val.length + (behind + n + 1) =
        after.val.length + (behind + 1) + n := by
      omega
    simp only [notices]
    rw [hbehind, readsOf_add, repeatedAmong_map, List.map_map, List.map_map]
    rfl
  | _ => rfl

/-- What is come upon in words with space behind each, where `behind` characters come after
them. -/
def WordTrees.tokens : WordTrees → Nat → List (Placed Token)
  | [], _ => []
  | (t, after) :: more, behind =>
    let left := (after.val ++ WordTrees.chars more).length + behind
    (t.notices left).map Placed.ofNotice ++
      ⟨.word t.word, t.chars.length + left⟩ :: WordTrees.tokens more behind

/-- More characters behind words move the places of all that is come upon in them. -/
theorem WordTrees.tokens_add (trees : WordTrees) (behind n : Nat) :
    trees.tokens (behind + n) = (trees.tokens behind).map (Placed.shift n) := by
  induction trees with
  | nil => rfl
  | cons pair more ih =>
    obtain ⟨t, after⟩ := pair
    simp only [tokens, List.map_append, List.map_cons, List.map_map]
    rw [ih, ← Nat.add_assoc, t.notices_add, List.map_map]
    simp only [Placed.shift, Nat.add_assoc]
    rfl

/-- Only what stands behind the space in front is read. -/
theorem readTokens_congr (allowed : Bool) {cs cs' : List Char} (h : skipSpace cs = skipSpace cs') :
    readTokens allowed cs = readTokens allowed cs' := by
  unfold readTokens
  dsimp only
  rw [h]

/-- Space in front of a text is not read. -/
theorem readTokens_space_append (allowed : Bool) (space : Space) (cs : List Char) :
    readTokens allowed (space.val ++ cs) = readTokens allowed cs := by
  apply readTokens_congr
  obtain ⟨space, hspace⟩ := space
  induction space with
  | nil => rfl
  | cons c rest ih =>
    have hc : Text.isSpace c = true := hspace c (by simp)
    show List.dropWhile Text.isSpace (c :: (rest ++ cs)) = _
    rw [List.dropWhile_cons_of_pos hc]
    exact ih fun d hd => hspace d (by simp [hd])

/-- Words with space behind each are read as they stand if no integer in them is overlong, and then
what comes after them is read. -/
theorem readTokens_trees_append (allowed : Bool) (trees : WordTrees)
    (hshort : trees.overlong? = none) (cs : List Char) :
    readTokens allowed (WordTrees.chars trees ++ cs) =
      ⟨trees.tokens cs.length ++ (readTokens allowed cs).read, (readTokens allowed cs).fault⟩ := by
  induction trees with
  | nil => rfl
  | cons pair more ih =>
    obtain ⟨t, after⟩ := pair
    rw [WordTrees.overlong?_cons, Option.or_eq_none_iff] at hshort
    generalize hrest : after.val ++ (WordTrees.chars more ++ cs) = rest
    have hchars : WordTrees.chars ((t, after) :: more) ++ cs = t.chars ++ rest := by
      rw [WordTrees.chars_cons, List.append_assoc, List.append_assoc, hrest]
    have hskip : skipSpace (t.chars ++ rest) = t.chars ++ rest :=
      skipSpace_of_stops (t.stops_space rest)
    have hmatched : readWord (skipSpace (t.chars ++ rest)) =
        (t.notices rest.length, .matched t.word rest) := by
      rw [hskip, readWord_append t hshort.1]
    have hlength : rest.length = (after.val ++ WordTrees.chars more).length + cs.length := by
      rw [← hrest, ← List.append_assoc, List.length_append]
    have hbehind : readTokens allowed rest =
        ⟨WordTrees.tokens more cs.length ++ (readTokens allowed cs).read,
          (readTokens allowed cs).fault⟩ := by
      rw [← hrest, readTokens_space_append, ih hshort.2]
    rw [hchars, readTokens_matched hmatched, hskip, hbehind, List.length_append, hlength]
    simp only [Tokens.withNotices, WordTrees.tokens, List.append_assoc, List.cons_append]
    rfl

/-- In an empty text nothing is read, and nothing is wrong with it. -/
theorem readTokens_nil (allowed : Bool) : readTokens allowed [] = ⟨[], none⟩ := by
  rw [readTokens]
  rfl

/-- A text that is read completely is read as it stands, and then what comes after it is read. -/
theorem readTokens_append (allowed : Bool) {cs : List Char}
    (hcs : (readTokens false cs).fault = none) (more : List Char) :
    readTokens allowed (cs ++ more) =
      ⟨(readTokens allowed cs).read.map (Placed.shift more.length) ++
        (readTokens allowed more).read, (readTokens allowed more).fault⟩ := by
  -- a complete text is a row of words as the grammar has them, and those are read as they stand
  obtain ⟨⟨before, trees⟩, rfl, hshort⟩ := exists_of_readTokens hcs
  have halone := readTokens_trees_append allowed trees hshort []
  rw [List.append_nil, readTokens_nil] at halone
  rw [MarkupTree.chars, List.append_assoc, readTokens_space_append, readTokens_space_append,
    readTokens_trees_append allowed trees hshort, halone]
  simp [← trees.tokens_add]

/-- A text that is read completely is read so whether or not trailing text is allowed. -/
theorem readTokens_fault_eq_none (allowed : Bool) {cs : List Char}
    (hcs : (readTokens false cs).fault = none) : (readTokens allowed cs).fault = none := by
  have happend := readTokens_append allowed hcs []
  rw [List.append_nil, readTokens_nil] at happend
  exact congrArg Tokens.fault happend

/-! ## Words and notices begin in front of the end -/

/-- An attribute begins in front of what stands behind the attributes. -/
theorem le_left_of_mem_readsOf {attributes : List (Gap × AttributeTree)} {behind : Nat}
    {one : ReadAttribute} (h : one ∈ readsOf attributes behind) : behind ≤ one.left := by
  induction attributes with
  | nil => cases h
  | cons pair more ih =>
    rw [readsOf] at h
    rcases List.mem_cons.mp h with rfl | h
    · exact Nat.le_add_left _ _
    · exact ih h

/-- A notice about a word has its place in front of the word's end. -/
theorem WordTree.lt_left_of_mem_notices {t : WordTree} {behind : Nat} {n : Placed Notice}
    (h : n ∈ t.notices behind) : behind < n.left := by
  cases t with
  | startTag name attributes after =>
    rw [notices, List.mem_map] at h
    obtain ⟨one, hone, rfl⟩ := h
    have hleft := le_left_of_mem_readsOf (mem_of_mem_repeatedAmong hone)
    dsimp only
    omega
  | text before s after => cases h
  | endTag name after => cases h

/-- All that is come upon in words begins in front of their end. -/
theorem WordTrees.lt_left_of_mem_tokens {trees : WordTrees} {behind : Nat}
    {token : Placed Token} (h : token ∈ trees.tokens behind) : behind < token.left := by
  induction trees with
  | nil => cases h
  | cons pair more ih =>
    obtain ⟨t, after⟩ := pair
    simp only [tokens, List.mem_append, List.mem_map, List.mem_cons] at h
    rcases h with ⟨n, hn, rfl⟩ | rfl | h
    · have hleft := t.lt_left_of_mem_notices hn
      simp only [Placed.ofNotice]
      omega
    · obtain ⟨c, tail, hchars, -⟩ := t.exists_cons
      simp only [hchars, List.length_cons]
      omega
    · exact ih h

/-- Nothing is come upon at the end of a text that is read completely. -/
theorem left_pos_of_mem_readTokens {allowed : Bool} {cs : List Char}
    (hcs : (readTokens false cs).fault = none) {token : Placed Token}
    (h : token ∈ (readTokens allowed cs).read) : 0 < token.left := by
  obtain ⟨⟨before, trees⟩, rfl, hshort⟩ := exists_of_readTokens hcs
  have htokens := readTokens_trees_append allowed trees hshort []
  rw [List.append_nil, readTokens_nil] at htokens
  rw [MarkupTree.chars, readTokens_space_append, htokens, List.append_nil] at h
  exact WordTrees.lt_left_of_mem_tokens h

end MarkupSpans.Grammar
