import Mathlib.Data.List.Basic
import MarkupSpans.Proofs.Grammar.Literal
import MarkupSpans.Proofs.Hexadecimal
import MarkupSpans.Style.Color
import MarkupSpans.Value.Same

/-!
# Which texts are colours

A text is a colour if between the blanks at its ends it shows three, six or eight digits in base
sixteen, with a number sign or none in front of them (`Color.ofText?_of_shows`).  Neither the case
of the digits nor the sign counts, three digits stand for six, and a full opacity can be left out.
So each colour has one written form without these choices, and reading that form gives the colour
back (`Color.ofText?_hex`).
-/

set_option autoImplicit false

namespace MarkupSpans

open Grammar

/-! ## Blanks at the ends -/

namespace Text

/-- Blanks on both sides of a text without blanks are cut off. -/
theorem trimBlanks_append {front core back : List Char} (hfront : ∀ c ∈ front, isBlank c = true)
    (hcore : ∀ c ∈ core, isBlank c = false) (hback : ∀ c ∈ back, isBlank c = true) :
    trimBlanks (front ++ core ++ back) = core := by
  have hback' : ∀ c ∈ back.reverse, isBlank c = true := by simpa using hback
  have hstops : Stops isBlank core.reverse := fun c hc =>
    hcore c (List.mem_reverse.mp (List.mem_of_mem_head? hc))
  rw [trimBlanks, List.append_assoc, List.dropWhile_append_of_pos hfront]
  cases core with
  | nil =>
    have hnone : back.dropWhile isBlank = [] := by simpa using hback
    rw [List.nil_append, hnone]
    rfl
  | cons c tail =>
    have hc : isBlank c = false := hcore c List.mem_cons_self
    rw [List.cons_append, List.dropWhile_cons_of_neg (by simp [hc]), ← List.cons_append,
      List.reverse_append, dropWhile_append_of_stops hback' hstops, List.reverse_reverse]

/-- What is trimmed off a text is blank. -/
theorem exists_blanks (cs : List Char) : ∃ front back, cs = front ++ trimBlanks cs ++ back ∧
    (∀ c ∈ front, isBlank c = true) ∧ ∀ c ∈ back, isBlank c = true := by
  have hfront := List.takeWhile_append_dropWhile (p := isBlank) (l := cs)
  have hback := List.takeWhile_append_dropWhile (p := isBlank) (l := (cs.dropWhile isBlank).reverse)
  refine ⟨cs.takeWhile isBlank, ((cs.dropWhile isBlank).reverse.takeWhile isBlank).reverse, ?_,
    fun c hc => List.mem_takeWhile_imp hc, fun c hc => List.mem_takeWhile_imp (by simpa using hc)⟩
  rw [trimBlanks, List.append_assoc, ← List.reverse_append, hback, List.reverse_reverse, hfront]

end Text

/-! ## Numbers of whole sorts -/

namespace Number

/-- A number with an integer value has it as its rational value too. -/
theorem toRat?_of_toInt? {n : Number} {i : Int} (h : n.toInt? = some i) :
    n.toRat? = some (i : Rat) := by
  cases n with
  | truth b => cases b <;> (cases h; rfl)
  | int j =>
    cases h
    rfl
  | float x => cases h

/-- Numbers with integer values are the same if these are. -/
theorem same_of_toInt? {m n : Number} {i j : Int} (hm : m.toInt? = some i)
    (hn : n.toInt? = some j) : m.same n = decide (i = j) := by
  rw [Number.same, toRat?_of_toInt? hm, toRat?_of_toInt? hn]
  dsimp only
  rw [Bool.eq_iff_iff, beq_iff_eq, Rat.intCast_inj, decide_eq_true_iff]

end Number

namespace Style.Color

open Text

/-- All channels are below 256. -/
structure InRange (c : Color) : Prop where
  r_lt : c.r < 256
  g_lt : c.g < 256
  b_lt : c.b < 256
  a_lt : c.a < 256

/-- Between the blanks at its ends a text is a number sign or none and some digits in base
sixteen. -/
def Shows (text : String) (digits : List Char) : Prop :=
  ∃ front sign back, text.toList = front ++ (sign ++ digits) ++ back ∧
    (∀ c ∈ front, isBlank c = true) ∧ (∀ c ∈ back, isBlank c = true) ∧
    (sign = [] ∨ sign = ['#']) ∧ ∀ d ∈ digits, IsHexDigit d

/-- The digits of a text, from rows of characters that evaluate to be its parts. -/
theorem Shows.of {text : String} {digits : List Char} (front sign back : List Char)
    (htext : text.toList = front ++ (sign ++ digits) ++ back)
    (hblank : (front ++ back).all isBlank = true) (hsign : sign = [] ∨ sign = ['#'])
    (hdigits : digits.all (fun d => decide (IsHexDigit d)) = true) : Shows text digits := by
  rw [List.all_append, Bool.and_eq_true, List.all_eq_true, List.all_eq_true] at hblank
  exact ⟨front, sign, back, htext, hblank.1, hblank.2, hsign, fun d hd =>
    of_decide_eq_true (List.all_eq_true.mp hdigits d hd)⟩

/-- What a text shows are digits in base sixteen. -/
theorem Shows.isHexDigit {text : String} {digits : List Char} (h : Shows text digits) :
    ∀ d ∈ digits, IsHexDigit d := by
  obtain ⟨-, -, -, -, -, -, -, hdigits⟩ := h
  exact hdigits

/-! ## What is no digit -/

/-- A digit in base sixteen is no blank. -/
theorem isBlank_of_isHexDigit {d : Char} (h : IsHexDigit d) : isBlank d = false := by
  have hinside : (!isBlank d) = true := @h.of_all (fun d => !isBlank d) (by decide)
  simpa using hinside

/-- A digit in base sixteen is not the sign in front of a colour. -/
theorem ne_sign_of_isHexDigit {d : Char} (h : IsHexDigit d) : d ≠ '#' := by
  rintro rfl
  exact absurd h (by decide)

/-! ## Colours of digits -/

/-- Three, six or eight digits make up a colour, and no other number of them. -/
theorem isSome_ofDigits?_iff (values : List Nat) :
    (ofDigits? values).isSome ↔
      values.length = 3 ∨ values.length = 6 ∨ values.length = 8 := by
  constructor
  · intro h
    unfold ofDigits? at h
    split at h
    · simp
    · simp
    · simp
    · cases h
  · intro h
    match values, h with
    | [_, _, _], _ => rfl
    | [_, _, _, _, _, _], _ => rfl
    | [_, _, _, _, _, _, _, _], _ => rfl

/-- A colour that is made up of digits has its channels in range. -/
theorem inRange_of_ofDigits? {values : List Nat} {c : Color} (hvalues : ∀ v ∈ values, v < 16)
    (h : ofDigits? values = some c) : c.InRange := by
  unfold ofDigits? at h
  split at h
  case h_4 => cases h
  all_goals
    cases h
    simp only [List.mem_cons, List.not_mem_nil, or_false, forall_eq_or_imp, forall_eq] at hvalues
    constructor <;> dsimp only <;> omega

/-- Only the last two of eight digits are an opacity. -/
theorem a_of_ofDigits? {values : List Nat} {c : Color} (h : ofDigits? values = some c)
    (hlength : values.length ≠ 8) : c.a = 255 := by
  unfold ofDigits? at h
  split at h
  · cases h
    rfl
  · cases h
    rfl
  · exact absurd rfl hlength
  · cases h

/-! ## Texts that show digits -/

/-- A text that shows digits is the colour of these digits, or none. -/
theorem ofText?_of_shows {text : String} {digits : List Char} (h : Shows text digits) :
    ofText? text = (digits.mapM hexDigitValue?).bind ofDigits? := by
  obtain ⟨front, sign, back, htext, hfront, hback, hsign, hdigits⟩ := h
  have hcore : ∀ c ∈ sign ++ digits, isBlank c = false := by
    intro c hc
    rcases List.mem_append.mp hc with hc | hc
    · rcases hsign with rfl | rfl
      · cases hc
      · rw [List.mem_singleton.mp hc]
        decide
    · exact isBlank_of_isHexDigit (hdigits c hc)
  rw [ofText?, htext, trimBlanks_append hfront hcore hback]
  rcases hsign with rfl | rfl
  · have hhead : digits.head? ≠ some '#' := fun hhead =>
      ne_sign_of_isHexDigit (hdigits '#' (List.mem_of_mem_head? hhead)) rfl
    simp [hhead]
  · simp

/-- Every colour is shown by digits. -/
theorem exists_shows {text : String} {c : Color} (h : ofText? text = some c) :
    ∃ digits, Shows text digits := by
  obtain ⟨front, back, htext, hfront, hback⟩ := exists_blanks text.toList
  simp only [ofText?, Option.bind_eq_some_iff] at h
  obtain ⟨values, hvalues, -⟩ := h
  have hdigits := isHexDigit_of_mapM hvalues
  split at hdigits
  case isTrue hhead =>
    obtain ⟨tail, htail⟩ := List.head?_eq_some_iff.mp (beq_iff_eq.mp hhead)
    rw [htail] at htext hdigits
    exact ⟨tail, front, ['#'], back, htext, hfront, hback, .inr rfl, hdigits⟩
  case isFalse =>
    exact ⟨trimBlanks text.toList, front, [], back, htext, hfront, hback, .inl rfl, hdigits⟩

/-- The colour of some digits is in range, and opaque unless there are eight of them. -/
theorem bounds_of_shows {text : String} {digits : List Char} {c : Color} (h : Shows text digits)
    (hc : ofText? text = some c) :
    c.InRange ∧ (digits.length = 3 ∨ digits.length = 6 ∨ digits.length = 8) ∧
      (digits.length ≠ 8 → c.a = 255) := by
  obtain ⟨values, hvalues, hlength, hlt⟩ := exists_hexValues h.isHexDigit
  rw [ofText?_of_shows h, hvalues, Option.bind_some] at hc
  have hsome := (isSome_ofDigits?_iff values).mp (by simp [hc])
  rw [hlength] at hsome
  exact ⟨inRange_of_ofDigits? hlt hc, hsome, fun hne => a_of_ofDigits? hc (hlength ▸ hne)⟩

/-- A text that shows three, six or eight digits is a colour. -/
theorem isSome_of_shows {text : String} {digits : List Char} (h : Shows text digits)
    (hlength : digits.length = 3 ∨ digits.length = 6 ∨ digits.length = 8) :
    ∃ c, ofText? text = some c := by
  obtain ⟨values, hvalues, hsame, -⟩ := exists_hexValues h.isHexDigit
  rw [← hsame] at hlength
  rw [ofText?_of_shows h, hvalues, Option.bind_some]
  exact Option.isSome_iff_exists.mp ((isSome_ofDigits?_iff values).mpr hlength)

/-- Texts that show the same digits, but for case, are the same colour. -/
theorem ofText?_congr {text text' : String} {digits digits' : List Char} (h : Shows text digits)
    (h' : Shows text' digits')
    (hcase : digits'.map Char.toLower = digits.map Char.toLower) :
    ofText? text' = ofText? text := by
  rw [ofText?_of_shows h, ofText?_of_shows h', ← mapM_hexDigitValue?_toLower digits', hcase,
    mapM_hexDigitValue?_toLower]

/-- Three digits stand for six, each of them for two. -/
theorem ofText?_of_doubled {text text' : String} {digits : List Char} (h : Shows text digits)
    (hlength : digits.length = 3) (h' : Shows text' (digits.flatMap fun d => [d, d])) :
    ofText? text' = ofText? text := by
  obtain ⟨values, hvalues, hsame, -⟩ := exists_hexValues h.isHexDigit
  rw [ofText?_of_shows h, ofText?_of_shows h', mapM_hexDigitValue?_doubled, hvalues]
  obtain ⟨r, g, b, rfl⟩ := List.length_eq_three.mp (hsame.trans hlength)
  rfl

/-- A full opacity behind six digits can be left out. -/
theorem ofText?_with_full_alpha {text text' : String} {digits : List Char} (h : Shows text digits)
    (hlength : digits.length = 6) (h' : Shows text' (digits ++ ['f', 'f'])) :
    ofText? text' = ofText? text := by
  obtain ⟨values, hvalues, hsame, -⟩ := exists_hexValues h.isHexDigit
  have hopacity : ['f', 'f'].mapM hexDigitValue? = some [15, 15] := rfl
  rw [ofText?_of_shows h, ofText?_of_shows h', List.mapM_append, hvalues, hopacity]
  rw [hlength] at hsame
  match values, hsame with
  | [_, _, _, _, _, _], _ => rfl

/-! ## The written form -/

/-- The channels of a colour that are written. -/
def writtenChannels (c : Color) : List Nat :=
  if c.a = 255 then [c.r, c.g, c.b] else [c.r, c.g, c.b, c.a]

/-- The channels of a colour in range are written as two digits each. -/
theorem writtenChannels_lt {c : Color} (h : c.InRange) : ∀ n ∈ c.writtenChannels, n < 256 := by
  obtain ⟨hr, hg, hb, ha⟩ := h
  unfold writtenChannels
  split <;> simp [hr, hg, hb, ha]

/-- The written form of a colour shows two digits for each channel. -/
theorem shows_hex {c : Color} (h : c.InRange) :
    Shows c.hex (c.writtenChannels.flatMap (lastHexDigits 2)) := by
  have hjoin : ∀ channels : List Nat, (∀ n ∈ channels, n < 256) →
      (String.join (channels.map (hexOfNat 2))).toList =
        channels.flatMap (lastHexDigits 2) := by
    intro channels hchannels
    induction channels with
    | nil => rfl
    | cons n rest ih =>
      have hn : n < 16 ^ 2 := hchannels n List.mem_cons_self
      rw [List.map_cons, String.join_cons, String.toList_append, List.flatMap_cons,
        ih fun m hm => hchannels m (List.mem_cons_of_mem _ hm), hexOfNat, String.toList_ofList,
        padZeros_toDigits (by decide) hn]
  refine ⟨[], ['#'], [], ?_, by simp, by simp, .inr rfl, ?_⟩
  · rw [hex, String.toList_append, ← writtenChannels, hjoin _ (writtenChannels_lt h)]
    simp
  · intro d hd
    obtain ⟨n, -, hn⟩ := List.mem_flatMap.mp hd
    exact isHexDigit_of_mem_lastHexDigits hn

/-- Reading the written form of a colour gives the colour back. -/
theorem ofText?_hex {c : Color} (h : c.InRange) : ofText? c.hex = some c := by
  have hchannel : ∀ n, (lastHexDigits 2 n).mapM hexDigitValue? = some [n / 16 % 16, n % 16] := by
    intro n
    have hlow := hexDigitValue?_digitChar (Nat.mod_lt n (by decide : 0 < 16))
    have hhigh := hexDigitValue?_digitChar (Nat.mod_lt (n / 16) (by decide : 0 < 16))
    simp [lastHexDigits, List.mapM_cons, hlow, hhigh]
  have hbyte : ∀ n, n < 256 → 16 * (n / 16 % 16) + n % 16 = n := by omega
  obtain ⟨hr, hg, hb, ha⟩ := h
  rw [ofText?_of_shows (shows_hex ⟨hr, hg, hb, ha⟩), writtenChannels]
  split
  case isTrue hsolid =>
    simp only [List.flatMap_cons, List.flatMap_nil, List.mapM_append, hchannel]
    simp [ofDigits?, hbyte, hr, hg, hb, ← hsolid]
  case isFalse =>
    simp only [List.flatMap_cons, List.flatMap_nil, List.mapM_append, hchannel]
    simp [ofDigits?, hbyte, hr, hg, hb, ha]

/-! ## Colours as values -/

/-- The channels of a colour as numbers of whole sorts. -/
structure Channels (c : Color) (r g b a : Number) : Prop where
  r_eq : r.toInt? = some (c.r : Int)
  g_eq : g.toInt? = some (c.g : Int)
  b_eq : b.toInt? = some (c.b : Int)
  a_eq : a.toInt? = some (c.a : Int)

namespace Channels

variable {c : Color} {r g b a : Number}

/-- A value that is a colour is written as the colour is. -/
theorem colorHex_eq (h : Channels c r g b a) :
    Value.colorHex (.number r) (.number g) (.number b) (.number a) = .ok c.hex := by
  have hchannel : ∀ {n : Number} {m : Nat}, n.toInt? = some (m : Int) →
      (Value.number n).channelHex = .ok (hexOfNat 2 m) := by
    intro n m hn
    have hnonneg : ¬ (m : Int) < 0 := by omega
    rw [Value.channelHex, hn]
    simp only [hexOfInt, if_neg hnonneg, Int.natAbs_natCast]
  have hfull : (Value.number a).isFullChannel = decide (c.a = 255) := by
    have hsame := Number.same_of_toInt? h.a_eq (show (Number.int 255).toInt? = some 255 from rfl)
    rw [Value.isFullChannel, hsame, decide_eq_decide]
    omega
  rw [← colorHex_eq_hex]
  simp only [Value.colorHex, hchannel h.r_eq, hchannel h.g_eq, hchannel h.b_eq, hchannel h.a_eq,
    hfull, channelHex_int, isFullChannel_int]

/-- A value that is a colour counts as equal to the colour. -/
theorem same_toValue (h : Channels c r g b a) (self : Identity) :
    c.toValue.same (.color self (.number r) (.number g) (.number b) (.number a)) = true := by
  have hchannel : ∀ {n : Number} {m : Nat}, n.toInt? = some (m : Int) →
      (Value.number (.int m)).same (.number n) = true := by
    intro n m hn
    rw [Value.same, Number.same_of_toInt? (show (Number.int m).toInt? = some (m : Int) from rfl) hn]
    simp
  rw [toValue, Value.same, hchannel h.r_eq, hchannel h.g_eq, hchannel h.b_eq, hchannel h.a_eq]
  rfl

end Channels

/-- Which texts are colours, what does not count in them, and that each colour of whole channels
below 256 has a written form that is the same for all its texts and from which it is read back. -/
theorem colors_in_base_sixteen :
    (∀ text,
      -- a text is a colour exactly if it shows three, six or eight digits,
      (∃ c, ofText? text = some c) ↔
        ∃ digits, Shows text digits ∧
          (digits.length = 3 ∨ digits.length = 6 ∨ digits.length = 8)) ∧
    (∀ text c digits, ofText? text = some c → Shows text digits →
      c.InRange ∧ (digits.length ≠ 8 → c.a = 255) ∧
      -- and all texts that show the same digits, but for their case, are the same colour,
      (∀ text' digits', Shows text' digits' →
        digits'.map Char.toLower = digits.map Char.toLower → ofText? text' = some c) ∧
      -- as are those that show each of three digits twice, or a full opacity behind six
      (∀ text', digits.length = 3 → Shows text' (digits.flatMap fun d => [d, d]) →
        ofText? text' = some c) ∧
      (∀ text', digits.length = 6 → Shows text' (digits ++ ['f', 'f']) →
        ofText? text' = some c)) ∧
    -- the written form is read back, whatever text the colour came from,
    (∀ text c, ofText? text = some c → ofText? c.hex = some c ∧
      ∀ text' c', ofText? text' = some c' → (c'.hex = c.hex ↔ c' = c)) ∧
    -- or whatever value it is
    ∀ (c : Color) (self : Identity) (r g b a : Number), c.InRange → Channels c r g b a →
      ∃ written, Value.colorHex (.number r) (.number g) (.number b) (.number a) = .ok written ∧
        ofText? written = some c ∧
        c.toValue.same (.color self (.number r) (.number g) (.number b) (.number a)) = true := by
  have hinRange : ∀ {text c}, ofText? text = some c → c.InRange := by
    intro text c hc
    obtain ⟨digits, hdigits⟩ := exists_shows hc
    exact (bounds_of_shows hdigits hc).1
  refine ⟨?_, ?_, ?_, ?_⟩
  · intro text
    constructor
    · rintro ⟨c, hc⟩
      obtain ⟨digits, hdigits⟩ := exists_shows hc
      exact ⟨digits, hdigits, (bounds_of_shows hdigits hc).2.1⟩
    · rintro ⟨digits, hdigits, hlength⟩
      exact isSome_of_shows hdigits hlength
  · intro text c digits hc hdigits
    obtain ⟨hrange, -, hsolid⟩ := bounds_of_shows hdigits hc
    refine ⟨hrange, hsolid, ?_, ?_, ?_⟩
    · intro text' digits' hdigits' hcase
      rw [ofText?_congr hdigits hdigits' hcase, hc]
    · intro text' hlength htext'
      rw [ofText?_of_doubled hdigits hlength htext', hc]
    · intro text' hlength htext'
      rw [ofText?_with_full_alpha hdigits hlength htext', hc]
  · intro text c hc
    refine ⟨ofText?_hex (hinRange hc), ?_⟩
    intro text' c' hc'
    constructor
    · intro hhex
      have hback := ofText?_hex (hinRange hc')
      rw [hhex, ofText?_hex (hinRange hc), Option.some.injEq] at hback
      exact hback.symm
    · rintro rfl
      rfl
  · intro c self r g b a hrange hchannels
    exact ⟨c.hex, hchannels.colorHex_eq, ofText?_hex hrange, hchannels.same_toValue self⟩

/-- A short form with a sign between wide blanks is the colour of a long form in another case and
of one with a full opacity, the written form of all three is read back, and a truth value counts as
a channel. -/
theorem colors_spacedText :
    ofText? "\u3000#1aF\n" = some ⟨17, 170, 255, 255⟩ ∧
      ofText? "11AAff" = some ⟨17, 170, 255, 255⟩ ∧
      ofText? " 11AAffff" = some ⟨17, 170, 255, 255⟩ ∧
      ofText? (Color.hex ⟨17, 170, 255, 255⟩) = some ⟨17, 170, 255, 255⟩ ∧
      ∃ written, Value.colorHex (.number (.truth true)) (.number (.int 0)) (.number (.int 16))
          (.number (.int 8)) = .ok written ∧ ofText? written = some ⟨1, 0, 16, 8⟩ := by
  obtain ⟨-, hforms, hback, hvalues⟩ := colors_in_base_sixteen
  have hshort : Shows "\u3000#1aF\n" ['1', 'a', 'F'] :=
    .of ['\u3000'] ['#'] ['\n'] (by decide) (by decide) (.inr rfl) (by decide)
  have hlong : Shows "11aaFF" ['1', '1', 'a', 'a', 'F', 'F'] :=
    .of [] [] [] (by decide) (by decide) (.inl rfl) (by decide)
  have hcased : Shows "11AAff" ['1', '1', 'A', 'A', 'f', 'f'] :=
    .of [] [] [] (by decide) (by decide) (.inl rfl) (by decide)
  have hsolid : Shows " 11AAffff" ['1', '1', 'A', 'A', 'f', 'f', 'f', 'f'] :=
    .of [' '] [] [] (by decide) (by decide) (.inl rfl) (by decide)
  have hcolor : ofText? "\u3000#1aF\n" = some ⟨17, 170, 255, 255⟩ := by decide
  obtain ⟨-, -, -, hdoubled, -⟩ := hforms _ _ _ hcolor hshort
  obtain ⟨-, -, hsame, -, -⟩ := hforms _ _ _ (hdoubled _ rfl hlong) hlong
  have hcolor' := hsame _ _ hcased (by decide)
  obtain ⟨-, -, -, -, hfull⟩ := hforms _ _ _ hcolor' hcased
  obtain ⟨written, hwritten, hread, -⟩ :=
    hvalues ⟨1, 0, 16, 8⟩ .unshared (.truth true) (.int 0) (.int 16) (.int 8)
      ⟨by decide, by decide, by decide, by decide⟩ ⟨rfl, rfl, rfl, rfl⟩
  exact ⟨hcolor, hcolor', hfull _ rfl hsolid, (hback _ _ hcolor).1, written, hwritten, hread⟩

end Style.Color

end MarkupSpans
