import Mathlib.Data.List.Induction
import Mathlib.Logic.ExistsUnique
import MarkupSpans.Bag

/-!
# What becomes of the values in a bag

Calls that set, read and take attributes, one after the other.  A call puts at most one value in
and lets at most one out (`BagRecord.putIn`, `removed`, `overwritten`), and what is put in is what
is let out together with what is held then (`held_record`).  A name comes in where it is set
while it is absent, behind the names there are; nothing else moves a name (`names_perform`).

A reader may ask for a value by any test, of which the kinds are some.
-/

set_option autoImplicit false

namespace MarkupSpans

namespace Bag

/-- The value of an attribute, if it passes a test and is not move-only. -/
def getIf (bag : Bag) (name : String) (wanted : Value → Bool) : Value :=
  match bag.values.get? name with
  | none => .nothing
  | some v => if wanted v && !v.isMoveOnly then v else .nothing

/-- Takes an attribute out of the bag, if its value passes a test. -/
def takeIf (bag : Bag) (name : String) (wanted : Value → Bool) : Value × Bag :=
  match bag.values.get? name with
  | none => (.nothing, bag)
  | some v => if wanted v then (v, ⟨bag.values.erase name⟩) else (.nothing, bag)

/-- The names that a loop over the bag comes across. -/
def visited (bag : Bag) : List String := Id.run do
  let mut row := #[]
  for name in bag do
    row := row.push name
  return row.toList

/-- What the views of a bag say about its names. -/
structure Consistent (bag : Bag) : Prop where
  nodup_names : bag.names.Nodup
  visited_eq : bag.visited = bag.names
  size_eq : bag.size = bag.names.length
  contains_iff (name : String) : bag.contains name = true ↔ name ∈ bag.names
  get?_isSome_iff (name : String) : (bag.values.get? name).isSome ↔ name ∈ bag.names

end Bag

/-- What is done with a bag. -/
inductive BagCall where
  | set (name : String) (v : Value)
  /-- Reads an attribute whose value passes a test. -/
  | get (name : String) (wanted : Value → Bool)
  /-- Takes an attribute whose value passes a test. -/
  | take (name : String) (wanted : Value → Bool)

namespace BagCall

/-- What a call answers, and the bag after it. -/
def perform : BagCall → Bag → Value × Bag
  | .set name v, bag => (.nothing, bag.set name v)
  | .get name wanted, bag => (bag.getIf name wanted, bag)
  | .take name wanted, bag => bag.takeIf name wanted

/-- The bag after some calls. -/
def run (calls : List BagCall) (bag : Bag) : Bag :=
  calls.foldl (fun state call => (call.perform state).2) bag

end BagCall

/-- A call on a bag, with what it answers and the bag around it. -/
structure BagRecord where
  call : BagCall
  before : Bag
  answer : Value
  after : Bag

/-- A call, written down. -/
def BagCall.record (call : BagCall) (bag : Bag) : BagRecord :=
  ⟨call, bag, (call.perform bag).1, (call.perform bag).2⟩

/-- Calls one after the other, written down. -/
def BagCall.history : List BagCall → Bag → List BagRecord
  | [], _ => []
  | call :: rest, bag => call.record bag :: history rest (call.record bag).after

namespace BagRecord

/-- The value that a call puts in. -/
def putIn (r : BagRecord) : List Value :=
  match r.call with
  | .set _ v => [v]
  | _ => []

/-- The value that a take removes: what it answers, where its name has gone. -/
def removed (r : BagRecord) : List Value :=
  match r.call with
  | .take name _ => if name ∈ r.before.names ∧ name ∉ r.after.names then [r.answer] else []
  | _ => []

/-- The value that is overwritten where the name that is set has one. -/
def overwritten (r : BagRecord) : List Value :=
  match r.call with
  | .set name _ => (r.before.values.get? name).toList
  | _ => []

/-- A name and its value are before and after a call the same. -/
def Keeps (r : BagRecord) (name : String) : Prop :=
  r.after.values.get? name = r.before.values.get? name

/-- What a call does: one that sets a name changes that name only, one that takes a value takes
its name out, and all others leave the bag as it is. -/
structure Lawful (r : BagRecord) : Prop where
  of_set (name : String) (v : Value) : r.call = .set name v →
    r.after.values.get? name = some v ∧ (∀ other, other ≠ name → r.Keeps other) ∧
      r.after.names = if name ∈ r.before.names then r.before.names else r.before.names ++ [name]
  of_get (name : String) (wanted : Value → Bool) : r.call = .get name wanted → r.after = r.before
  of_take (name : String) (wanted : Value → Bool) (v : Value) : r.call = .take name wanted →
    r.before.values.get? name = some v → wanted v = true →
      r.answer = v ∧ (∀ other, other ≠ name → r.Keeps other) ∧
        r.after.names = r.before.names.filter (· != name)
  of_miss (name : String) (wanted : Value → Bool) : r.call = .take name wanted →
    (∀ v, r.before.values.get? name = some v → wanted v = false) →
      r.answer = .nothing ∧ r.after = r.before

end BagRecord

/-- A name came in with the last of the first `k` calls and has been there since; `k` is zero for
a name that has always been there. -/
structure ArrivedAt (bag : Bag) (calls : List BagCall) (name : String) (k : Nat) : Prop where
  le : k ≤ calls.length
  since (j : Nat) : k ≤ j → j ≤ calls.length → name ∈ (BagCall.run (calls.take j) bag).names
  fresh (j : Nat) : k = j + 1 → name ∉ (BagCall.run (calls.take j) bag).names

/-! ## One call -/

namespace Bag

/-- Asking for a kind is asking for the values that are of this kind. -/
theorem get_eq_getIf (bag : Bag) (name : String) (kind : Kind) :
    bag.get name kind = bag.getIf name (Value.isOf kind) := rfl

/-- Taking a kind is taking the values that are of this kind. -/
theorem take_eq_takeIf (bag : Bag) (name : String) (kind : Kind) :
    bag.take name kind = bag.takeIf name (Value.isOf kind) := rfl

/-- A value that is there and wanted is taken out. -/
theorem takeIf_of_get?_eq_some {bag : Bag} {name : String} {wanted : Value → Bool} {v : Value}
    (h : bag.values.get? name = some v) (hwanted : wanted v = true) :
    bag.takeIf name wanted = (v, ⟨bag.values.erase name⟩) := by
  rw [takeIf, h]
  exact if_pos hwanted

/-- Where no wanted value is there, nothing is taken and the bag stays as it is. -/
theorem takeIf_of_miss {bag : Bag} {name : String} {wanted : Value → Bool}
    (h : ∀ v, bag.values.get? name = some v → wanted v = false) :
    bag.takeIf name wanted = (.nothing, bag) := by
  rw [takeIf]
  split
  case h_1 => rfl
  case h_2 v hv => rw [h v hv, if_neg Bool.false_ne_true]

/-- A take finds a value that passes its test, or it misses. -/
theorem finds_or_misses (bag : Bag) (name : String) (wanted : Value → Bool) :
    (∃ v, bag.values.get? name = some v ∧ wanted v = true) ∨
      ∀ v, bag.values.get? name = some v → wanted v = false := by
  by_cases h : ∃ v, bag.values.get? name = some v ∧ wanted v = true
  · exact .inl h
  · exact .inr fun v hv => eq_false_of_ne_true fun hwanted => h ⟨v, hv, hwanted⟩

/-- A name with a value is one of the names. -/
theorem mem_names_of_get?_eq_some {bag : Bag} {name : String} {v : Value}
    (h : bag.values.get? name = some v) : name ∈ bag.names := by
  refine Decidable.byContradiction fun hmem => ?_
  rw [(bag.values.get?_eq_none_iff name).mpr hmem] at h
  cases h

/-- The views of every bag agree with each other. -/
theorem consistent (bag : Bag) : bag.Consistent where
  nodup_names := bag.values.nodup_names
  visited_eq := by
    have h : bag.visited = Array.toList (Id.run
      (forIn bag.names #[] fun name row => pure (.yield (row.push name)))) := rfl
    simp [h]
  size_eq := (List.length_map _).symm
  contains_iff name := List.contains_iff_mem
  get?_isSome_iff name := by
    have h := bag.values.get?_eq_none_iff name
    rw [← Option.isNone_iff_eq_none] at h
    rw [← Option.not_isNone, Bool.not_eq_true', Bool.eq_false_iff, ne_eq, h]
    exact Decidable.not_not

end Bag

namespace BagCall

/-- Every call does what its sort of call does. -/
theorem lawful_record (call : BagCall) (bag : Bag) : (call.record bag).Lawful where
  of_set name v hcall := by
    change call = .set name v at hcall
    subst hcall
    refine ⟨?_, fun other hother => ?_, bag.values.names_insert name v⟩
    · exact (bag.values.get?_insert name name v).trans (if_pos rfl)
    · exact (bag.values.get?_insert name other v).trans (if_neg hother)
  of_get name wanted hcall := by
    change call = .get name wanted at hcall
    subst hcall
    rfl
  of_take name wanted v hcall hv hwanted := by
    change call = .take name wanted at hcall
    subst hcall
    have htake : (BagCall.take name wanted).perform bag = (v, ⟨bag.values.erase name⟩) :=
      Bag.takeIf_of_get?_eq_some hv hwanted
    refine ⟨congrArg Prod.fst htake, fun other hother => ?_, ?_⟩
    · change (((BagCall.take name wanted).perform bag).2).values.get? other = _
      rw [htake]
      exact (bag.values.get?_erase name other).trans (if_neg hother)
    · change (((BagCall.take name wanted).perform bag).2).names = _
      rw [htake]
      exact bag.values.names_erase name
  of_miss name wanted hcall hmiss := by
    change call = .take name wanted at hcall
    subst hcall
    have htake : (BagCall.take name wanted).perform bag = (.nothing, bag) :=
      Bag.takeIf_of_miss hmiss
    exact ⟨congrArg Prod.fst htake, congrArg Prod.snd htake⟩

/-- What a call puts in, and what the bag held before, is what the call lets out together with
what the bag holds then. -/
theorem held_record (call : BagCall) (bag : Bag) :
    let r := call.record bag
    (bag.values.held ++ r.putIn).Perm (r.removed ++ r.overwritten ++ r.after.values.held) := by
  intro r
  cases call with
  | set name v => exact bag.values.held_insert_perm name v
  | get name wanted => exact .of_eq (List.append_nil _)
  | take name wanted =>
    rcases bag.finds_or_misses name wanted with ⟨v, hv, hwanted⟩ | hmiss
    · obtain ⟨hanswer, -, hnames⟩ :=
        ((take name wanted).lawful_record bag).of_take name wanted v rfl hv hwanted
      have hgone : name ∉ r.after.names := by
        rw [hnames, List.mem_filter]
        simp
      have hremoved : r.removed = [v] := by
        rw [← hanswer]
        exact if_pos ⟨Bag.mem_names_of_get?_eq_some hv, hgone⟩
      have hafter : r.after = ⟨bag.values.erase name⟩ :=
        congrArg Prod.snd (Bag.takeIf_of_get?_eq_some hv hwanted)
      rw [hremoved, hafter]
      exact (.trans (.of_eq (List.append_nil _)) (bag.values.held_erase_perm hv))
    · obtain ⟨-, hafter⟩ := ((take name wanted).lawful_record bag).of_miss name wanted rfl hmiss
      have hremoved : r.removed = [] := by
        refine if_neg ?_
        rintro ⟨hbefore, hgone⟩
        exact hgone (hafter ▸ hbefore)
      rw [hremoved, hafter]
      exact .of_eq (List.append_nil _)

/-- The names after a call are some of those before, or a name that was absent is set and comes
last. -/
theorem names_perform (call : BagCall) (bag : Bag) :
    (call.perform bag).2.names.Sublist bag.names ∨
      ∃ name v, call = .set name v ∧ name ∉ bag.names ∧
        (call.perform bag).2.names = bag.names ++ [name] := by
  have hlawful := call.lawful_record bag
  cases call with
  | set name v =>
    obtain ⟨-, -, hnames⟩ := hlawful.of_set name v rfl
    change ((set name v).perform bag).2.names = _ at hnames
    by_cases hmem : name ∈ bag.names
    · left
      rw [hnames]
      exact if_pos hmem ▸ .refl _
    · exact .inr ⟨name, v, rfl, hmem, hnames.trans (if_neg hmem)⟩
  | get name wanted => exact .inl (.refl _)
  | take name wanted =>
    refine .inl ?_
    rcases bag.finds_or_misses name wanted with ⟨v, hv, hwanted⟩ | hmiss
    · obtain ⟨-, -, hnames⟩ := hlawful.of_take name wanted v rfl hv hwanted
      exact hnames ▸ List.filter_sublist
    · obtain ⟨-, hafter⟩ := hlawful.of_miss name wanted rfl hmiss
      exact congrArg Bag.names hafter ▸ .refl _

/-! ## Calls one after the other -/

/-- One call more is performed on what the others have left. -/
theorem run_concat (calls : List BagCall) (call : BagCall) (bag : Bag) :
    run (calls ++ [call]) bag = (call.perform (run calls bag)).2 :=
  List.foldl_append

/-- Every call of a history keeps to the laws of its sort. -/
theorem lawful_history (calls : List BagCall) (bag : Bag) :
    ∀ r ∈ history calls bag, r.Lawful := by
  induction calls generalizing bag with
  | nil => exact fun r hr => absurd hr List.not_mem_nil
  | cons call rest ih =>
    intro r hr
    rcases List.mem_cons.mp hr with rfl | hrest
    · exact call.lawful_record bag
    · exact ih _ r hrest

/-- What all calls put in, and what the bag held before, is what the calls let out together with
what the bag holds in the end. -/
theorem held_run (calls : List BagCall) (bag : Bag) :
    (bag.values.held ++ (history calls bag).flatMap BagRecord.putIn).Perm
      ((history calls bag).flatMap BagRecord.removed ++
        (history calls bag).flatMap BagRecord.overwritten ++ (run calls bag).values.held) := by
  induction calls generalizing bag with
  | nil => exact .of_eq (List.append_nil _)
  | cons call rest ih =>
    let r := call.record bag
    let later := history rest r.after
    let last := run rest r.after
    have hstep : (bag.values.held ++ r.putIn).Perm
        (r.removed ++ r.overwritten ++ r.after.values.held) := held_record call bag
    have hlater : (r.after.values.held ++ later.flatMap BagRecord.putIn).Perm
        (later.flatMap BagRecord.removed ++ later.flatMap BagRecord.overwritten ++
          last.values.held) := ih r.after
    change (bag.values.held ++ (r.putIn ++ later.flatMap BagRecord.putIn)).Perm
      (r.removed ++ later.flatMap BagRecord.removed ++
        (r.overwritten ++ later.flatMap BagRecord.overwritten) ++ last.values.held)
    have hfirst := hstep.append_right (later.flatMap BagRecord.putIn)
    have hrest := hlater.append_left (r.removed ++ r.overwritten)
    simp only [List.append_assoc] at hfirst hrest ⊢
    exact (hfirst.trans hrest).trans (.append_left _ (List.perm_append_comm_assoc ..))

end BagCall

/-! ## When a name came in -/

namespace ArrivedAt

variable {bag : Bag} {calls : List BagCall} {call : BagCall} {name other : String} {i j k : Nat}

/-- A name that has arrived is there. -/
theorem mem_names (h : ArrivedAt bag calls name k) : name ∈ (BagCall.run calls bag).names := by
  have hmem := h.since calls.length h.le (Nat.le_refl _)
  rwa [List.take_length] at hmem

/-- A name that is still there after one more call came in when it did before. -/
theorem concat (h : ArrivedAt bag calls name k)
    (hmem : name ∈ (BagCall.run (calls ++ [call]) bag).names) :
    ArrivedAt bag (calls ++ [call]) name k where
  le := by
    have hle := h.le
    rw [List.length_append]
    omega
  since j hkj hj := by
    rcases Nat.lt_or_ge calls.length j with hlast | hle
    · rwa [List.take_of_length_le (by rw [List.length_append]; exact hlast)]
    · rw [List.take_append_of_le_length hle]
      exact h.since j hkj hle
  fresh j hj := by
    have hle := h.le
    rw [List.take_append_of_le_length (by omega)]
    exact h.fresh j hj

/-- A name came in before the last call, or with it. -/
theorem of_concat (h : ArrivedAt bag (calls ++ [call]) name k) :
    ArrivedAt bag calls name k ∨
      k = calls.length + 1 ∧ name ∉ (BagCall.run calls bag).names := by
  have hlength : (calls ++ [call]).length = calls.length + 1 := List.length_append
  have hle := h.le
  by_cases hk : k = calls.length + 1
  · refine .inr ⟨hk, ?_⟩
    have hfresh := h.fresh calls.length hk
    rwa [List.take_left] at hfresh
  · refine .inl ⟨by omega, fun j hkj hj => ?_, fun j hj => ?_⟩
    · have hmem := h.since j hkj (by omega)
      rwa [List.take_append_of_le_length hj] at hmem
    · have hfresh := h.fresh j hj
      rwa [List.take_append_of_le_length (by omega)] at hfresh

/-- Of two calls that a name arrived with, neither is later than the other. -/
theorem le_of_arrivedAt (hi : ArrivedAt bag calls name i) (hj : ArrivedAt bag calls name j) :
    i ≤ j := by
  -- a name that came in at `i` was absent just before, although it is there from `j` on
  refine Nat.le_of_not_lt fun hlt => ?_
  have hle := hi.le
  exact hi.fresh (i - 1) (by omega) (hj.since (i - 1) (by omega) (by omega))

/-- A name has arrived with one call only. -/
theorem unique (hi : ArrivedAt bag calls name i) (hj : ArrivedAt bag calls name j) : i = j :=
  Nat.le_antisymm (hi.le_of_arrivedAt hj) (hj.le_of_arrivedAt hi)

/-- Every name that is there has come in. -/
theorem exists_of_mem (h : name ∈ (BagCall.run calls bag).names) :
    ∃ k, ArrivedAt bag calls name k := by
  induction calls using List.reverseRecOn with
  | nil =>
    refine ⟨0, Nat.le_refl 0, fun j _ hj => ?_, fun j hj => absurd hj (by omega)⟩
    rwa [List.take_nil]
  | append_singleton calls call ih =>
    by_cases hbefore : name ∈ (BagCall.run calls bag).names
    · obtain ⟨k, hk⟩ := ih hbefore
      exact ⟨k, hk.concat h⟩
    · have hlength : (calls ++ [call]).length = calls.length + 1 := List.length_append
      refine ⟨calls.length + 1, Nat.le_of_eq hlength.symm, fun j hkj hj => ?_, fun j hj => ?_⟩
      · rwa [List.take_of_length_le (by omega)]
      · obtain rfl : calls.length = j := by omega
        rwa [List.take_left]

/-- A name comes in where it is set. -/
theorem exists_set (h : ArrivedAt bag calls name (k + 1)) :
    ∃ v, calls[k]? = some (.set name v) := by
  have hle := h.le
  have hcall : calls.take (k + 1) = calls.take k ++ [calls[k]] :=
    (List.take_append_getElem (by omega)).symm
  have hbefore := h.fresh k rfl
  have hafter := h.since (k + 1) (Nat.le_refl _) hle
  rw [hcall, BagCall.run_concat] at hafter
  rcases BagCall.names_perform calls[k] (BagCall.run (calls.take k) bag) with
    hsub | ⟨other, v, hset, -, hnames⟩
  · exact absurd (hsub.subset hafter) hbefore
  · rw [hnames, List.mem_append, List.mem_singleton] at hafter
    obtain rfl := hafter.resolve_left hbefore
    exact ⟨v, (List.getElem?_eq_getElem (by omega)).trans (congrArg some hset)⟩

end ArrivedAt

/-- Of two names one came in before the other, or both have always been there in this order. -/
def CameInBefore (bag : Bag) (calls : List BagCall) (name other : String) : Prop :=
  ∀ i j, ArrivedAt bag calls name i → ArrivedAt bag calls other j →
    i < j ∨ i = 0 ∧ j = 0 ∧ [name, other].Sublist bag.names

/-- The names stand in the order in which they came in. -/
theorem pairwise_cameInBefore (bag : Bag) (calls : List BagCall) :
    (BagCall.run calls bag).names.Pairwise (CameInBefore bag calls) := by
  induction calls using List.reverseRecOn with
  | nil =>
    change bag.names.Pairwise _
    refine List.pairwise_iff_forall_sublist.mpr fun {name other} hsub i j hi hj => .inr ?_
    exact ⟨Nat.le_zero.mp hi.le, Nat.le_zero.mp hj.le, hsub⟩
  | append_singleton calls call ih =>
    -- names that were there before the last call came in when they did
    have hkept : ∀ {name other}, name ∈ (BagCall.run calls bag).names →
        other ∈ (BagCall.run calls bag).names → CameInBefore bag calls name other →
        CameInBefore bag (calls ++ [call]) name other := by
      intro name other hname hother h i j hi hj
      exact h i j (hi.of_concat.resolve_right fun hnew => hnew.2 hname)
        (hj.of_concat.resolve_right fun hnew => hnew.2 hother)
    have hbefore := List.Pairwise.imp_of_mem hkept ih
    rw [BagCall.run_concat]
    rcases BagCall.names_perform call (BagCall.run calls bag) with
      hsub | ⟨new, v, -, hnew, hnames⟩
    · exact hbefore.sublist hsub
    · rw [hnames, List.pairwise_append]
      refine ⟨hbefore, List.pairwise_singleton _ _, ?_⟩
      intro name hname other hother i j hi hj
      left
      obtain rfl := List.mem_singleton.mp hother
      have hi' := (hi.of_concat.resolve_right fun h => h.2 hname).le
      rcases hj.of_concat with hj' | ⟨hj', -⟩
      · exact absurd hj'.mem_names hnew
      · omega

/-- A name that is overwritten keeps its place, and one that was taken comes back behind. -/
example : (BagCall.run [.set "x" .nothing, .set "y" .nothing, .set "x" (.text "a"),
    .take "x" (Value.isOf .text), .set "x" .nothing] {}).names = ["y", "x"] := by decide

/-! ## All runs -/

/-- A bag neither loses values nor doubles them, and it lists its names in the order in which they
came in.

Over any calls, the values that are ever put in are those that takes remove, those that are
overwritten and those that are held in the end.  Reading changes nothing, nor does a take that
finds no value of the kind that is asked for; a take that finds one, and a call that sets a name,
leave all other names alone.  In every state the views agree.  A name that is there came in at
one call, which set it, or has always been there, and the names stand in that order. -/
theorem values_in_bags :
    (∀ (bag : Bag) (name : String) (kind : Kind),
      bag.get name kind = bag.getIf name (Value.isOf kind) ∧
        bag.take name kind = bag.takeIf name (Value.isOf kind)) ∧
    ∀ (bag : Bag) (calls : List BagCall),
      let history := BagCall.history calls bag
      let last := BagCall.run calls bag
      (bag.values.held ++ history.flatMap BagRecord.putIn).Perm
          (history.flatMap BagRecord.removed ++ history.flatMap BagRecord.overwritten ++
            last.values.held) ∧
      (∀ r ∈ history, r.Lawful) ∧
      (∀ k, (BagCall.run (calls.take k) bag).Consistent) ∧
      (∀ name ∈ last.names, ∃! k, ArrivedAt bag calls name k) ∧
      (∀ name k, ArrivedAt bag calls name (k + 1) → ∃ v, calls[k]? = some (.set name v)) ∧
      last.names.Pairwise (CameInBefore bag calls) := by
  refine ⟨fun bag name kind => ⟨bag.get_eq_getIf name kind, bag.take_eq_takeIf name kind⟩,
    fun bag calls => ?_⟩
  have harrived : ∀ name ∈ (BagCall.run calls bag).names, ∃! k, ArrivedAt bag calls name k := by
    intro name hname
    obtain ⟨k, hk⟩ := ArrivedAt.exists_of_mem hname
    exact ⟨k, hk, fun other hother => hother.unique hk⟩
  exact ⟨BagCall.held_run calls bag, BagCall.lawful_history calls bag, fun k => Bag.consistent _,
    harrived, fun name k h => h.exists_set, pairwise_cameInBefore bag calls⟩

end MarkupSpans
