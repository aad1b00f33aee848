import MarkupSpans.Proofs.Execution

/-!
# One-shots over a run

A one-shot passes its call on once at most, whatever its action comes to.  Which one-shots pass a
call on is told from those that have fired (`Value.passesOn`), and `Fires` says of any stretch of
a run that it adds just these to the fired ones, each once and none of those before.  A call is
such a stretch, and so are, one step after the other, the execution of a plan and a compilation.
-/

set_option autoImplicit false

namespace MarkupSpans

variable {σ : Type}

/-- The one-shots that pass a call on when a value is called, in order: a one-shot does unless it
has fired, and then its action is called. -/
def Value.passesOn (fired : List Identity) : Value → List Identity
  | .oneShot self action =>
    if fired.contains self then [] else self :: action.passesOn (self :: fired)
  | _ => []

/-- From one state to another some one-shots have passed on calls, each of them for the first
time. -/
structure Fires (store : Store σ) (passes : List Identity) (store' : Store σ) : Prop where
  fired_eq : store'.fired = passes.reverse ++ store.fired
  nodup : passes.Nodup
  fresh : ∀ self ∈ passes, self ∉ store.fired

namespace Fires

variable {first mid last : Store σ} {passes more : List Identity}

/-- Nothing was called. -/
theorem of_fired_eq (h : last.fired = first.fired) : Fires first [] last :=
  ⟨h, List.nodup_nil, fun _ hmem => absurd hmem List.not_mem_nil⟩

/-- What has fired in the end passed in between or had fired before. -/
theorem mem_fired_iff (h : Fires first passes last) (self : Identity) :
    self ∈ last.fired ↔ self ∈ passes ∨ self ∈ first.fired := by
  rw [h.fired_eq, List.mem_append, List.mem_reverse]

/-- Firings follow one another. -/
theorem trans (h : Fires first passes mid) (h' : Fires mid more last) :
    Fires first (passes ++ more) last where
  fired_eq := by
    rw [h'.fired_eq, h.fired_eq, List.reverse_append, List.append_assoc]
  nodup := by
    refine List.nodup_append.mpr ⟨h.nodup, h'.nodup, ?_⟩
    rintro self hmem _ hmore rfl
    exact h'.fresh self hmore ((h.mem_fired_iff self).mpr (.inl hmem))
  fresh := by
    intro self hmem hfired
    rcases List.mem_append.mp hmem with hmem | hmem
    · exact h.fresh self hmem hfired
    · exact h'.fresh self hmem ((h.mem_fired_iff self).mpr (.inr hfired))

end Fires

/-! ## One call -/

/-- A value that is no one-shot is called without a change to the fired one-shots. -/
theorem Value.fired_invoke {v : Value} (h : ∀ self action, v ≠ .oneShot self action)
    (host : Host σ) (args : List Value) (store : Store σ) :
    (v.invoke host args store).2.fired = store.fired := by
  cases v with
  | oneShot self action => exact absurd rfl (h self action)
  | function self name => rfl
  | maker m =>
    rw [Value.invoke]
    unfold Maker.make
    dsimp only
    split <;> rfl
  | hexOf owner r g b a => cases args <;> rfl
  | _ => rfl

/-- A one-shot that has fired refuses the call, and nothing changes. -/
theorem Value.invoke_of_fired (host : Host σ) (args : List Value) {self : Identity}
    (action : Value) {store : Store σ} (h : self ∈ store.fired) :
    (Value.oneShot self action).invoke host args store =
      (.error (.alreadyFired (action.shown store.fired)), store) := by
  rw [Value.invoke, if_pos (List.contains_iff_mem.mpr h)]

/-- A one-shot that has not fired is marked as fired, and then its action is called. -/
theorem Value.invoke_of_armed (host : Host σ) (args : List Value) {self : Identity}
    (action : Value) {store : Store σ} (h : self ∉ store.fired) :
    (Value.oneShot self action).invoke host args store =
      action.invoke host args { store with fired := self :: store.fired } := by
  rw [Value.invoke, if_neg (by simpa using h)]

/-- A call fires the one-shots that pass it on, each for the first time. -/
theorem Value.fires_invoke (host : Host σ) (args : List Value) (v : Value) (store : Store σ) :
    Fires store (v.passesOn store.fired) (v.invoke host args store).2 := by
  generalize hfired : store.fired = fired
  fun_induction Value.passesOn fired v generalizing store with
  | case1 fired self action hmem =>
    rw [List.contains_iff_mem, ← hfired] at hmem
    rw [Value.invoke_of_fired host args action hmem]
    exact .of_fired_eq rfl
  | case2 fired self action hmem ih =>
    rw [List.contains_iff_mem, ← hfired] at hmem
    rw [Value.invoke_of_armed host args action hmem]
    have hmarked : Fires store [self] { store with fired := self :: store.fired } := by
      refine ⟨rfl, by simp, ?_⟩
      intro other hother
      rw [List.mem_singleton.mp hother]
      exact hmem
    exact hmarked.trans (ih _ (congrArg (self :: ·) hfired))
  | case3 fired v hv => exact .of_fired_eq (Value.fired_invoke hv host args store)

/-! ## Plans -/

/-- The one-shots that pass on the call of a step. -/
def Event.passedOn (event : Event σ) : List Identity :=
  match event.called? with
  | none => []
  | some (callee, _) => callee.passesOn event.before.store.fired

end MarkupSpans
