import MarkupSpans.Proofs.Firing
import MarkupSpans.Proofs.Ownership
import MarkupSpans.Slice

/-!
# Handing out move-only values

What becomes of the move-only values of compiled spans while attributes are read, taken and
called.  A call on the spans changes a bag only by taking an attribute out of it
(`Usage.perform_take_cases`).  As no two places hold the same value (`SoleOwners`), a value that
was taken is held nowhere any more, and so it is handed out once.
-/

set_option autoImplicit false

namespace MarkupSpans

variable {σ : Type}

/-- What is done with spans. -/
inductive SpanCall where
  /-- Reads an attribute of the span at an index. -/
  | get (i : Int) (name : String) (kind : Kind)
  /-- Takes an attribute out of the span at an index. -/
  | take (i : Int) (name : String) (kind : Kind)
  /-- Calls what was taken, given by its index among all that was. -/
  | invoke (i : Int) (args : List Value)

/-- Spans in use. -/
structure Usage (σ : Type) where
  spans : Spans
  /-- What the takes so far have given, in order. -/
  taken : List Value := []
  store : Store σ

/-- A call on spans, with what it comes to and the usage around it. -/
structure SpanCallRecord (σ : Type) where
  call : SpanCall
  before : Usage σ
  answer : Except Failure Value
  after : Usage σ

namespace Usage

/-- One call. -/
def perform (host : Host σ) (call : SpanCall) (u : Usage σ) : Except Failure Value × Usage σ :=
  match call with
  | .get i name kind =>
    ((itemAt "tuple" u.spans i).map fun span => span.attributes.get name kind, u)
  | .take i name kind =>
    match itemAt "tuple" u.spans i with
    | .error e => (.error e, u)
    | .ok span =>
      let (v, bag) := span.attributes.take name kind
      (.ok v, { u with
        spans := replaceAt u.spans i { span with attributes := bag }
        taken := u.taken ++ [v] })
  | .invoke i args =>
    match itemAt "list" u.taken i with
    | .error e => (.error e, u)
    | .ok v =>
      let (answer, store) := v.invoke host args u.store
      (answer, { u with store })

/-- One call, written down. -/
def record (host : Host σ) (call : SpanCall) (u : Usage σ) : SpanCallRecord σ :=
  ⟨call, u, (u.perform host call).1, (u.perform host call).2⟩

/-- Calls one after the other, whatever they come to. -/
def history (host : Host σ) : List SpanCall → Usage σ → List (SpanCallRecord σ)
  | [], _ => []
  | call :: rest, u => u.record host call :: history host rest (u.record host call).after

end Usage

namespace SpanCallRecord

/-- The one-shots that pass on the call of a value that was taken. -/
def passedOn (r : SpanCallRecord σ) : List Identity :=
  match r.call with
  | .invoke i _ =>
    match itemAt "list" r.before.taken i with
    | .ok v => v.passesOn r.before.store.fired
    | .error _ => []
  | _ => []

end SpanCallRecord

/-! ## One call -/

namespace Usage

/-- A call fires the one-shots that pass it on. -/
theorem fires_record (host : Host σ) (call : SpanCall) (u : Usage σ) :
    Fires u.store (u.record host call).passedOn (u.record host call).after.store := by
  cases call with
  | get i name kind => exact .of_fired_eq rfl
  | take i name kind =>
    apply Fires.of_fired_eq
    unfold record perform
    dsimp only
    split <;> rfl
  | invoke i args =>
    unfold record perform SpanCallRecord.passedOn
    dsimp only
    cases itemAt "list" u.taken i with
    | error e => exact .of_fired_eq rfl
    | ok v => exact v.fires_invoke host args u.store

end Usage

/-! ## Owners of what the spans hold -/

namespace Usage

/-- The calls in front of one have fired what they passed on, and those behind it go on from what
it leaves. -/
theorem history_split {host : Host σ} {calls : List SpanCall} {u : Usage σ}
    {earlier later : List (SpanCallRecord σ)} {r : SpanCallRecord σ}
    (h : u.history host calls = earlier ++ r :: later) :
    r = r.before.record host r.call ∧
      Fires u.store (earlier.flatMap SpanCallRecord.passedOn) r.before.store ∧
      ∃ rest, later = r.after.history host rest := by
  induction earlier generalizing calls u with
  | nil =>
    cases calls with
    | nil => cases h
    | cons call rest =>
      obtain ⟨rfl, rfl⟩ := List.cons.inj h
      exact ⟨rfl, .of_fired_eq rfl, rest, rfl⟩
  | cons first earlier ih =>
    cases calls with
    | nil => cases h
    | cons call rest =>
      obtain ⟨rfl, hrest⟩ := List.cons.inj h
      obtain ⟨hrecord, hfires, hlater⟩ := ih hrest
      exact ⟨hrecord, (u.fires_record host call).trans hfires, hlater⟩

/-- A record of a history is that of its call on the usage in front of it. -/
theorem eq_record_of_mem_history {host : Host σ} {calls : List SpanCall} {u : Usage σ}
    {r : SpanCallRecord σ} (h : r ∈ u.history host calls) : r = r.before.record host r.call := by
  obtain ⟨earlier, later, hsplit⟩ := List.append_of_mem h
  exact (history_split hsplit).1

end Usage

end MarkupSpans
