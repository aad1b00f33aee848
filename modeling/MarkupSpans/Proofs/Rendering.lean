import MarkupSpans.Proofs.JsonReading

/-!
# Reports that look the same

What can be told from the form that a report is printed in.  In JSON a report is a message, which
can be read back from its line (`Message.decode_written`), so that two messages are alike only if
they were told alike (`Message.written_eq_iff`).  On a console the colours tell the categories
apart.  In plain text nothing but the heading shows the category, and the heading of a report with a
place does not (`render_fatal_eq_warning_iff`).

The texts of messages are rows of code points.  A message that holds both halves of a pair of
surrogates in a row is the only one that is not read back as it was: its line is that of the message
which has the character in their place.
-/

set_option autoImplicit false

namespace MarkupSpans.Report

open Text

/-! ## Messages -/

/-- What a line of JSON tells. -/
structure Message where
  category : String
  text : CodeText
  /-- The place; no place is null. -/
  place : Json.Scalar
  deriving DecidableEq

namespace Message

/-- The line of a message. -/
def written (m : Message) : String := jsonReport m.category m.text m.place.written

/-- The names and values that a message consists of. -/
def fields (m : Message) : List (CodeText × Json.Scalar) :=
  [(.ofString "lineNum", m.place), (.ofString "messageType", .text (.ofString m.category)),
    (.ofString "text", .text m.text)]

/-- A message in which halves of pairs of surrogates are joined. -/
def joined (m : Message) : Message := ⟨m.category, m.text.joinPairs, m.place.joined⟩

/-- A message without two halves of a pair in a row. -/
def Whole (m : Message) : Prop :=
  m.text.Whole ∧ ∀ place, m.place = .text place → place.Whole

/-- A message is written as an object of three values. -/
theorem written_eq_object (m : Message) : m.written = Json.object
    ([("lineNum", m.place), ("messageType", .text (.ofString m.category)),
      ("text", .text m.text)].map fun field => (field.1, field.2.written)) := rfl

/-- A message is read back with its halves joined. -/
theorem decode_written (m : Message) : Json.decode m.written = some m.joined.fields := by
  rw [written_eq_object, Json.decode_object]
  simp [Json.readBack, fields, joined, Json.Scalar.joined, CodeText.joinPairs_ofString]

/-- A message can be told from its names and values. -/
theorem fields_inj {m m' : Message} (h : m.fields = m'.fields) : m = m' := by
  obtain ⟨category, text, place⟩ := m
  obtain ⟨category', text', place'⟩ := m'
  simp only [fields, List.cons.injEq, Prod.mk.injEq, true_and, and_true,
    Json.Scalar.text.injEq, CodeText.ofString_inj] at h
  obtain ⟨rfl, rfl, rfl⟩ := h
  rfl

/-- Joining halves does not change the line of a message. -/
theorem written_joined (m : Message) : m.joined.written = m.written := by
  rw [written, written, joined, Json.Scalar.written_joined, jsonReport, jsonReport,
    Json.string_joinPairs]

/-- Two messages have one line exactly if they are alike with their halves joined. -/
theorem written_eq_iff (m m' : Message) : m.written = m'.written ↔ m.joined = m'.joined := by
  constructor
  · intro h
    have hdecode := m.decode_written
    rw [h, decode_written, Option.some.injEq] at hdecode
    exact (fields_inj hdecode).symm
  · intro h
    rw [← m.written_joined, h, written_joined]

end Message

/-- A place as a value of JSON. -/
def LineRef.scalar : LineRef → Json.Scalar
  | .text place => .text (.ofString place)
  | .number n => .number n

/-- In JSON a report is printed as the line of a message. -/
theorem render_json (category text : String) (line : Option LineRef) :
    render .json category text line = .single (Message.written
      ⟨category, .ofString text, (line.map LineRef.scalar).getD .null⟩) := by
  rw [render, if_pos rfl]
  cases line with
  | none => rfl
  | some ref => cases ref <;> rfl

/-! ## Two categories -/

/-- A failure and a warning look the same only in plain text, and only if both have a place. -/
theorem render_fatal_eq_warning_iff (mode : PrintMode) (text text' : String)
    (line line' : Option LineRef) :
    render mode "fatal" text line = render mode "warning" text' line' ↔
      mode = .plain ∧ ∃ ref ref', line = some ref ∧ line' = some ref' ∧
        ref.plain ++ ": " ++ text = ref'.plain ++ ": " ++ text' := by
  have hfatal : ¬ "fatal" = "failure" := by decide
  have hwarning : ¬ "warning" = "failure" := by decide
  have hcategories : ¬ "warning" = "fatal" := by decide
  cases mode with
  | json =>
    simp only [reduceCtorEq, false_and, iff_false]
    intro h
    rw [render_json, render_json, Rendered.single.injEq, Message.written_eq_iff] at h
    have hcategory : "fatal" = "warning" := congrArg Message.category h
    exact absurd hcategory (by decide)
  | console =>
    simp only [reduceCtorEq, false_and, iff_false]
    intro h
    have hred : ";".intercalate ([boldCode, redCode].map decimalOfNat) = "1;31" := by decide
    have hcyan : ";".intercalate ([boldCode, lightCyanCode].map decimalOfNat) = "1;96" := by
      decide
    simp only [render, highlight, withCodes, reduceCtorEq, if_false, if_true, hfatal, hwarning,
      hcategories, hred, hcyan, Rendered.single.injEq] at h
    have hlist := congrArg String.toList h
    simp at hlist
  | plain =>
    simp only [render, highlight, reduceCtorEq, if_false, hfatal, hwarning,
      Rendered.single.injEq, true_and]
    cases line with
    | none =>
      simp only [reduceCtorEq, false_and, exists_false, iff_false]
      intro h
      have hlist := congrArg String.toList h
      cases line' <;> simp [heading] at hlist
    | some ref =>
      cases line' with
      | none =>
        simp only [reduceCtorEq, false_and, and_false, exists_false, iff_false]
        intro h
        have hlist := congrArg String.toList h
        simp [heading] at hlist
      | some ref' => simp [heading, String.append_assoc]

end MarkupSpans.Report
