import OratoriaEngine.Identifiers
import OratoriaEngine.Lib.Rounding
import OratoriaEngine.Taxonomy

/-!
# Annotation records

One annotated disfluency of a recording, as an annotator made it: its class, its span in
milliseconds, and the role of its words where the class is decided from words.
-/

namespace OratoriaEngine.Corpus

/-- A span in milliseconds from the start of the recording; it has a duration. -/
structure Interval where
  startMs : ℤ
  endMs : ℤ
  nonneg : 0 ≤ startMs
  lt : startMs < endMs

namespace Interval

variable (i j : Interval)

def durationMs : ℤ := i.endMs - i.startMs

def intersectionMs : ℤ := max 0 (min i.endMs j.endMs - max i.startMs j.startMs)

def unionMs : ℤ := i.durationMs + j.durationMs - i.intersectionMs j

/-- Intersection over union, rounded as the quotient of two integers is. -/
def iou (ρ : Rounding ℚ) : ℚ := if i.unionMs j ≠ 0 then ρ (i.intersectionMs j / i.unionMs j) else 0

theorem intersectionMs_comm : i.intersectionMs j = j.intersectionMs i := by
  rw [intersectionMs, intersectionMs, min_comm, max_comm i.startMs]

theorem unionMs_comm : i.unionMs j = j.unionMs i := by
  rw [unionMs, unionMs, intersectionMs_comm, add_comm i.durationMs]

theorem iou_comm (ρ : Rounding ℚ) : i.iou j ρ = j.iou i ρ := by
  rw [iou, iou, unionMs_comm, intersectionMs_comm]

/-- Two spans cover some time together, so the quotient is always formed. -/
theorem unionMs_pos : 0 < i.unionMs j := by
  have hi := i.lt
  have hj := j.lt
  simp only [unionMs, durationMs, intersectionMs]
  omega

end Interval

def lexicalClasses : List SpeechEventType := [.lexicalFiller, .repetition, .falseStart, .selfRepair]

/-- The contextual role is given exactly for the classes decided from a word, with the word. -/
def RoleRules (eventType : SpeechEventType) (rawText : String)
    (contextRole : Option ContextualRole) : Prop :=
  if eventType ∈ lexicalClasses then isBlank rawText = false ∧ contextRole.isSome
  else contextRole = none

instance (eventType : SpeechEventType) (rawText : String) (contextRole : Option ContextualRole) :
    Decidable (RoleRules eventType rawText contextRole) :=
  inferInstanceAs (Decidable (if eventType ∈ lexicalClasses then
    isBlank rawText = false ∧ contextRole.isSome else contextRole = none))

structure DisfluencyAnnotation where
  eventType : SpeechEventType
  interval : Interval
  annotatorId : String
  rawText : String
  contextRole : Option ContextualRole
  annotatorConfidence : ℚ
  note : String
  named : isBlank annotatorId = false
  confident : 0 ≤ annotatorConfidence ∧ annotatorConfidence ≤ 1
  roles : RoleRules eventType rawText contextRole

end OratoriaEngine.Corpus
