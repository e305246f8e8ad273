import Mathlib.Data.Rat.Floor
import OratoriaEngine.Corpus.Recording
import OratoriaEngine.Corpus.Measures
import OratoriaEngine.Lib.Grouping
import OratoriaEngine.Lib.Spans

/-!
# Validating one annotator's work

What is well-formed and wrong: the findings of the six checks, and their grades. Overlaps are
looked for among neighbours only; sorted by time, that misses none. Texts are compared without
case, by the `lower` of the language.
-/

namespace OratoriaEngine.Corpus

open Spans

inductive Severity
  | error
  | warning
  | info
  deriving DecidableEq

/-- One thing worth telling the annotator, with where to look. -/
structure Finding where
  severity : Severity
  code : String
  message : String
  atMs : Option ℤ

structure ValidationReport where
  recordingId : String
  annotatorId : String
  findings : List Finding

def ValidationReport.errors (r : ValidationReport) : List Finding :=
  r.findings.filter fun f => f.severity = .error

/-- Whether the file may enter the agreement computation. -/
def ValidationReport.isUsable (r : ValidationReport) : Bool := r.errors.isEmpty

/-- The order of the keys `(start, end)`. -/
def Interval.timeLe (i j : Interval) : Prop :=
  i.startMs < j.startMs ∨ i.startMs = j.startMs ∧ i.endMs ≤ j.endMs

instance : DecidableRel Interval.timeLe := fun _ _ => inferInstanceAs (Decidable (_ ∨ _))

def sortedByTime {α : Type} (interval : α → Interval) (l : List α) : List α :=
  l.insertionSort fun a b => (interval a).timeLe (interval b)

def overlapFindings {α : Type} (interval : α → Interval) (finding : α → α → Finding)
    (l : List α) : List Finding :=
  (neighbours (sortedByTime interval l)).filterMap fun (earlier, later) =>
    if (interval earlier).overlaps (interval later) then some (finding earlier later) else none

def sameClassOverlaps (disfluencies : List DisfluencyAnnotation) : List Finding :=
  (Dict.groupBy (fun a => a.eventType.value) disfluencies).entries.flatMap fun (className, group) =>
    overlapFindings (·.interval) (fun earlier later =>
      { severity := .error
        code := "overlapping_same_class"
        message := s!"two '{className}' annotations overlap " ++
          s!"([{earlier.interval.startMs}, {earlier.interval.endMs}) and " ++
          s!"[{later.interval.startMs}, {later.interval.endMs})); " ++
          "one of them is probably a mis-drag"
        atMs := some later.interval.startMs }) group

def wordOrdering (words : List Word) : List Finding :=
  overlapFindings (·.interval) (fun earlier later =>
    { severity := .warning
      code := "overlapping_words"
      message := s!"'{earlier.text}' and '{later.text}' overlap in time; a single speaker " ++
        "does not say two words at once"
      atMs := some later.interval.startMs }) words

def showTexts (texts : List String) : String :=
  "[" ++ ", ".intercalate (texts.map fun text => s!"'{text}'") ++ "]"

def percent (ratio : ℚ) : String :=
  let whole := ⌊100 * ratio⌋
  let rest := 100 * ratio - whole
  let rounded := if rest < 1 / 2 ∨ rest = 1 / 2 ∧ whole % 2 = 0 then whole else whole + 1
  s!"{rounded}%"

/-- Characters that do not belong in a verbatim transcription of speech. -/
def orthographicMarks : List Char :=
  [',', '.', ';', ':', '¿', '?', '¡', '!', '"', '“', '”']

def orthography (words : List Word) : List Finding :=
  words.filterMap fun word =>
    let marks := sortedSet ((orthographicMarks.filter fun mark =>
      word.text.toList.contains mark).map String.singleton)
    if marks ≠ [] then
      some
        { severity := .warning
          code := "orthographic_marks"
          message := s!"'{word.text}' contains {showTexts marks}; the words tier is verbatim " ++
            "speech, and punctuation is not a sound"
          atMs := some word.interval.startMs }
    else none

def unattestedExpressions (lower : String → String) (recording : AnnotatedRecording) :
    List Finding :=
  recording.disfluencies.filterMap fun item =>
    if item.eventType ∉ lexicalClasses ∨ isBlank item.rawText then none
    else
      let spoken := (recording.words.filter fun word =>
        word.interval.overlaps item.interval).map fun word => stripText (lower word.text)
      let quoted := (splitWords item.rawText.toList).map fun token =>
        lower (String.ofList token)
      let missing := sortedSet (quoted.filter fun token => token ∉ spoken)
      if missing ≠ [] ∧ spoken ≠ [] then
        some
          { severity := .warning
            code := "unattested_expression"
            message := s!"'{item.rawText}' quotes {showTexts missing}, which the words " ++
              "tier does not contain here; check it is not a tidied form"
            atMs := some item.interval.startMs }
      else none

def lowCoverageRatio : ℚ := 1 / 5

def coverage (recording : AnnotatedRecording) : List Finding :=
  let covered := (recording.words.map fun word => word.interval.durationMs).sum
  let ratio : ℚ := if recording.durationMs ≠ 0 then covered / recording.durationMs else 0
  if recording.words = [] then
    [{ severity := .error
       code := "no_transcription"
       message := "the words tier is empty; lexical classes cannot be checked and the " ++
         "silent-pause derivation has nothing to work from"
       atMs := none }]
  else if ratio < lowCoverageRatio then
    [{ severity := .warning
       code := "low_coverage"
       message := s!"words cover {percent ratio} of the recording; if the annotator stopped " ++
         "early, agreement would be computed over a stretch only one of them annotated"
       atMs := none }]
  else []

/-- `_abstention`: the rate is reported and never a fault. -/
def abstention (recording : AnnotatedRecording) : List Finding :=
  let lexical := recording.disfluencies.countP fun a => a.eventType ∈ lexicalClasses
  if lexical = 0 then []
  else
    let rate : ℚ := recording.uncertainCount / lexical
    [{ severity := .info
       code := "abstention_rate"
       message := s!"{recording.uncertainCount} of {lexical} lexical annotations are " ++
         s!"'uncertain' ({percent rate})"
       atMs := none }]

/-- Check one annotator's work. -/
def validate (lower : String → String) (recording : AnnotatedRecording) : ValidationReport where
  recordingId := recording.recordingId
  annotatorId := recording.annotatorId
  findings := sameClassOverlaps recording.disfluencies ++ wordOrdering recording.words ++
    orthography recording.words ++ unattestedExpressions lower recording ++
    coverage recording ++ abstention recording

end OratoriaEngine.Corpus
