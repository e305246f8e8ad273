import OratoriaEngine.Corpus.Records
import OratoriaEngine.Lib.Literal
import OratoriaEngine.VersionText

/-!
# What one annotator made of one recording

The words, the disfluencies and who annotated whom, with the checks their constructors make.
-/

namespace OratoriaEngine.Corpus

inductive CorpusError
  | schemaViolation (message : String)
  | elanError (message : String)
  | valueError (message : String)
  | mismatchedRecordings (message : String)
  | zeroDivision

def Interval.of (startMs endMs : ℤ) : Except CorpusError Interval :=
  if hstart : startMs < 0 then
    .error (.schemaViolation s!"interval starts before the recording: {startMs}")
  else if hend : endMs ≤ startMs then
    .error (.schemaViolation s!"interval has no duration: [{startMs}, {endMs})")
  else .ok ⟨startMs, endMs, not_lt.1 hstart, not_le.1 hend⟩

def Interval.overlaps (i j : Interval) : Prop := i.startMs < j.endMs ∧ j.startMs < i.endMs

instance (i j : Interval) : Decidable (i.overlaps j) := inferInstanceAs (Decidable (_ ∧ _))

structure Word where
  text : String
  interval : Interval
  spoken : isBlank text = false

def Word.of (text : String) (interval : Interval) : Except CorpusError Word :=
  if h : isBlank text then
    .error (.schemaViolation "a word cannot be empty; mark unintelligible speech as an event")
  else .ok ⟨text, interval, Bool.eq_false_of_not_eq_true h⟩

namespace DisfluencyAnnotation

def roleRefusal (eventType : SpeechEventType) (rawText : String) : String :=
  if eventType ∈ lexicalClasses then
    if isBlank rawText then
      s!"'{eventType.value}' is decided from a word, so raw_text is required (FR-017)"
    else
      s!"'{eventType.value}' requires a contextual role (FR-013); use " ++
        s!"'{ContextualRole.uncertain.value}' when the context does not decide it"
  else
    s!"'{eventType.value}' has no word to attach a role to; setting one " ++
      "asserts a distinction the annotator did not make"

def of (eventType : SpeechEventType) (interval : Interval) (annotatorId rawText : String)
    (contextRole : Option ContextualRole) (annotatorConfidence : ℚ) (note : String) :
    Except CorpusError DisfluencyAnnotation :=
  if hnamed : isBlank annotatorId then
    .error (.schemaViolation "every annotation names its annotator; agreement needs it")
  else if hconfident : 0 ≤ annotatorConfidence ∧ annotatorConfidence ≤ 1 then
    if hroles : RoleRules eventType rawText contextRole then
      .ok ⟨eventType, interval, annotatorId, rawText, contextRole, annotatorConfidence, note,
        Bool.eq_false_of_not_eq_true hnamed, hconfident, hroles⟩
    else .error (.schemaViolation (roleRefusal eventType rawText))
  else .error (.schemaViolation
    s!"annotator confidence must lie in [0, 1], got {annotatorConfidence}")

def isUncertain (a : DisfluencyAnnotation) : Bool := a.contextRole = some .uncertain

end DisfluencyAnnotation

def stripText (text : String) : String := String.ofList (strip text.toList)

def splitWords (text : List Char) : List (List Char) :=
  (text.splitOnP isSpace).filter fun part => !part.isEmpty

/-- An address or a number of more than six digits. Case matters to neither. -/
def looksLikeIdentifier (pseudonym : String) : Bool :=
  let lowered := pseudonym.toList.map Char.toLower
  lowered.contains '@' ||
    (splitWords lowered).any fun part => part.all Literal.isDigit && part.length > 6

structure Speaker where
  pseudonym : String
  variety : String := "es-PE"
  notes : String := ""
  named : isBlank pseudonym = false
  pseudonymous : looksLikeIdentifier pseudonym = false

def Speaker.of (pseudonym : String) : Except CorpusError Speaker :=
  if hnamed : isBlank pseudonym then .error (.schemaViolation "a speaker needs a pseudonym")
  else if hpseudonymous : looksLikeIdentifier pseudonym then
    .error (.schemaViolation (s!"pseudonym '{pseudonym}' looks like an identifier rather than a " ++
      "pseudonym; §14.4 requires research data to be pseudonymized"))
  else .ok { pseudonym, named := Bool.eq_false_of_not_eq_true hnamed,
             pseudonymous := Bool.eq_false_of_not_eq_true hpseudonymous }

/-- Which pass of the double annotation this is. -/
inductive AnnotationPass
  | first
  | second
  | adjudicated
  deriving DecidableEq

def AnnotationPass.value : AnnotationPass → String
  | .first => "first"
  | .second => "second"
  | .adjudicated => "adjudicated"

def schemaVersion : SemanticVersion := ⟨1, 0, 0⟩

/-- Everything one annotator produced for one recording. -/
structure AnnotatedRecording where
  recordingId : String
  speaker : Speaker
  annotatorId : String
  annotationPass : AnnotationPass
  durationMs : ℤ
  words : List Word
  disfluencies : List DisfluencyAnnotation
  schemaVersion : SemanticVersion := Corpus.schemaVersion
  taxonomyVersion : Option SemanticVersion
  note : String := ""
  named : isBlank recordingId = false
  lasting : 0 < durationMs
  attributed : ∀ a ∈ disfluencies, a.annotatorId = annotatorId
  within : ∀ a ∈ disfluencies, a.interval.endMs ≤ durationMs

namespace AnnotatedRecording

def refusal (annotatorId : String) (durationMs : ℤ) (a : DisfluencyAnnotation) : Option String :=
  if a.annotatorId ≠ annotatorId then
    some (s!"annotation by '{a.annotatorId}' in a file attributed to " ++
      s!"'{annotatorId}'; agreement would compare the wrong people")
  else if durationMs < a.interval.endMs then
    some (s!"annotation ends at {a.interval.endMs} ms, past the " ++
      s!"recording's {durationMs} ms")
  else none

theorem refusal_eq_none_iff {annotatorId : String} {durationMs : ℤ} {a : DisfluencyAnnotation} :
    refusal annotatorId durationMs a = none ↔
      a.annotatorId = annotatorId ∧ a.interval.endMs ≤ durationMs := by
  unfold refusal
  split_ifs with hannotator hpast
  · simp [hannotator]
  · simp [not_le.2 hpast]
  · exact iff_of_true rfl ⟨not_not.1 hannotator, not_lt.1 hpast⟩

def of (recordingId : String) (speaker : Speaker) (annotatorId : String)
    (annotationPass : AnnotationPass) (durationMs : ℤ) (words : List Word)
    (disfluencies : List DisfluencyAnnotation) (taxonomyVersion : Option SemanticVersion) :
    Except CorpusError AnnotatedRecording :=
  if hnamed : isBlank recordingId then .error (.schemaViolation "a recording needs an id")
  else if hlasting : durationMs ≤ 0 then
    .error (.schemaViolation s!"a recording has positive duration, got {durationMs}")
  else
    match hrefusal : disfluencies.findSome? (refusal annotatorId durationMs) with
    | some message => .error (.schemaViolation message)
    | none =>
        .ok { recordingId, speaker, annotatorId, annotationPass, durationMs, words, disfluencies,
              taxonomyVersion
              named := Bool.eq_false_of_not_eq_true hnamed
              lasting := not_le.1 hlasting
              attributed := fun a ha =>
                (refusal_eq_none_iff.1 (List.findSome?_eq_none_iff.1 hrefusal a ha)).1
              within := fun a ha =>
                (refusal_eq_none_iff.1 (List.findSome?_eq_none_iff.1 hrefusal a ha)).2 }

def uncertainCount (r : AnnotatedRecording) : ℕ :=
  r.disfluencies.countP DisfluencyAnnotation.isUncertain

end AnnotatedRecording

end OratoriaEngine.Corpus
