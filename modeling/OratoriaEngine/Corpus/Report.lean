import OratoriaEngine.Corpus.Matching
import OratoriaEngine.Corpus.Measures
import OratoriaEngine.Corpus.Recording

/-!
# The agreement report

Two annotators of one recording: what they found, where they drew its edges, and what they
called it. The figures are doubles.
-/

namespace OratoriaEngine.Corpus

structure ClassAgreement where
  eventType : String
  both : ℕ
  leftOnly : ℕ
  rightOnly : ℕ
  specificAgreement : Option ℚ

structure AgreementReport where
  recordingId : String
  leftAnnotator : String
  rightAnnotator : String
  criterion : MatchCriterion
  threshold : ℚ
  matched : ℕ
  leftOnly : ℕ
  rightOnly : ℕ
  positiveSpecificAgreement : ℚ
  boundary : BoundaryError
  classKappa : Option ℚ
  classAlpha : Option ℚ
  classConfusion : ConfusionMatrix
  perClass : List ClassAgreement
  roleKappa : Option ℚ
  roleConfusion : ConfusionMatrix
  roleAgreement : List ClassAgreement
  leftUncertain : ℕ
  rightUncertain : ℕ
  notes : List String

def AgreementReport.totalAnnotations (r : AgreementReport) : ℕ :=
  r.matched * 2 + r.leftOnly + r.rightOnly

namespace MatchedPair

variable (p : MatchedPair)

def startErrorMs : ℤ := |p.left.interval.startMs - p.right.interval.startMs|

def endErrorMs : ℤ := |p.left.interval.endMs - p.right.interval.endMs|

end MatchedPair

def boundaryError (m : Matching) : BoundaryError :=
  ⟨m.pairs.map MatchedPair.startErrorMs, m.pairs.map MatchedPair.endErrorMs⟩

def classLabel (a : DisfluencyAnnotation) : String := a.eventType.value

theorem eventType_value_inj {c d : SpeechEventType} : c.value = d.value ↔ c = d := by
  constructor
  · cases c <;> cases d <;> simp [SpeechEventType.value]
  · exact congrArg _

def roleLabel : Option ContextualRole → String
  | some role => role.value
  | none => "none"

def classPairs (m : Matching) : List (String × String) :=
  m.pairs.map fun p => (classLabel p.left, classLabel p.right)

def rolePairs (m : Matching) : List (String × String) :=
  (m.pairs.filter fun p => p.left.contextRole.isSome || p.right.contextRole.isSome).map
    fun p => (roleLabel p.left.contextRole, roleLabel p.right.contextRole)

/-- One entry of `_per_class`: events that one annotator missed count against their class. -/
def classAgreement (matrix : ConfusionMatrix) (unmatchedLeft unmatchedRight : Dict String ℕ)
    (label : String) : ClassAgreement :=
  let (both, leftOnly, rightOnly) := matrix.forLabel label
  let leftTotal := leftOnly + (unmatchedLeft.get? label).getD 0
  let rightTotal := rightOnly + (unmatchedRight.get? label).getD 0
  let denominator := 2 * both + leftTotal + rightTotal
  { eventType := label
    both
    leftOnly := leftTotal
    rightOnly := rightTotal
    specificAgreement :=
      if denominator ≠ 0 then some (Rounding.double (2 * both / (denominator : ℕ))) else none }

def perClass (matrix : ConfusionMatrix) (m : Matching) : List ClassAgreement :=
  let unmatchedLeft := Dict.tally (m.leftOnly.map classLabel)
  let unmatchedRight := Dict.tally (m.rightOnly.map classLabel)
  let labels := sortedSet (matrix.labels ++ unmatchedLeft.keys ++ unmatchedRight.keys)
  labels.map (classAgreement matrix unmatchedLeft unmatchedRight)

def roleAgreement (matrix : ConfusionMatrix) (label : String) : ClassAgreement :=
  let (both, leftOnly, rightOnly) := matrix.forLabel label
  { eventType := label, both, leftOnly, rightOnly
    specificAgreement := matrix.specificAgreement .double label }

def versionText : Option SemanticVersion → String
  | some version => toString version
  | none => "None"

/-- `_notes`: conditions that make the numbers mean less than they appear to. -/
def notes (left right : AnnotatedRecording) (m : Matching) : List String :=
  (if left.taxonomyVersion ≠ right.taxonomyVersion then
    ["the annotators worked under different taxonomy versions " ++
      s!"({versionText left.taxonomyVersion} and {versionText right.taxonomyVersion}); this " ++
      "report measures the change as well as the annotators"]
  else []) ++
  (if m.pairs.length < 20 then
    [s!"only {m.pairs.length} matched events: too few for kappa or alpha " ++
      "to be stable. Treat them as descriptive and widen the taxonomic pilot"]
  else []) ++
  (if m.pairs.length = 0 ∧ (m.leftOnly ≠ [] ∨ m.rightOnly ≠ []) then
    ["nothing matched at all. Either the threshold is too strict for these " ++
      "boundaries, or the two files are of different recordings"]
  else [])

def coefficient (x : Except ZeroDivisionError (Option ℚ)) : Except CorpusError (Option ℚ) :=
  x.mapError fun _ => .zeroDivision

def agreementReport (left right : AnnotatedRecording) (matching : Matching)
    (classKappa classAlpha roleKappa : Option ℚ) : AgreementReport :=
  let classMatrix := confusion (classPairs matching)
  let roleMatrix := confusion (rolePairs matching)
  { recordingId := left.recordingId
    leftAnnotator := left.annotatorId
    rightAnnotator := right.annotatorId
    criterion := matching.criterion
    threshold := matching.threshold
    matched := matching.pairs.length
    leftOnly := matching.leftOnly.length
    rightOnly := matching.rightOnly.length
    positiveSpecificAgreement := matching.positiveSpecificAgreement .double
    boundary := boundaryError matching
    classKappa
    classAlpha
    classConfusion := classMatrix
    perClass := perClass classMatrix matching
    roleKappa
    roleConfusion := roleMatrix
    roleAgreement := roleMatrix.labels.map (roleAgreement roleMatrix)
    leftUncertain := left.uncertainCount
    rightUncertain := right.uncertainCount
    notes := notes left right matching }

/-- The refusal of two recordings that are not two people's work on one. -/
def mismatch (left right : AnnotatedRecording) : Option String :=
  if left.recordingId ≠ right.recordingId then
    some s!"'{left.recordingId}' and '{right.recordingId}' are different recordings"
  else if left.annotatorId = right.annotatorId then
    some s!"both files are by '{left.annotatorId}'; agreement is between two people"
  else none

/-- Measure agreement between two annotations of the same recording. -/
def compare (rule : MatchRule) (left right : AnnotatedRecording) :
    Except CorpusError AgreementReport :=
  match mismatch left right with
  | some message => throw (.mismatchedRecordings message)
  | none => do
      let matching := matchAnnotations .double rule left.disfluencies right.disfluencies
      let classKappa ← coefficient (cohensKappa .double (confusion (classPairs matching)))
      let classAlpha ← coefficient (krippendorffsAlpha .double (confusion (classPairs matching)))
      let roleKappa ← coefficient (cohensKappa .double (confusion (rolePairs matching)))
      return agreementReport left right matching classKappa classAlpha roleKappa

theorem coefficient_ok (x : Option ℚ) : coefficient (.ok x) = .ok x := rfl

theorem compare_of_coefficients {rule : MatchRule} {left right : AnnotatedRecording}
    (h : mismatch left right = none) {classKappa classAlpha roleKappa : Option ℚ}
    (hkappa : cohensKappa .double (confusion (classPairs (matchAnnotations .double rule
      left.disfluencies right.disfluencies))) = .ok classKappa)
    (halpha : krippendorffsAlpha .double (confusion (classPairs (matchAnnotations .double rule
      left.disfluencies right.disfluencies))) = .ok classAlpha)
    (hrole : cohensKappa .double (confusion (rolePairs (matchAnnotations .double rule
      left.disfluencies right.disfluencies))) = .ok roleKappa) :
    compare rule left right = .ok (agreementReport left right
      (matchAnnotations .double rule left.disfluencies right.disfluencies) classKappa classAlpha
        roleKappa) := by
  simp only [compare, h, hkappa, halpha, hrole, coefficient_ok]
  rfl

theorem compare_eq_ok {rule : MatchRule} {left right : AnnotatedRecording}
    {report : AgreementReport} (h : compare rule left right = .ok report) :
    ∃ classKappa classAlpha roleKappa, report = agreementReport left right
      (matchAnnotations .double rule left.disfluencies right.disfluencies) classKappa classAlpha
        roleKappa := by
  cases hmismatch : mismatch left right with
  | some message =>
      simp only [compare, hmismatch] at h
      cases h
  | none =>
      simp only [compare, hmismatch] at h
      obtain ⟨classKappa, -, h⟩ := Except.bind_eq_ok.1 h
      obtain ⟨classAlpha, -, h⟩ := Except.bind_eq_ok.1 h
      obtain ⟨roleKappa, -, h⟩ := Except.bind_eq_ok.1 h
      exact ⟨classKappa, classAlpha, roleKappa, (Except.pure_eq_ok.1 h).symm⟩

end OratoriaEngine.Corpus
