import OratoriaEngine.Calibration
import OratoriaEngine.Configuration
import OratoriaEngine.EventIdentity
import OratoriaEngine.Lib.Except
import OratoriaEngine.Quality
import OratoriaEngine.Runtimes

/-!
# From visual hypotheses to visual evidence

The optional classes are dropped below their threshold. Each quality signal
yields four measurements and one availability record, whose reason is that of the
first check it fails.
-/

namespace OratoriaEngine

structure AssembledVisual where
  events : List VisualEvent
  assessments : List QualityAssessment
  availability : List ModalityAvailability
  gatedOut : ℕ

structure VisualAssembler where
  runId : RunId
  configuration : ConfigurationSnapshot
  calibrator : Calibrator .double
  digest : String → String

def defaultMinFaceVisibility : PyFloat := .fin (1 / 2)

def defaultMinLuminance : PyFloat := .fin (3 / 20)

def defaultMinFramingCoverage : PyFloat := .fin (3 / 5)

/-- The format `:.0%`: the whole percentage nearest to the rounded product, ties to the even one. -/
def percent : PyFloat → String
  | .nan => "nan%"
  | .negInf => "-inf%"
  | .posInf => "inf%"
  | .fin q =>
      let percentage := Rounding.halfEven (Rounding.double (|q| * 100))
      (if q < 0 then "-" else "") ++ s!"{percentage}%"

namespace VisualAssembler

variable (a : VisualAssembler)

def provenance (result : VisualResult) : Provenance where
  modality := .video
  modelVersion := result.modelVersion
  taxonomyVersion := a.configuration.taxonomyVersion
  configuration := a.configuration.id
  evidenceRef := ⟨⟨"video:" ++ a.runId.value, isBlank_append_of_head (by decide) _⟩⟩

/-- The event, or `none` when the gate on optional classes rejects it. -/
def event (hypothesis : VisualEventHypothesis) (provenance : Provenance) :
    Except Failure (Option VisualEvent) := do
  let confidence ← a.calibrator.calibrate hypothesis.type.value hypothesis.score
  let threshold := (a.configuration.visualThresholds.lookup hypothesis.type.value).getD
    optionalClassMinConfidence
  if hypothesis.type.optional && !confidence.meets threshold then
    return none
  let interval ← Interval.of hypothesis.startMs hypothesis.endMs
  let id := deriveEventId a.digest a.runId hypothesis.type.value hypothesis.startMs ""
  some <$> VisualEvent.of id hypothesis.type interval confidence provenance hypothesis.direction
    hypothesis.magnitude

def ratio (value : PyFloat) : Indicator := .measured ⟨value, .certain, "ratio"⟩

def assessments (signal : VisualQualitySignal) : Except Failure (List QualityAssessment) := do
  let window ← Interval.of signal.startMs signal.endMs
  return [⟨.video, .faceVisibilityRatio, window, ratio signal.faceVisibility⟩,
    ⟨.video, .meanLuminance, window, ratio signal.meanLuminance⟩,
    ⟨.video, .framingCoverage, window, ratio signal.framingCoverage⟩,
    ⟨.video, .landmarkConfidence, window, ratio signal.landmarkConfidence⟩]

def availability (signal : VisualQualitySignal) : Except Failure ModalityAvailability := do
  let window ← Interval.of signal.startMs signal.endMs
  if signal.faceVisibility.lt defaultMinFaceVisibility then
    return .unusable .video window .subjectNotObservable
      s!"face visible in {percent signal.faceVisibility} of the window"
  if signal.meanLuminance.lt defaultMinLuminance then
    return .unusable .video window .qualityBelowThreshold
      "the face region is too dark for reliable geometry"
  if signal.framingCoverage.lt defaultMinFramingCoverage then
    return .unusable .video window .qualityBelowThreshold
      "the framing does not contain the region these indicators need"
  return .usable .video window

def grade (signal : VisualQualitySignal) :
    Except Failure (List QualityAssessment × ModalityAvailability) := do
  let graded ← assessments signal
  let record ← availability signal
  return (graded, record)

def assemble (result : VisualResult) : Except Failure AssembledVisual := do
  let provenance := a.provenance result
  let built ← result.events.mapM (a.event · provenance)
  let graded ← result.quality.mapM grade
  return {
    events := built.filterMap id
    assessments := graded.flatMap Prod.fst
    availability := graded.map Prod.snd
    gatedOut := built.countP (·.isNone) }

variable {a}

end VisualAssembler

end OratoriaEngine
