import OratoriaEngine.Identifiers

/-!
# The published taxonomy and the provenance of a finding
-/

namespace OratoriaEngine

inductive Modality
  | audio
  | video
  | multimodal
  deriving DecidableEq, Repr

def Modality.value : Modality → String
  | .audio => "audio"
  | .video => "video"
  | .multimodal => "multimodal"

structure SemanticVersion where
  major : ℕ
  minor : ℕ
  patch : ℕ
  deriving DecidableEq, Repr

instance : ToString SemanticVersion where
  toString v := s!"{v.major}.{v.minor}.{v.patch}"

def taxonomyVersion : SemanticVersion := ⟨1, 0, 0⟩

inductive DetectionBasis
  | acoustic
  | lexical
  | lexicalContextual
  | temporal
  | geometric
  deriving DecidableEq, Repr

def DetectionBasis.value : DetectionBasis → String
  | .acoustic => "acoustic"
  | .lexical => "lexical"
  | .lexicalContextual => "lexical_contextual"
  | .temporal => "temporal"
  | .geometric => "geometric"

inductive SpeechEventType
  | filledPause
  | lexicalFiller
  | repetition
  | falseStart
  | selfRepair
  | cutOff
  | prolongation
  | silentPause
  | unintelligible
  deriving DecidableEq, Repr

def SpeechEventType.value : SpeechEventType → String
  | .filledPause => "filled_pause"
  | .lexicalFiller => "lexical_filler"
  | .repetition => "repetition"
  | .falseStart => "false_start"
  | .selfRepair => "self_repair"
  | .cutOff => "cut_off"
  | .prolongation => "prolongation"
  | .silentPause => "silent_pause"
  | .unintelligible => "unintelligible"

def SpeechEventType.basis : SpeechEventType → DetectionBasis
  | .filledPause => .acoustic
  | .lexicalFiller => .lexicalContextual
  | .repetition => .lexicalContextual
  | .falseStart => .lexicalContextual
  | .selfRepair => .lexicalContextual
  | .cutOff => .acoustic
  | .prolongation => .acoustic
  | .silentPause => .temporal
  | .unintelligible => .acoustic

def SpeechEventType.lexical : SpeechEventType → Bool
  | .lexicalFiller | .repetition | .falseStart | .selfRepair => true
  | _ => false

inductive ContextualRole
  | filler
  | semantic
  | discourseMarker
  | uncertain
  deriving DecidableEq, Repr

def ContextualRole.value : ContextualRole → String
  | .filler => "filler"
  | .semantic => "semantic"
  | .discourseMarker => "discourse_marker"
  | .uncertain => "uncertain"

inductive VisualEventType
  | gazeTowardCamera
  | gazeAwayFromCamera
  | faceVisibilityLoss
  | insufficientLighting
  | insufficientFraming
  | postureDeviation
  | repetitiveTorsoMovement
  | selfTouch
  | repetitiveHandMovement
  deriving DecidableEq, Repr

def VisualEventType.value : VisualEventType → String
  | .gazeTowardCamera => "gaze_toward_camera"
  | .gazeAwayFromCamera => "gaze_away_from_camera"
  | .faceVisibilityLoss => "face_visibility_loss"
  | .insufficientLighting => "insufficient_lighting"
  | .insufficientFraming => "insufficient_framing"
  | .postureDeviation => "posture_deviation"
  | .repetitiveTorsoMovement => "repetitive_torso_movement"
  | .selfTouch => "self_touch"
  | .repetitiveHandMovement => "repetitive_hand_movement"

inductive ProsodicIndicator
  | meanIntensityDb
  | pitchMeanHz
  | pitchStability
  | speakingRateWpm
  | articulationRateSps
  | meanPauseDurationMs
  | voicedRatio
  deriving DecidableEq, Repr

def ProsodicIndicator.value : ProsodicIndicator → String
  | .meanIntensityDb => "mean_intensity_db"
  | .pitchMeanHz => "pitch_mean_hz"
  | .pitchStability => "pitch_stability"
  | .speakingRateWpm => "speaking_rate_wpm"
  | .articulationRateSps => "articulation_rate_sps"
  | .meanPauseDurationMs => "mean_pause_duration_ms"
  | .voicedRatio => "voiced_ratio"

/-- Where a finding came from; every field is required. -/
structure Provenance where
  modality : Modality
  modelVersion : ModelVersionId
  taxonomyVersion : SemanticVersion
  configuration : ConfigurationSnapshotId
  evidenceRef : EvidenceRef
  deriving DecidableEq

end OratoriaEngine
