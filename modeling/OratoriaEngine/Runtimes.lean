import OratoriaEngine.VisualEvents

/-!
# Model runtime ports

Runtimes return hypotheses, not events. A runtime is a foreign process: it
answers a window or a batch of frames with a result, or raises anything.
-/

namespace OratoriaEngine

structure AudioWindow where
  sessionPositionMs : ℤ
  durationMs : ℤ
  sampleRateHz : ℤ
  samples : List UInt8
  isFinalWindow : Bool
  deriving DecidableEq

structure WordHypothesis where
  rawText : String
  startMs : ℤ
  endMs : ℤ
  score : PyFloat
  deriving DecidableEq

structure SpeechEventHypothesis where
  type : SpeechEventType
  startMs : ℤ
  endMs : ℤ
  score : PyFloat
  rawText : String
  contextRole : Option ContextualRole
  deriving DecidableEq

structure ProsodyHypothesis where
  indicator : ProsodicIndicator
  startMs : ℤ
  endMs : ℤ
  value : Option PyFloat
  score : PyFloat
  deriving DecidableEq

/-- `stableThroughMs` is the position up to which the runtime calls its output stable. -/
structure SpeechResult where
  modelVersion : ModelVersionId
  words : List WordHypothesis
  events : List SpeechEventHypothesis
  prosody : List ProsodyHypothesis
  stableThroughMs : ℤ
  deriving DecidableEq

abbrev SpeechRuntime := AudioWindow → Except Failure SpeechResult

structure VisualFrame where
  sessionPositionMs : ℤ
  pixels : Option (List UInt8)
  landmarks : List PyFloat
  deriving DecidableEq

structure VisualEventHypothesis where
  type : VisualEventType
  startMs : ℤ
  endMs : ℤ
  score : PyFloat
  direction : Option GazeDirection
  magnitude : Option PyFloat
  deriving DecidableEq

structure VisualQualitySignal where
  startMs : ℤ
  endMs : ℤ
  faceVisibility : PyFloat
  meanLuminance : PyFloat
  framingCoverage : PyFloat
  landmarkConfidence : PyFloat
  deriving DecidableEq

structure VisualResult where
  modelVersion : ModelVersionId
  events : List VisualEventHypothesis
  quality : List VisualQualitySignal
  deriving DecidableEq

abbrev VisionRuntime := List VisualFrame → Except Failure VisualResult

end OratoriaEngine
