import OratoriaEngine.Failures
import Mathlib.Tactic.SplitIfs

/-!
# Confidence and measurements

A confidence lies in the unit interval and knows whether it was calibrated. An
indicator is either measured or unavailable with a reason; the unavailable case
holds no number that could be read by mistake.
-/

namespace OratoriaEngine

inductive CalibrationState
  | raw
  | calibrated
  deriving DecidableEq, Repr

def CalibrationState.value : CalibrationState → String
  | .raw => "raw"
  | .calibrated => "calibrated"

structure Confidence where
  value : ℚ
  state : CalibrationState
  nonneg : 0 ≤ value
  le_one : value ≤ 1
  deriving DecidableEq

namespace Confidence

/-- The constructor, which refuses a score outside the unit interval or a NaN. -/
def of (value : PyFloat) (state : CalibrationState) : Except Failure Confidence :=
  match value with
  | .fin q =>
      if h : 0 ≤ q ∧ q ≤ 1 then .ok ⟨q, state, h.1, h.2⟩
      else .error (.invalidConfidence (.fin q))
  | other => .error (.invalidConfidence other)

def certain : Confidence := ⟨1, .calibrated, by decide, by decide⟩

def isCalibrated (c : Confidence) : Bool := c.state = .calibrated

def meets (c : Confidence) (threshold : PyFloat) : Bool :=
  c.isCalibrated && threshold.le (.fin c.value)

theorem of_clampUnit (v : PyFloat) (state : CalibrationState) :
    (∃ c, of v.clampUnit state = .ok c) ↔ v ≠ .nan := by
  rcases v.clampUnit_cases with ⟨rfl, hc⟩ | ⟨q, h0, h1, hc⟩
  · simp [hc, of]
  · have hne : v ≠ .nan := by
      rintro rfl
      cases hc
    simp [hc, of, h0, h1, hne]

end Confidence

inductive UnavailabilityReason
  | modalityNotCaptured
  | qualityBelowThreshold
  | subjectNotObservable
  | inputGap
  | processingFailed
  | confidenceBelowThreshold
  | insufficientObservation
  | evidenceDeleted
  deriving DecidableEq, Repr

def UnavailabilityReason.value : UnavailabilityReason → String
  | .modalityNotCaptured => "modality_not_captured"
  | .qualityBelowThreshold => "quality_below_threshold"
  | .subjectNotObservable => "subject_not_observable"
  | .inputGap => "input_gap"
  | .processingFailed => "processing_failed"
  | .confidenceBelowThreshold => "confidence_below_threshold"
  | .insufficientObservation => "insufficient_observation"
  | .evidenceDeleted => "evidence_deleted"

structure Measured where
  value : PyFloat
  confidence : Confidence
  unit : String
  deriving DecidableEq

structure Unavailable where
  reason : UnavailabilityReason
  detail : String
  deriving DecidableEq

inductive Indicator
  | measured (m : Measured)
  | unavailable (u : Unavailable)
  deriving DecidableEq

end OratoriaEngine
