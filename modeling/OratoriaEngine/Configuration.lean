import OratoriaEngine.Floats
import OratoriaEngine.Taxonomy
import Mathlib.Data.Finmap

/-!
# Configuration snapshots

The rules one session runs under. Two snapshots are equal when all their fields
are; the threshold tables compare as mappings, whatever the order of their keys.
-/

namespace OratoriaEngine

/-- Half-width of the fusion window, and the configuration that fixes it. -/
@[ext] structure FusionWindow where
  widthMs : ℤ
  configuration : ConfigurationSnapshotId
  nonneg : 0 ≤ widthMs

instance : DecidableEq FusionWindow := fun _ _ => decidable_of_iff _ FusionWindow.ext_iff.symm

def FusionWindow.admits (w : FusionWindow) (gapMs : ℤ) : Bool := gapMs ≤ w.widthMs

/-- The speaker's reference frame, captured before capture begins. -/
structure VisualCalibration where
  baselineYawDegrees : PyFloat
  baselinePitchDegrees : PyFloat
  baselineTorsoDegrees : PyFloat
  gazeConeDegrees : PyFloat
  postureDeviationDegrees : PyFloat
  minLandmarkVisibility : PyFloat
  cone : PyFloat.lt (.fin 0) gazeConeDegrees = true ∧ gazeConeDegrees.lt (.fin 90) = true
  posture : postureDeviationDegrees.le (.fin 0) = false
  visibility : PyFloat.le (.fin 0) minLandmarkVisibility = true ∧
    minLandmarkVisibility.le (.fin 1) = true
  deriving DecidableEq

abbrev Thresholds := Finmap fun _ : String => PyFloat

structure ConfigurationSnapshot where
  id : ConfigurationSnapshotId
  taxonomyVersion : SemanticVersion
  pipelineVersion : SemanticVersion
  schemaVersion : SemanticVersion
  fusionWindow : FusionWindow
  speechThresholds : Thresholds
  visualThresholds : Thresholds
  silenceThresholdMs : ℤ
  calibration : Option VisualCalibration
  deriving DecidableEq

def pipelineVersion : SemanticVersion := ⟨0, 1, 0⟩

def schemaVersion : SemanticVersion := ⟨1, 0, 0⟩

def defaultFusionWindowMs : ℤ := 500

/-- The snapshot a fresh deployment starts from. -/
def defaultConfiguration : ConfigurationSnapshot :=
  let snapshotId : ConfigurationSnapshotId := ⟨⟨"config-default-v1", by decide⟩⟩
  { id := snapshotId
    taxonomyVersion := taxonomyVersion
    pipelineVersion := pipelineVersion
    schemaVersion := schemaVersion
    fusionWindow := ⟨defaultFusionWindowMs, snapshotId, by decide⟩
    speechThresholds := ∅
    visualThresholds := ∅
    silenceThresholdMs := 700
    calibration := none }

end OratoriaEngine
