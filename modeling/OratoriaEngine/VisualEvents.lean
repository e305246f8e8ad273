import OratoriaEngine.Measurement
import OratoriaEngine.Taxonomy
import OratoriaEngine.Timeline

/-!
# Visual events

A visual event comes from video, states a direction exactly when its class
describes a gaze, and an optional class carries a calibrated confidence of at
least three quarters.
-/

namespace OratoriaEngine

inductive GazeDirection
  | up
  | down
  | left
  | right
  | undetermined
  deriving DecidableEq, Repr

def GazeDirection.value : GazeDirection → String
  | .up => "up"
  | .down => "down"
  | .left => "left"
  | .right => "right"
  | .undetermined => "undetermined"

namespace VisualEventType

def gaze : VisualEventType → Bool
  | .gazeTowardCamera | .gazeAwayFromCamera => true
  | _ => false

def optional : VisualEventType → Bool
  | .selfTouch | .repetitiveHandMovement => true
  | _ => false

end VisualEventType

def optionalClassMinConfidence : PyFloat := .fin (3 / 4)

structure VisualEvent where
  id : EventId
  type : VisualEventType
  interval : Interval
  confidence : Confidence
  provenance : Provenance
  direction : Option GazeDirection
  magnitude : Option PyFloat
  isFinal : Bool
  seen : provenance.modality = .video
  directed : type.gaze = true ↔ direction ≠ none
  gated : type.optional = true → confidence.meets optionalClassMinConfidence = true
  deriving DecidableEq

namespace VisualEvent

def of (id : EventId) (type : VisualEventType) (interval : Interval) (confidence : Confidence)
    (provenance : Provenance) (direction : Option GazeDirection) (magnitude : Option PyFloat) :
    Except Failure VisualEvent :=
  if hv : provenance.modality = .video then
    if hd : type.gaze = true ↔ direction ≠ none then
      if hg : type.optional = true → confidence.meets optionalClassMinConfidence = true then
        .ok ⟨id, type, interval, confidence, provenance, direction, magnitude, false, hv, hd, hg⟩
      else .error (.visualEventViolation
        (s!"'{type.value}' is a P1 class gated by FR-022: it may only be " ++
          "emitted with calibrated confidence >= 0.75, got ")
        (some (.fin confidence.value)))
    else if type.gaze then
      .error (.visualEventViolation
        (s!"'{type.value}' must state a direction; use " ++
          "'undetermined' when it cannot be estimated") none)
    else .error (.visualEventViolation
      s!"'{type.value}' does not describe a gaze and cannot carry a direction" none)
  else .error (.visualEventViolation
    (s!"visual event {id.value} claims modality " ++
      s!"'{provenance.modality.value}'; visual evidence comes from video") none)

def finalize (e : VisualEvent) : VisualEvent := if e.isFinal then e else { e with isFinal := true }

@[simp] theorem finalize_isFinal (e : VisualEvent) : e.finalize.isFinal = true := by
  unfold finalize
  split_ifs with h
  · exact h
  · rfl

end VisualEvent

end OratoriaEngine
