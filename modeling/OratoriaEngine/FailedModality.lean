import OratoriaEngine.ReconcileSteps

/-!
# What the quality report says about a failed modality

A failing runtime adds nothing to the quality report. Its windows are reported as
unavailable as long as the modality has no availability record at all, or one that
calls a window they overlap unusable.
-/

namespace OratoriaEngine.Coordinator

open Stateful

variable (c : Coordinator) {t : Stream}

/-- The span of the session the call is about: that of its audio window, or of one of
its frames, which lasts one millisecond. -/
def IngestCall.Covers : IngestCall → Interval → Prop
  | .audio _ window, w =>
      w.start.ms = window.sessionPositionMs ∧
        w.stop.ms = window.sessionPositionMs + window.durationMs
  | .video _ frames, w =>
      ∃ frame ∈ frames, w.start.ms = frame.sessionPositionMs ∧
        w.stop.ms = frame.sessionPositionMs + 1

def Failed (t : Stream) (r : Request) : Prop :=
  Novel t r.call.modality r.call.sequence ∧ HasRoom c t ∧
    match r.call with
    | .audio _ window => ∃ failure, r.ports.speech window = .error failure
    | .video _ frames => ∃ failure, r.ports.vision frames = .error failure

end OratoriaEngine.Coordinator
