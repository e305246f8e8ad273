import OratoriaEngine.Measurement
import OratoriaEngine.Taxonomy
import OratoriaEngine.Timeline

/-!
# Quality reports

An availability record says whether a modality can support its indicators over a
window, and carries a reason exactly when it cannot.
-/

namespace OratoriaEngine

inductive QualityMetric
  | signalToNoiseDb
  | clippingRatio
  | silenceRatio
  | inputLevelDbfs
  | faceVisibilityRatio
  | meanLuminance
  | framingCoverage
  | landmarkConfidence
  | chunkLossRatio
  | audioVideoSkewMs
  | effectiveFrameRateFps
  deriving DecidableEq, Repr

def QualityMetric.value : QualityMetric → String
  | .signalToNoiseDb => "signal_to_noise_db"
  | .clippingRatio => "clipping_ratio"
  | .silenceRatio => "silence_ratio"
  | .inputLevelDbfs => "input_level_dbfs"
  | .faceVisibilityRatio => "face_visibility_ratio"
  | .meanLuminance => "mean_luminance"
  | .framingCoverage => "framing_coverage"
  | .landmarkConfidence => "landmark_confidence"
  | .chunkLossRatio => "chunk_loss_ratio"
  | .audioVideoSkewMs => "audio_video_skew_ms"
  | .effectiveFrameRateFps => "effective_frame_rate_fps"

structure QualityAssessment where
  modality : Modality
  metric : QualityMetric
  window : Interval
  value : Indicator
  deriving DecidableEq

structure ModalityAvailability where
  modality : Modality
  window : Interval
  isUsable : Bool
  reason : Option UnavailabilityReason
  detail : String
  reasoned : isUsable = true ↔ reason = none
  deriving DecidableEq

namespace ModalityAvailability

def usable (modality : Modality) (window : Interval) : ModalityAvailability :=
  ⟨modality, window, true, none, "", by simp⟩

def unusable (modality : Modality) (window : Interval) (reason : UnavailabilityReason)
    (detail : String) : ModalityAvailability :=
  ⟨modality, window, false, some reason, detail, by simp⟩

def asUnavailable (r : ModalityAvailability) : Option Unavailable :=
  r.reason.map fun reason => ⟨reason, r.detail⟩

theorem asUnavailable_isSome {r : ModalityAvailability} (h : r.isUsable = false) :
    r.asUnavailable.isSome = true := by
  have hne : r.reason ≠ none := fun hn => by
    rw [r.reasoned.2 hn] at h
    cases h
  rw [asUnavailable, Option.isSome_map]
  exact Option.isSome_iff_ne_none.2 hne

/-- The record says that `modality` cannot serve `window`. -/
def blocks (modality : Modality) (window : Interval) (r : ModalityAvailability) : Bool :=
  r.modality = modality && r.window.overlaps window && !r.isUsable

end ModalityAvailability

structure QualityReport where
  assessments : List QualityAssessment
  availability : List ModalityAvailability
  deriving DecidableEq

namespace QualityReport

def empty : QualityReport := ⟨[], []⟩

/-- The reason a modality cannot serve a window: that of the first record that
blocks it, or that no record of the modality exists. -/
def unavailabilityFor (q : QualityReport) (modality : Modality) (window : Interval) :
    Option Unavailable :=
  match q.availability.find? (·.blocks modality window) with
  | some record => record.asUnavailable
  | none =>
      if q.availability.any (·.modality = modality) then none
      else some ⟨.modalityNotCaptured, ""⟩

/-- Every record overlapping the window says yes, and there is at least one. -/
def isUsable (q : QualityReport) (modality : Modality) (window : Interval) : Bool :=
  let overlapping :=
    q.availability.filter fun r => r.modality = modality && r.window.overlaps window
  !overlapping.isEmpty && overlapping.all (·.isUsable)

def extended (q : QualityReport) (assessments : List QualityAssessment)
    (availability : List ModalityAvailability) : QualityReport :=
  ⟨q.assessments ++ assessments, q.availability ++ availability⟩

/-- No record of the modality exists, or one of them blocks the window. -/
def Discloses (q : QualityReport) (modality : Modality) (window : Interval) : Prop :=
  (∀ r ∈ q.availability, r.modality ≠ modality) ∨
    ∃ r ∈ q.availability, r.blocks modality window = true

instance (q : QualityReport) (modality : Modality) (window : Interval) :
    Decidable (q.Discloses modality window) := inferInstanceAs (Decidable (_ ∨ _))

theorem unavailabilityFor_ne_none_iff (q : QualityReport) (modality : Modality)
    (window : Interval) :
    q.unavailabilityFor modality window ≠ none ↔ q.Discloses modality window := by
  unfold unavailabilityFor Discloses
  cases hf : q.availability.find? (·.blocks modality window) with
  | some record =>
      have hb : record.blocks modality window = true := by simpa using List.find?_some hf
      have hu : record.isUsable = false := by
        unfold ModalityAvailability.blocks at hb
        simp only [Bool.and_eq_true, Bool.not_eq_true'] at hb
        exact hb.2
      have hs := ModalityAvailability.asUnavailable_isSome hu
      simp only [ne_eq, Option.isSome_iff_ne_none.1 hs, not_false_eq_true, true_iff]
      exact Or.inr ⟨record, List.mem_of_find?_eq_some hf, hb⟩
  | none =>
      have hnone : ¬∃ r ∈ q.availability, r.blocks modality window = true := by
        rintro ⟨r, hr, hb⟩
        exact List.find?_eq_none.1 hf r hr hb
      by_cases hany : q.availability.any (·.modality = modality) = true
      · simp only [hany, if_true, ne_eq, not_true_eq_false, hnone, or_false, false_iff]
        intro hall
        obtain ⟨r, hr, hm⟩ := List.any_eq_true.1 hany
        exact hall r hr (by simpa using hm)
      · simp only [hany, if_false, ne_eq, reduceCtorEq, not_false_eq_true, hnone, or_false,
          true_iff]
        intro r hr hm
        exact hany (List.any_eq_true.2 ⟨r, hr, by simpa using hm⟩)

/-- A window is unusable just when there is a reason to state. -/
def ReadingsAgree (q : QualityReport) (modality : Modality) (window : Interval) : Prop :=
  q.isUsable modality window = false ↔ q.unavailabilityFor modality window ≠ none

instance (q : QualityReport) (modality : Modality) (window : Interval) :
    Decidable (q.ReadingsAgree modality window) := inferInstanceAs (Decidable (_ ↔ _))

/-- Some record of the modality overlaps the window. -/
def Reaches (q : QualityReport) (modality : Modality) (window : Interval) : Prop :=
  ∃ r ∈ q.availability, r.modality = modality ∧ r.window.overlaps window = true

theorem isUsable_iff (q : QualityReport) (modality : Modality) (window : Interval) :
    q.isUsable modality window = true ↔
      q.Reaches modality window ∧ ∀ r ∈ q.availability, r.blocks modality window = false := by
  simp only [isUsable, Bool.and_eq_true, Bool.not_eq_true', List.isEmpty_eq_false_iff_exists_mem,
    List.all_eq_true, List.mem_filter, decide_eq_true_eq, Reaches]
  refine and_congr_right fun _ => forall_congr' fun r => ?_
  cases hoverlaps : r.window.overlaps window <;> cases husable : r.isUsable <;>
    simp [ModalityAvailability.blocks, hoverlaps, husable]

/-- The readings agree unless the modality has records and none of them reaches the window. -/
theorem readingsAgree_iff (q : QualityReport) (modality : Modality) (window : Interval) :
    q.ReadingsAgree modality window ↔
      q.Reaches modality window ∨ ∀ r ∈ q.availability, r.modality ≠ modality := by
  rw [ReadingsAgree, unavailabilityFor_ne_none_iff, Bool.eq_false_iff, ne_eq, isUsable_iff]
  by_cases hreach : q.Reaches modality window
  · apply iff_of_true _ (Or.inl hreach)
    constructor
    · intro hblocked
      right
      simpa [hreach] using hblocked
    · rintro (hnone | ⟨r, hr, hblocks⟩)
      · obtain ⟨r, hr, hsame, -⟩ := hreach
        exact absurd hsame (hnone r hr)
      · intro h
        rw [h.2 r hr] at hblocks
        cases hblocks
  · rw [or_iff_right hreach]
    have hclear : ¬∃ r ∈ q.availability, r.blocks modality window = true := by
      rintro ⟨r, hr, hblocks⟩
      simp only [ModalityAvailability.blocks, Bool.and_eq_true, decide_eq_true_eq] at hblocks
      exact hreach ⟨r, hr, hblocks.1.1, hblocks.1.2⟩
    simp [hreach, Discloses, hclear]

def firstEndMs : MonotonicTime := ⟨540, by decide⟩

def secondEndMs : MonotonicTime := ⟨1070, by decide⟩

def recordedAtFirst : QualityReport :=
  ⟨[], [.usable .video ⟨.zero, firstEndMs, Interval.defaultToleranceMs, firstEndMs.nonneg,
    Interval.defaultToleranceMs_nonneg⟩]⟩

def unrecorded : Interval :=
  ⟨firstEndMs, secondEndMs, Interval.defaultToleranceMs, by decide,
    Interval.defaultToleranceMs_nonneg⟩

/-- Past the last record a window is withheld without a reason. -/
theorem not_readingsAgree_unrecorded : ¬recordedAtFirst.ReadingsAgree .video unrecorded := by
  decide

end QualityReport

end OratoriaEngine
