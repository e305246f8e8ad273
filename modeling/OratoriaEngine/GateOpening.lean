import OratoriaEngine.VisualGate

/-!
# What opens the gate

A hypothesis of a gated class is emitted when its calibrated value reaches the configured threshold
and the one of the domain. A score that is not a number brackets no segment of a curve and gets the
probability of its last point, so it opens the gate wherever that point reaches the thresholds.
-/

namespace OratoriaEngine

theorem Confidence.state_of_eq_ok {value : PyFloat} {state : CalibrationState} {c : Confidence}
    (h : Confidence.of value state = .ok c) : c.state = state := by
  cases value with
  | fin q =>
      rw [Confidence.of] at h
      split_ifs at h
      cases h
      rfl
  | nan | negInf | posInf => cases h

namespace VisualAssembler

variable (a : VisualAssembler)

def Reaches (type : VisualEventType) (value : PyFloat) : Prop :=
  (a.thresholdFor type).le value = true ∧ optionalClassMinConfidence.le value = true

/-- The hypothesis of a gated class is emitted only if its score is a number whose calibrated value
reaches the configured threshold. -/
def OpensOnNumbers (result : VisualResult) (hypothesis : VisualEventHypothesis) : Prop :=
  hypothesis.type.optional = true →
    ∀ e, a.event hypothesis (a.provenance result) = .ok (some e) →
      hypothesis.score ≠ .nan ∧ ∃ curve, a.calibrator.curves hypothesis.type.value = some curve ∧
        (a.thresholdFor hypothesis.type).le (curve.apply hypothesis.score).clampUnit = true

def Buildable (hypothesis : VisualEventHypothesis) : Prop :=
  IsSpan hypothesis.startMs hypothesis.endMs ∧
    (hypothesis.type.gaze = true ↔ hypothesis.direction ≠ none)

/-- A buildable hypothesis of a gated class is scored with a NaN, and the last probability of the
curve of its class reaches the thresholds. -/
def NanReaches (hypothesis : VisualEventHypothesis) : Prop :=
  hypothesis.type.optional = true ∧ hypothesis.score = .nan ∧ Buildable hypothesis ∧
    ∃ curve, a.calibrator.curves hypothesis.type.value = some curve ∧
      a.Reaches hypothesis.type (.fin curve.last.2)

variable {a} {result : VisualResult} {hypothesis : VisualEventHypothesis}

theorem exists_event_of_calibrate_iff (hgated : hypothesis.type.optional = true)
    {provenance : Provenance} (seen : provenance.modality = .video) {confidence : Confidence}
    (hcalibrate : a.calibrator.calibrate hypothesis.type.value hypothesis.score = .ok confidence) :
    (∃ e, a.event hypothesis provenance = .ok (some e)) ↔
      Buildable hypothesis ∧ confidence.meets (a.thresholdFor hypothesis.type) = true ∧
        confidence.meets optionalClassMinConfidence = true := by
  cases hmeets : confidence.meets (a.thresholdFor hypothesis.type) with
  | false =>
      have hevent : a.event hypothesis provenance = .ok none := by
        rw [event, hcalibrate]
        rw [thresholdFor] at hmeets
        simp [bind, Except.bind, hgated, hmeets, pure, Except.pure]
      simp [hevent]
  | true =>
      have hevent : a.event hypothesis provenance = (do
          let interval ← Interval.of hypothesis.startMs hypothesis.endMs
          some <$> VisualEvent.of
            (deriveEventId a.digest a.runId hypothesis.type.value hypothesis.startMs "")
            hypothesis.type interval confidence provenance hypothesis.direction
            hypothesis.magnitude) := by
        rw [event, hcalibrate]
        rw [thresholdFor] at hmeets
        simp [bind, Except.bind, hmeets]
      rw [hevent, Buildable, ← Interval.of_isOk_iff]
      constructor
      · rintro ⟨e, h⟩
        obtain ⟨interval, hinterval, h⟩ := Except.bind_eq_ok.1 h
        obtain ⟨e, he, -⟩ := Except.map_eq_ok.1 h
        obtain ⟨hdirected, hdomain⟩ := (eventOf_isOk_iff seen).1 ⟨e, he⟩
        exact ⟨⟨⟨interval, hinterval⟩, hdirected⟩, rfl, hdomain hgated⟩
      · rintro ⟨⟨⟨interval, hinterval⟩, hdirected⟩, -, hdomain⟩
        obtain ⟨e, he⟩ := (eventOf_isOk_iff seen).2 ⟨hdirected, fun _ => hdomain⟩
        exact ⟨e, Except.bind_eq_ok.2 ⟨interval, hinterval, Except.map_eq_ok.2 ⟨e, he, rfl⟩⟩⟩

theorem exists_event_iff (hgated : hypothesis.type.optional = true) {provenance : Provenance}
    (seen : provenance.modality = .video) :
    (∃ e, a.event hypothesis provenance = .ok (some e)) ↔
      Buildable hypothesis ∧ ∃ curve, a.calibrator.curves hypothesis.type.value = some curve ∧
        a.Reaches hypothesis.type (curve.apply hypothesis.score).clampUnit := by
  cases hcurve : a.calibrator.curves hypothesis.type.value with
  | none =>
      apply iff_of_false
      · rintro ⟨e, h⟩
        obtain ⟨confidence, hcalibrate, -⟩ := Except.bind_eq_ok.1 h
        obtain ⟨-, hmeets, -⟩ := (exists_event_of_calibrate_iff hgated seen hcalibrate).1 ⟨e, h⟩
        rw [Calibrator.calibrate, hcurve] at hcalibrate
        have hstate := Confidence.state_of_eq_ok hcalibrate
        simp [Confidence.meets, Confidence.isCalibrated, hstate] at hmeets
      · simp
  | some curve =>
      have hcalibrate : a.calibrator.calibrate hypothesis.type.value hypothesis.score =
          Confidence.of (curve.apply hypothesis.score).clampUnit .calibrated := by
        rw [Calibrator.calibrate, hcurve]
      simp only [Option.some.injEq, exists_eq_left']
      rcases (curve.apply hypothesis.score).clampUnit_cases with ⟨-, hnan⟩ | ⟨q, h0, h1, hq⟩
      · rw [hnan] at hcalibrate ⊢
        apply iff_of_false
        · rintro ⟨e, h⟩
          obtain ⟨confidence, hok, -⟩ := Except.bind_eq_ok.1 h
          rw [hcalibrate] at hok
          cases hok
        · rintro ⟨-, -, hreaches⟩
          cases hreaches
      · rw [hq] at hcalibrate ⊢
        simp only [Confidence.of, h0, h1, and_self, dite_true] at hcalibrate
        rw [exists_event_of_calibrate_iff hgated seen hcalibrate]
        simp [Confidence.meets, Confidence.isCalibrated, Reaches]

/-- A gated class is emitted on numbers only, unless a NaN gets a last probability that reaches the
thresholds. -/
theorem opensOnNumbers_iff (a : VisualAssembler) (result : VisualResult)
    (hypothesis : VisualEventHypothesis) :
    a.OpensOnNumbers result hypothesis ↔ ¬a.NanReaches hypothesis := by
  have seen : (a.provenance result).modality = .video := rfl
  constructor
  · rintro h ⟨hgated, hnan, hbuildable, curve, hcurve, hreaches⟩
    rw [← curve.clampUnit_last, ← curve.apply_nan, ← hnan] at hreaches
    obtain ⟨e, he⟩ := (exists_event_iff hgated seen).2 ⟨hbuildable, curve, hcurve, hreaches⟩
    exact (h hgated e he).1 hnan
  · intro h hgated e he
    obtain ⟨hbuildable, curve, hcurve, hreaches⟩ := (exists_event_iff hgated seen).1 ⟨e, he⟩
    refine ⟨fun hnan => ?_, curve, hcurve, hreaches.1⟩
    rw [hnan, curve.apply_nan, curve.clampUnit_last] at hreaches
    exact h ⟨hgated, hnan, hbuildable, curve, hcurve, hreaches⟩

def touchAtNan : VisualEventHypothesis := ⟨.selfTouch, 610, 920, .nan, none, none⟩

/-- With a threshold of one half a class with the diagonal curve is emitted on a NaN. -/
theorem not_opensOnNumbers_touchAtNan :
    lenient.thresholdFor .selfTouch = .fin (1 / 2) ∧ touchAtNan.type.optional = true ∧
      touchAtNan ∈ (touchSeen .nan).events ∧
        ¬lenient.OpensOnNumbers (touchSeen .nan) touchAtNan := by
  have hthreshold : lenient.thresholdFor .selfTouch = .fin (1 / 2) := by decide +kernel
  have hgated : touchAtNan.type.optional = true := rfl
  have hbuildable : Buildable touchAtNan := by
    simp [Buildable, touchAtNan, IsSpan, VisualEventType.gaze]
  have hreaches : lenient.Reaches .selfTouch (.fin 1) := by
    rw [Reaches, hthreshold]
    decide +kernel
  refine ⟨hthreshold, hgated, List.mem_singleton_self _, fun h => ?_⟩
  have seen : (lenient.provenance (touchSeen .nan)).modality = .video := rfl
  obtain ⟨e, he⟩ := (exists_event_iff hgated seen).2 ⟨hbuildable, diagonal, rfl, hreaches⟩
  exact (h hgated e he).1 rfl

end VisualAssembler

end OratoriaEngine
