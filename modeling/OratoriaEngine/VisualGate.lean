import Mathlib.Data.List.ReduceOption
import OratoriaEngine.RuntimeOutput

/-!
# The gate on optional classes

The assembler drops a hypothesis of an optional class below the configured threshold; the event it
builds otherwise is refused below the threshold of the domain. A batch is assembled whole exactly
when every score has a confidence and none of them lies between the two thresholds.
-/

namespace OratoriaEngine.VisualAssembler

variable (a : VisualAssembler)

def thresholdFor (type : VisualEventType) : PyFloat :=
  (a.configuration.visualThresholds.lookup type.value).getD optionalClassMinConfidence

/-- The batch can be placed on the timeline, and a direction is given exactly for a gaze. -/
structure WellPosed (result : VisualResult) : Prop where
  events : ∀ hypothesis ∈ result.events, IsSpan hypothesis.startMs hypothesis.endMs
  quality : ∀ signal ∈ result.quality, IsSpan signal.startMs signal.endMs
  directed : ∀ hypothesis ∈ result.events,
    hypothesis.type.gaze = true ↔ hypothesis.direction ≠ none

def Yields (hypothesis : VisualEventHypothesis) : Option VisualEvent → Prop
  | none => hypothesis.type.optional = true
  | some e => e.type = hypothesis.type ∧ e.interval.start.ms = hypothesis.startMs ∧
      e.interval.stop.ms = hypothesis.endMs

/-- Every hypothesis is emitted once or counted, and what an optional class emits is confident
enough for the configuration and for the domain. -/
structure Accounts (result : VisualResult) (assembled : AssembledVisual) : Prop where
  total : assembled.events.length + assembled.gatedOut = result.events.length
  each : ∃ built, List.Forall₂ Yields result.events built ∧
    assembled.events = built.filterMap id ∧ assembled.gatedOut = built.countP (·.isNone)
  confident : ∀ e ∈ assembled.events, e.type.optional = true →
    e.confidence.isCalibrated = true ∧ e.confidence.meets (a.thresholdFor e.type) = true ∧
      e.confidence.meets optionalClassMinConfidence = true

/-- The score has a confidence, and that of an optional class does not lie between the configured
threshold and the one of the domain. -/
def Decides (hypothesis : VisualEventHypothesis) : Prop :=
  a.calibrator.Scores hypothesis.type.value hypothesis.score ∧
    (hypothesis.type.optional = true → ∀ confidence,
      a.calibrator.calibrate hypothesis.type.value hypothesis.score = .ok confidence →
        confidence.meets (a.thresholdFor hypothesis.type) = true →
          confidence.meets optionalClassMinConfidence = true)

variable {a} {result : VisualResult} {hypothesis : VisualEventHypothesis}

theorem soundEvent_iff (hspan : IsSpan hypothesis.startMs hypothesis.endMs)
    (hdirected : hypothesis.type.gaze = true ↔ hypothesis.direction ≠ none) :
    a.SoundEvent hypothesis ↔ a.Decides hypothesis := by
  rw [SoundEvent, Decides, ← Calibrator.calibrate_isOk_iff, ← exists_and_right]
  refine exists_congr fun confidence => and_congr_right fun hcalibrate => ?_
  rw [hcalibrate, thresholdFor]
  simp only [hspan, hdirected, true_and, Except.ok.injEq, forall_eq']
  cases hypothesis.type.optional
  · simp
  · simp only [true_and, true_implies]
    cases confidence.meets ((a.configuration.visualThresholds.lookup hypothesis.type.value).getD
      optionalClassMinConfidence) <;> simp

theorem yields_of_event {provenance : Provenance} {built : Option VisualEvent}
    (h : a.event hypothesis provenance = .ok built) :
    Yields hypothesis built ∧ ∀ e, built = some e → hypothesis.type.optional = true →
      e.confidence.meets (a.thresholdFor hypothesis.type) = true := by
  obtain ⟨confidence, -, h⟩ := Except.bind_eq_ok.1 h
  dsimp only at h
  split_ifs at h with hgate
  · cases h
    simp only [Bool.and_eq_true] at hgate
    exact ⟨hgate.1, by simp⟩
  · obtain ⟨interval, hinterval, h⟩ := Except.bind_eq_ok.1 h
    obtain ⟨e, he, rfl⟩ := Except.map_eq_ok.1 h
    obtain ⟨hstart, hstop, -⟩ := Interval.of_eq_ok hinterval
    unfold VisualEvent.of at he
    split_ifs at he
    cases he
    refine ⟨⟨rfl, hstart, hstop⟩, ?_⟩
    rintro e ⟨⟩ hoptional
    simpa [thresholdFor, hoptional] using hgate

theorem accounts_of_assemble {assembled : AssembledVisual}
    (h : a.assemble result = .ok assembled) : a.Accounts result assembled := by
  obtain ⟨built, hbuilt, h⟩ := Except.bind_eq_ok.1 h
  obtain ⟨graded, -, h⟩ := Except.bind_eq_ok.1 h
  cases h
  have hforall := Except.mapM_eq_ok hbuilt
  refine ⟨?_, ⟨built, hforall.imp fun _ _ hb => (yields_of_event hb).1, rfl, rfl⟩, ?_⟩
  · rw [hforall.length_eq, List.countP_eq_length_filter]
    exact (List.length_eq_reduceOption_length_add_filter_none (l := built)).symm
  · intro e he hoptional
    obtain ⟨_, hmem, rfl⟩ := List.mem_filterMap.1 he
    obtain ⟨hypothesis, -, hevent⟩ := Except.exists_mem_of_forall₂ hforall hmem
    obtain ⟨⟨htype, -⟩, hmeets⟩ := yields_of_event hevent
    rw [htype] at hoptional ⊢
    have hconfigured := hmeets e rfl hoptional
    refine ⟨?_, hconfigured, e.gated (by rw [htype]; exact hoptional)⟩
    rw [Confidence.meets, Bool.and_eq_true] at hconfigured
    exact hconfigured.1

/-- A well-posed batch is assembled, and accounted for, exactly when every score has a confidence
and none of an optional class lies between the two thresholds. -/
theorem assemble_accounts_iff (hposed : WellPosed result) :
    (∃ assembled, a.assemble result = .ok assembled ∧ a.Accounts result assembled) ↔
      ∀ hypothesis ∈ result.events, a.Decides hypothesis := by
  have haccounts : (∃ assembled, a.assemble result = .ok assembled ∧ a.Accounts result assembled) ↔
      ∃ assembled, a.assemble result = .ok assembled :=
    exists_congr fun _ => and_iff_left_of_imp accounts_of_assemble
  rw [haccounts, assemble_isOk_iff, and_iff_left hposed.quality]
  apply forall₂_congr
  intro hypothesis hmem
  exact soundEvent_iff (hposed.events hypothesis hmem) (hposed.directed hypothesis hmem)

def touchSeen (score : PyFloat) : VisualResult where
  modelVersion := Coordinator.sampleModel
  events := [⟨.selfTouch, 610, 920, score, none, none⟩]
  quality := []

theorem wellPosed_touchSeen (score : PyFloat) : WellPosed (touchSeen score) := by
  constructor <;> simp [touchSeen, IsSpan, VisualEventType.gaze]

/-- The default deployment has no curve for the class, so nothing of it passes the gate. -/
theorem accounts_touchSeen :
    ∃ assembled, (Coordinator.sample id).visualAssembler.assemble (touchSeen (.fin 1)) =
        .ok assembled ∧
      (Coordinator.sample id).visualAssembler.Accounts (touchSeen (.fin 1)) assembled := by
  apply (assemble_accounts_iff (wellPosed_touchSeen _)).2
  simp only [touchSeen, List.mem_singleton, forall_eq]
  refine ⟨PyFloat.noConfusion, fun _ confidence h hmeets => ?_⟩
  cases h
  exact absurd hmeets (by decide)

def diagonal : CalibrationCurve .double where
  points := [(.fin 0, 0), (.fin 1, 1)]
  enough := le_rfl
  rawsSorted := by decide
  probsSorted := by simp
  probsUnit := by simp
  representable := by simp [FloatFormat.double_has_zero, FloatFormat.double_has_one]

def lenient : VisualAssembler where
  runId := Coordinator.sampleRunId
  configuration := { defaultConfiguration with
    visualThresholds := Finmap.singleton "self_touch" (.fin (1 / 2)) }
  calibrator := ⟨fun _ => some diagonal⟩
  digest := id

/-- A score between the two thresholds passes the gate, and the event is refused. -/
theorem not_accounts_lenient :
    WellPosed (touchSeen (.fin (5 / 8))) ∧
      ¬∃ assembled, lenient.assemble (touchSeen (.fin (5 / 8))) = .ok assembled ∧
        lenient.Accounts (touchSeen (.fin (5 / 8))) assembled := by
  refine ⟨wellPosed_touchSeen _, ?_⟩
  rintro ⟨assembled, h, -⟩
  have hraises : (lenient.assemble (touchSeen (.fin (5 / 8)))).isOk = false := by
    decide +kernel
  rw [h] at hraises
  cases hraises

end OratoriaEngine.VisualAssembler
