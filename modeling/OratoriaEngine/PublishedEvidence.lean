import OratoriaEngine.PostgresEvidence
import OratoriaEngine.Rendering

/-!
# What a published document tells

Two documents are rendered alike exactly when they agree in everything but what the published shape
leaves out: the tolerances of measured windows, the provenance of readings, and the configuration
of the window that cooccurrences were fused in.
-/

namespace OratoriaEngine

section Elements

theorem Interval.eq_of_ms {window other : Interval} (hstart : window.start.ms = other.start.ms)
    (hstop : window.stop.ms = other.stop.ms) (htolerance : window.toleranceMs = other.toleranceMs) :
    window = other := Interval.ext (MonotonicTime.ext hstart) (MonotonicTime.ext hstop) htolerance

theorem Confidence.eq_of_value {confidence other : Confidence}
    (hvalue : confidence.value = other.value)
    (hstate : confidence.state.value = other.state.value) : confidence = other := by
  obtain ⟨value, state, _, _⟩ := confidence
  obtain ⟨value', state', _, _⟩ := other
  cases hvalue
  cases CalibrationState.enumeration.value_injective hstate
  rfl

theorem renderOption_inj {α : Type} {render : α → Json} (hrender : Function.Injective render)
    (hsome : ∀ a, render a ≠ .null) : Function.Injective (renderOption render) := by
  intro a b h
  cases a with
  | none =>
      cases b with
      | none => rfl
      | some b => exact absurd h.symm (hsome b)
  | some a =>
      cases b with
      | none => exact absurd h (hsome a)
      | some b => exact congrArg some (hrender h)

theorem toString_version_inj : Function.Injective (toString : SemanticVersion → String) := by
  intro version other h
  have hparse := SemanticVersion.parse_toString version
  rw [h, SemanticVersion.parse_toString] at hparse
  exact (Except.ok.inj hparse).symm

theorem renderProvenance_inj : Function.Injective renderProvenance := by
  intro provenance other h
  simp only [renderProvenance, Json.obj.injEq, List.cons.injEq, Prod.mk.injEq, Json.str.injEq,
    true_and, and_true] at h
  obtain ⟨hmodality, hmodel, htaxonomy, hconfiguration, href⟩ := h
  obtain ⟨modality, ⟨model⟩, taxonomy, ⟨configuration⟩, ⟨ref⟩⟩ := provenance
  obtain ⟨modality', ⟨model'⟩, taxonomy', ⟨configuration'⟩, ⟨ref'⟩⟩ := other
  cases Modality.enumeration.value_injective hmodality
  cases Identifier.ext_value hmodel
  cases toString_version_inj htaxonomy
  cases Identifier.ext_value hconfiguration
  cases Identifier.ext_value href
  rfl

theorem renderToken_inj : Function.Injective renderToken := by
  intro token other h
  simp only [renderToken, Json.obj.injEq, List.cons.injEq, Prod.mk.injEq, Json.str.injEq,
    Json.int.injEq, Json.float.injEq, PyFloat.fin.injEq, true_and, and_true] at h
  obtain ⟨hid, htext, hstart, hstop, htolerance, hvalue, hstate, hstatus⟩ := h
  obtain ⟨⟨id⟩, rawText, interval, confidence, status, _⟩ := token
  obtain ⟨⟨id'⟩, rawText', interval', confidence', status', _⟩ := other
  cases Identifier.ext_value hid
  cases htext
  cases Interval.eq_of_ms hstart hstop htolerance
  cases Confidence.eq_of_value hvalue hstate
  cases TokenStatus.enumeration.value_injective hstatus
  rfl

theorem renderSpeechEvent_inj : Function.Injective renderSpeechEvent := by
  intro event other h
  simp only [renderSpeechEvent, Json.obj.injEq, List.cons.injEq, Prod.mk.injEq, Json.str.injEq,
    Json.int.injEq, Json.float.injEq, Json.bool.injEq, PyFloat.fin.injEq, true_and, and_true] at h
  obtain ⟨hid, htype, hstart, hstop, htolerance, hvalue, hstate, htext, hrole, -, hfinal,
    hprovenance⟩ := h
  have hinj : Function.Injective fun role : ContextualRole => Json.str role.value :=
    fun role other h => ContextualRole.enumeration.value_injective (Json.str.inj h)
  have hroles := renderOption_inj hinj (fun role h => by cases h) hrole
  obtain ⟨⟨id⟩, type, interval, confidence, provenance, rawText, role, isFinal, _, _, _⟩ := event
  obtain ⟨⟨id'⟩, type', interval', confidence', provenance', rawText', role', isFinal', _, _, _⟩ :=
    other
  cases Identifier.ext_value hid
  cases SpeechEventType.enumeration.value_injective htype
  cases Interval.eq_of_ms hstart hstop htolerance
  cases Confidence.eq_of_value hvalue hstate
  cases htext
  cases hroles
  cases hfinal
  cases renderProvenance_inj hprovenance
  rfl

theorem renderVisualEvent_inj : Function.Injective renderVisualEvent := by
  intro event other h
  simp only [renderVisualEvent, Json.obj.injEq, List.cons.injEq, Prod.mk.injEq, Json.str.injEq,
    Json.int.injEq, Json.float.injEq, Json.bool.injEq, PyFloat.fin.injEq, true_and, and_true] at h
  obtain ⟨hid, htype, hstart, hstop, htolerance, hvalue, hstate, hdirection, hmagnitude, -, hfinal,
    hprovenance⟩ := h
  have hinj : Function.Injective fun direction : GazeDirection => Json.str direction.value :=
    fun direction other h => GazeDirection.enumeration.value_injective (Json.str.inj h)
  have hdirections := renderOption_inj hinj (fun direction h => by cases h) hdirection
  have hmagnitudes := renderOption_inj (fun magnitude other h => Json.float.inj h)
    (fun magnitude h => by cases h) hmagnitude
  obtain ⟨⟨id⟩, type, interval, confidence, provenance, direction, magnitude, isFinal, _, _, _⟩ :=
    event
  obtain ⟨⟨id'⟩, type', interval', confidence', provenance', direction', magnitude', isFinal',
    _, _, _⟩ := other
  cases Identifier.ext_value hid
  cases VisualEventType.enumeration.value_injective htype
  cases Interval.eq_of_ms hstart hstop htolerance
  cases Confidence.eq_of_value hvalue hstate
  cases hdirections
  cases hmagnitudes
  cases hfinal
  cases renderProvenance_inj hprovenance
  rfl

theorem renderIndicator_inj : Function.Injective renderIndicator := by
  intro indicator other h
  cases indicator with
  | measured m =>
      cases other with
      | measured m' =>
          simp only [renderIndicator, List.cons.injEq, Prod.mk.injEq, Json.str.injEq,
            Json.float.injEq, PyFloat.fin.injEq, true_and, and_true] at h
          obtain ⟨hvalue, hunit, hconfidence, hstate⟩ := h
          obtain ⟨value, confidence, unit⟩ := m
          obtain ⟨value', confidence', unit'⟩ := m'
          cases hvalue
          cases hunit
          cases Confidence.eq_of_value hconfidence hstate
          rfl
      | unavailable u => simp [renderIndicator] at h
  | unavailable u =>
      cases other with
      | measured m => simp [renderIndicator] at h
      | unavailable u' =>
          simp only [renderIndicator, List.cons.injEq, Prod.mk.injEq, Json.str.injEq, true_and,
            and_true] at h
          obtain ⟨hreason, hdetail⟩ := h
          obtain ⟨reason, detail⟩ := u
          obtain ⟨reason', detail'⟩ := u'
          cases UnavailabilityReason.enumeration.value_injective hreason
          cases hdetail
          rfl

end Elements

/-- Windows from the same start to the same end, whatever their tolerances. -/
structure Interval.SameSpan (window other : Interval) : Prop where
  start : window.start = other.start
  stop : window.stop = other.stop

structure ProsodyReading.PublishedAlike (reading other : ProsodyReading) : Prop where
  indicator : reading.indicator = other.indicator
  window : reading.window.SameSpan other.window
  value : reading.value = other.value

structure QualityAssessment.PublishedAlike (assessment other : QualityAssessment) : Prop where
  modality : assessment.modality = other.modality
  metric : assessment.metric = other.metric
  window : assessment.window.SameSpan other.window
  value : assessment.value = other.value

structure ModalityAvailability.PublishedAlike (record other : ModalityAvailability) : Prop where
  modality : record.modality = other.modality
  window : record.window.SameSpan other.window
  isUsable : record.isUsable = other.isUsable
  reason : record.reason = other.reason
  detail : record.detail = other.detail

structure MultimodalCooccurrence.PublishedAlike (pair other : MultimodalCooccurrence) : Prop where
  speechEventId : pair.speechEventId = other.speechEventId
  visualEventId : pair.visualEventId = other.visualEventId
  temporalDistanceMs : pair.temporalDistanceMs = other.temporalDistanceMs
  widthMs : pair.window.widthMs = other.window.widthMs

/-- Everything of the document but what the published shape leaves out. -/
structure EvidenceDocument.PublishedAlike (document other : EvidenceDocument) : Prop where
  sessionId : document.sessionId = other.sessionId
  runId : document.runId = other.runId
  manifest : document.manifest = other.manifest
  transcript : document.transcript = other.transcript
  speechEvents : document.speechEvents = other.speechEvents
  visualEvents : document.visualEvents = other.visualEvents
  prosody : List.Forall₂ ProsodyReading.PublishedAlike document.prosody other.prosody
  cooccurrences : List.Forall₂ MultimodalCooccurrence.PublishedAlike document.cooccurrences
    other.cooccurrences
  assessments : List.Forall₂ QualityAssessment.PublishedAlike document.quality.assessments
    other.quality.assessments
  availability : List.Forall₂ ModalityAvailability.PublishedAlike document.quality.availability
    other.quality.availability

section Published

theorem Interval.sameSpan_iff (window other : Interval) :
    window.SameSpan other ↔
      window.start.ms = other.start.ms ∧ window.stop.ms = other.stop.ms :=
  ⟨fun h => ⟨congrArg (·.ms) h.start, congrArg (·.ms) h.stop⟩,
    fun h => ⟨MonotonicTime.ext h.1, MonotonicTime.ext h.2⟩⟩

theorem renderProsody_eq_iff (reading other : ProsodyReading) :
    renderProsody reading = renderProsody other ↔ reading.PublishedAlike other := by
  constructor
  · intro h
    simp only [renderProsody, Json.obj.injEq, List.cons_append, List.nil_append, List.cons.injEq,
      Prod.mk.injEq, Json.str.injEq, Json.int.injEq, true_and] at h
    obtain ⟨hindicator, hstart, hstop, -, hvalue⟩ := h
    exact ⟨ProsodicIndicator.enumeration.value_injective hindicator,
      (Interval.sameSpan_iff _ _).2 ⟨hstart, hstop⟩, renderIndicator_inj hvalue⟩
  · rintro ⟨hindicator, ⟨hstart, hstop⟩, hvalue⟩
    rw [renderProsody, hindicator, hstart, hstop, hvalue, renderProsody]

theorem renderAssessment_eq_iff (assessment other : QualityAssessment) :
    renderAssessment assessment = renderAssessment other ↔ assessment.PublishedAlike other := by
  constructor
  · intro h
    simp only [renderAssessment, Json.obj.injEq, List.cons_append, List.nil_append,
      List.cons.injEq, Prod.mk.injEq, Json.str.injEq, Json.int.injEq, true_and] at h
    obtain ⟨hmodality, hmetric, hstart, hstop, -, hvalue⟩ := h
    exact ⟨Modality.enumeration.value_injective hmodality,
      QualityMetric.enumeration.value_injective hmetric,
      (Interval.sameSpan_iff _ _).2 ⟨hstart, hstop⟩, renderIndicator_inj hvalue⟩
  · rintro ⟨hmodality, hmetric, ⟨hstart, hstop⟩, hvalue⟩
    rw [renderAssessment, hmodality, hmetric, hstart, hstop, hvalue, renderAssessment]

theorem renderAvailability_eq_iff (record other : ModalityAvailability) :
    renderAvailability record = renderAvailability other ↔ record.PublishedAlike other := by
  constructor
  · intro h
    simp only [renderAvailability, Json.obj.injEq, List.cons.injEq, Prod.mk.injEq, Json.str.injEq,
      Json.int.injEq, Json.bool.injEq, true_and, and_true] at h
    obtain ⟨hmodality, hstart, hstop, husable, hreason, hdetail⟩ := h
    have hinj : Function.Injective fun reason : UnavailabilityReason => Json.str reason.value :=
      fun reason other h => UnavailabilityReason.enumeration.value_injective (Json.str.inj h)
    exact ⟨Modality.enumeration.value_injective hmodality,
      (Interval.sameSpan_iff _ _).2 ⟨hstart, hstop⟩, husable,
      renderOption_inj hinj (fun reason h => by cases h) hreason, hdetail⟩
  · rintro ⟨hmodality, ⟨hstart, hstop⟩, husable, hreason, hdetail⟩
    rw [renderAvailability, hmodality, hstart, hstop, husable, hreason, hdetail,
      renderAvailability]

theorem renderCooccurrence_eq_iff (pair other : MultimodalCooccurrence) :
    renderCooccurrence pair = renderCooccurrence other ↔ pair.PublishedAlike other := by
  constructor
  · intro h
    simp only [renderCooccurrence, Json.obj.injEq, List.cons.injEq, Prod.mk.injEq, Json.str.injEq,
      Json.int.injEq, true_and, and_true] at h
    obtain ⟨hspeech, hvisual, hdistance, hwidth⟩ := h
    exact ⟨EventId.ext_value hspeech, EventId.ext_value hvisual, hdistance, hwidth⟩
  · rintro ⟨hspeech, hvisual, hdistance, hwidth⟩
    rw [renderCooccurrence, hspeech, hvisual, hdistance, hwidth, renderCooccurrence]

theorem renderManifest_inj : Function.Injective renderManifest := by
  intro manifest other h
  simp only [renderManifest, Json.obj.injEq, List.cons.injEq, Prod.mk.injEq, Json.str.injEq,
    true_and, and_true] at h
  obtain ⟨hpipeline, hschema, htaxonomy, hconfiguration, hmodels⟩ := h
  have hinj : Function.Injective fun entry : Modality × ModelVersionId =>
      (entry.1.value, Json.str entry.2.value) := by
    rintro ⟨modality, ⟨model⟩⟩ ⟨modality', ⟨model'⟩⟩ h
    obtain ⟨hmodality, hmodel⟩ := Prod.mk.inj h
    cases Modality.enumeration.value_injective hmodality
    cases Identifier.ext_value (Json.str.inj hmodel)
    rfl
  obtain ⟨pipeline, schema, taxonomy, ⟨configuration⟩, models, _⟩ := manifest
  obtain ⟨pipeline', schema', taxonomy', ⟨configuration'⟩, models', _⟩ := other
  cases toString_version_inj hpipeline
  cases toString_version_inj hschema
  cases toString_version_inj htaxonomy
  cases Identifier.ext_value hconfiguration
  cases Dict.ext (hinj.list_map hmodels)
  rfl

theorem renderTranscript_inj : Function.Injective renderTranscript := by
  intro transcript other h
  simp only [renderTranscript, Json.obj.injEq, List.cons.injEq, Prod.mk.injEq, Json.arr.injEq,
    true_and, and_true] at h
  obtain ⟨-, -, htokens⟩ := h
  obtain ⟨tokens⟩ := transcript
  obtain ⟨tokens'⟩ := other
  cases renderToken_inj.list_map htokens
  rfl

theorem map_eq_map_iff {α β : Type} {render : α → β} {Alike : α → α → Prop}
    (h : ∀ a b, render a = render b ↔ Alike a b) (l k : List α) :
    l.map render = k.map render ↔ List.Forall₂ Alike l k := by
  rw [← List.forall₂_eq_eq_eq, List.forall₂_map_left_iff, List.forall₂_map_right_iff]
  simp only [h]

end Published

/-- Renderings are equal exactly when the schema versions are and the documents agree in all that
is published: nothing else of a document is lost on the way out. -/
theorem renderDocument_eq_iff (document other : EvidenceDocument)
    (schemaVersion schemaVersion' : String) :
    renderDocument document schemaVersion = renderDocument other schemaVersion' ↔
      schemaVersion = schemaVersion' ∧ document.PublishedAlike other := by
  constructor
  · intro h
    simp only [renderDocument, renderQuality, Json.obj.injEq, List.cons.injEq, Prod.mk.injEq,
      Json.str.injEq, Json.arr.injEq, true_and, and_true] at h
    obtain ⟨hschema, hsession, hrun, hmanifest, htranscript, hspeech, hvisual, hprosody, hpairs,
      hassessments, havailability⟩ := h
    exact ⟨hschema, {
      sessionId := SessionId.ext_value hsession
      runId := congrArg RunId.mk (Identifier.ext_value hrun)
      manifest := renderManifest_inj hmanifest
      transcript := renderTranscript_inj htranscript
      speechEvents := renderSpeechEvent_inj.list_map hspeech
      visualEvents := renderVisualEvent_inj.list_map hvisual
      prosody := (map_eq_map_iff renderProsody_eq_iff _ _).1 hprosody
      cooccurrences := (map_eq_map_iff renderCooccurrence_eq_iff _ _).1 hpairs
      assessments := (map_eq_map_iff renderAssessment_eq_iff _ _).1 hassessments
      availability := (map_eq_map_iff renderAvailability_eq_iff _ _).1 havailability }⟩
  · rintro ⟨rfl, h⟩
    have hprosody := (map_eq_map_iff renderProsody_eq_iff _ _).2 h.prosody
    have hpairs := (map_eq_map_iff renderCooccurrence_eq_iff _ _).2 h.cooccurrences
    have hassessments := (map_eq_map_iff renderAssessment_eq_iff _ _).2 h.assessments
    have havailability := (map_eq_map_iff renderAvailability_eq_iff _ _).2 h.availability
    simp only [renderDocument, renderQuality, h.sessionId, h.runId, h.manifest, h.transcript,
      h.speechEvents, h.visualEvents, hprosody, hpairs, hassessments, havailability]

end OratoriaEngine
