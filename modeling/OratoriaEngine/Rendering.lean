import OratoriaEngine.Document

/-!
# Rendering the evidence document

Everything observed goes out, as a JSON tree. The guard against ranking fields raises exactly on a
tree that has one of their names for a key, and what the renderers produce never has.
-/

namespace OratoriaEngine

def SpeechEventType.disfluent : SpeechEventType → Bool
  | .silentPause | .unintelligible => false
  | _ => true

def SpeechEvent.countsAsDisfluency (e : SpeechEvent) : Bool :=
  e.type.disfluent && (!e.type.lexical || e.contextRole = some .filler)

/-- The classes that report a capture problem rather than a behaviour. -/
def VisualEventType.quality : VisualEventType → Bool
  | .faceVisibilityLoss | .insufficientLighting | .insufficientFraming => true
  | _ => false

def VisualEvent.describesCaptureQuality (e : VisualEvent) : Bool := e.type.quality

def Indicator.isAvailable : Indicator → Bool
  | .measured _ => true
  | .unavailable _ => false

/-- The literal transcript, finalized and provisional, in order. -/
def Transcript.rawText (t : Transcript) : String := " ".intercalate (t.tokens.map (·.rawText))

def renderOption {α : Type} (render : α → Json) : Option α → Json
  | none => .null
  | some a => render a

def renderProvenance (provenance : Provenance) : Json :=
  .obj [
    ("modality", .str provenance.modality.value),
    ("model_version", .str provenance.modelVersion.value),
    ("taxonomy_version", .str (toString provenance.taxonomyVersion)),
    ("configuration_id", .str provenance.configuration.value),
    ("evidence_ref", .str provenance.evidenceRef.value)]

/-- A measurement, or the reason there is none; the two have no key in common. -/
def renderIndicator : Indicator → List (String × Json)
  | .measured m => [
      ("value", .float m.value),
      ("unit", .str m.unit),
      ("confidence", .float (.fin m.confidence.value)),
      ("calibration", .str m.confidence.state.value)]
  | .unavailable u => [("reason", .str u.reason.value), ("detail", .str u.detail)]

def renderToken (token : WordToken) : Json :=
  .obj [
    ("id", .str token.id.value),
    ("raw_text", .str token.rawText),
    ("start_ms", .int token.interval.start.ms),
    ("end_ms", .int token.interval.stop.ms),
    ("tolerance_ms", .int token.interval.toleranceMs),
    ("confidence", .float (.fin token.confidence.value)),
    ("calibration", .str token.confidence.state.value),
    ("status", .str token.status.value)]

def renderTranscript (transcript : Transcript) : Json :=
  .obj [
    ("raw_text", .str transcript.rawText),
    ("finalized_through_ms", .int transcript.finalizedFrontier.ms),
    ("tokens", .arr (transcript.tokens.map renderToken))]

def renderSpeechEvent (event : SpeechEvent) : Json :=
  .obj [
    ("id", .str event.id.value),
    ("type", .str event.type.value),
    ("start_ms", .int event.interval.start.ms),
    ("end_ms", .int event.interval.stop.ms),
    ("tolerance_ms", .int event.interval.toleranceMs),
    ("confidence", .float (.fin event.confidence.value)),
    ("calibration", .str event.confidence.state.value),
    ("raw_text", .str event.rawText),
    ("context_role", renderOption (fun role => .str role.value) event.contextRole),
    ("counts_as_disfluency", .bool event.countsAsDisfluency),
    ("is_final", .bool event.isFinal),
    ("provenance", renderProvenance event.provenance)]

def renderVisualEvent (event : VisualEvent) : Json :=
  .obj [
    ("id", .str event.id.value),
    ("type", .str event.type.value),
    ("start_ms", .int event.interval.start.ms),
    ("end_ms", .int event.interval.stop.ms),
    ("tolerance_ms", .int event.interval.toleranceMs),
    ("confidence", .float (.fin event.confidence.value)),
    ("calibration", .str event.confidence.state.value),
    ("direction", renderOption (fun direction => .str direction.value) event.direction),
    ("magnitude", renderOption .float event.magnitude),
    ("describes_capture_quality", .bool event.describesCaptureQuality),
    ("is_final", .bool event.isFinal),
    ("provenance", renderProvenance event.provenance)]

def renderProsody (reading : ProsodyReading) : Json :=
  .obj ([
    ("indicator", .str reading.indicator.value),
    ("start_ms", .int reading.window.start.ms),
    ("end_ms", .int reading.window.stop.ms),
    ("available", .bool reading.value.isAvailable)] ++ renderIndicator reading.value)

def renderAssessment (assessment : QualityAssessment) : Json :=
  .obj ([
    ("modality", .str assessment.modality.value),
    ("metric", .str assessment.metric.value),
    ("start_ms", .int assessment.window.start.ms),
    ("end_ms", .int assessment.window.stop.ms),
    ("available", .bool assessment.value.isAvailable)] ++ renderIndicator assessment.value)

def renderAvailability (record : ModalityAvailability) : Json :=
  .obj [
    ("modality", .str record.modality.value),
    ("start_ms", .int record.window.start.ms),
    ("end_ms", .int record.window.stop.ms),
    ("usable", .bool record.isUsable),
    ("reason", renderOption (fun reason => .str reason.value) record.reason),
    ("detail", .str record.detail)]

def renderQuality (report : QualityReport) : Json :=
  .obj [
    ("assessments", .arr (report.assessments.map renderAssessment)),
    ("availability", .arr (report.availability.map renderAvailability))]

def renderCooccurrence (pair : MultimodalCooccurrence) : Json :=
  .obj [
    ("speech_event_id", .str pair.speechEventId.value),
    ("visual_event_id", .str pair.visualEventId.value),
    ("temporal_distance_ms", .int pair.temporalDistanceMs),
    ("fusion_window_ms", .int pair.window.widthMs),
    ("causal_inference", .bool false)]

def renderManifest (manifest : ProvenanceManifest) : Json :=
  .obj [
    ("pipeline_version", .str (toString manifest.pipelineVersion)),
    ("schema_version", .str (toString manifest.schemaVersion)),
    ("taxonomy_version", .str (toString manifest.taxonomyVersion)),
    ("configuration_id", .str manifest.configuration.value),
    ("models", .obj (manifest.models.entries.map fun entry => (entry.1.value, .str entry.2.value)))]

/-- The complete result, as JSON-ready data. -/
def renderDocument (document : EvidenceDocument) (schemaVersion : String) : Json :=
  .obj [
    ("schema_version", .str schemaVersion),
    ("session_id", .str document.sessionId.value),
    ("run_id", .str document.runId.value),
    ("ranking_authority", .str "none"),
    ("manifest", renderManifest document.manifest),
    ("transcript", renderTranscript document.transcript),
    ("speech_events", .arr (document.speechEvents.map renderSpeechEvent)),
    ("visual_events", .arr (document.visualEvents.map renderVisualEvent)),
    ("prosody", .arr (document.prosody.map renderProsody)),
    ("cooccurrences", .arr (document.cooccurrences.map renderCooccurrence)),
    ("quality", renderQuality document.quality)]

/-- The key equals the name of a ranking field, but for the case of its letters. -/
def NamesRanking (key : String) : Prop := ∃ word ∈ forbiddenResultKeys, lower key = lower word

theorem isForbidden_iff (key : String) : isForbidden key = true ↔ NamesRanking key := by
  have hlower : ∀ word ∈ forbiddenResultKeys, lower word = word := by decide
  rw [isForbidden, decide_eq_true_eq, NamesRanking]
  constructor
  · intro h
    exact ⟨lower key, h, (hlower _ h).symm⟩
  · rintro ⟨word, hword, heq⟩
    rwa [heq, hlower word hword]

mutual

theorem forbiddenKeysIn_ne_nil_iff (path : String) :
    (node : Json) → (forbiddenKeysIn path node ≠ [] ↔ node.Mentions NamesRanking)
  | .null => iff_of_false (absurd rfl) nofun
  | .bool _ => iff_of_false (absurd rfl) nofun
  | .int _ => iff_of_false (absurd rfl) nofun
  | .float _ => iff_of_false (absurd rfl) nofun
  | .str _ => iff_of_false (absurd rfl) nofun
  | .arr items => (forbiddenKeysInItems_ne_nil_iff path 0 items).trans Json.mentions_arr_iff.symm
  | .obj entries => (forbiddenKeysInEntries_ne_nil_iff path entries).trans
      Json.mentions_obj_iff.symm

theorem forbiddenKeysInEntries_ne_nil_iff (path : String) :
    (entries : List (String × Json)) → (forbiddenKeysInEntries path entries ≠ [] ↔
      ∃ e ∈ entries, NamesRanking e.1 ∨ e.2.Mentions NamesRanking)
  | [] => iff_of_false (absurd rfl) (by simp)
  | (key, value) :: rest => by
      have hvalue := forbiddenKeysIn_ne_nil_iff (joinPath path key) value
      have hrest := forbiddenKeysInEntries_ne_nil_iff path rest
      rw [forbiddenKeysInEntries, List.exists_mem_cons_iff
        (fun e : String × Json => NamesRanking e.1 ∨ e.2.Mentions NamesRanking), ← hrest, ← hvalue,
        ← isForbidden_iff]
      by_cases h : isForbidden key = true <;> simp [h, imp_iff_not_or]

theorem forbiddenKeysInItems_ne_nil_iff (path : String) (index : ℕ) :
    (items : List Json) → (forbiddenKeysInItems path index items ≠ [] ↔
      ∃ value ∈ items, value.Mentions NamesRanking)
  | [] => iff_of_false (absurd rfl) (by simp)
  | value :: rest => by
      have hvalue := forbiddenKeysIn_ne_nil_iff s!"{path}[{index}]" value
      have hrest := forbiddenKeysInItems_ne_nil_iff path (index + 1) rest
      rw [forbiddenKeysInItems, List.exists_mem_cons_iff (Json.Mentions NamesRanking), ← hrest,
        ← hvalue]
      simp [imp_iff_not_or]

end

theorem assertCarriesNoRanking_error_iff (payload : Json) :
    (∃ failure, assertCarriesNoRanking payload = .error failure) ↔
      payload.Mentions NamesRanking := by
  have hsort : ((forbiddenKeysIn "" payload).dedup.insertionSort (· ≤ ·)).isEmpty = true ↔
      forbiddenKeysIn "" payload = [] := by
    rw [List.isEmpty_iff, ← List.length_eq_zero_iff, List.length_insertionSort,
      List.length_eq_zero_iff, List.dedup_eq_nil]
  rw [← forbiddenKeysIn_ne_nil_iff "", ne_eq, ← hsort]
  unfold assertCarriesNoRanking
  simp only
  split_ifs with h <;> simp [h]

theorem assertCarriesNoRanking_ok_iff (payload : Json) :
    assertCarriesNoRanking payload = .ok () ↔ ¬payload.Mentions NamesRanking := by
  rw [← assertCarriesNoRanking_error_iff]
  cases assertCarriesNoRanking payload <;> simp

def renderedKeys : List String :=
  ["schema_version", "session_id", "run_id", "ranking_authority", "manifest", "transcript",
    "speech_events", "visual_events", "prosody", "cooccurrences", "quality", "pipeline_version",
    "taxonomy_version", "configuration_id", "models", "audio", "video", "multimodal",
    "speech_event_id", "visual_event_id", "temporal_distance_ms", "fusion_window_ms",
    "causal_inference", "raw_text", "finalized_through_ms", "tokens", "id", "type", "start_ms",
    "end_ms", "tolerance_ms", "confidence", "calibration", "status", "context_role",
    "counts_as_disfluency", "is_final", "provenance", "direction", "magnitude",
    "describes_capture_quality", "indicator", "available", "value", "unit", "reason", "detail",
    "assessments", "availability", "modality", "metric", "usable", "model_version",
    "evidence_ref"]

theorem not_namesRanking_of_mem {key : String} (h : key ∈ renderedKeys) : ¬NamesRanking key := by
  have hall : ∀ key ∈ renderedKeys, isForbidden key = false := by decide
  rw [← isForbidden_iff, hall key h]
  exact Bool.false_ne_true

def Unranked (node : Json) : Prop := ¬node.Mentions NamesRanking

theorem unranked_obj {entries : List (String × Json)}
    (h : ∀ e ∈ entries, e.1 ∈ renderedKeys ∧ Unranked e.2) : Unranked (.obj entries) := by
  intro hmentions
  obtain ⟨e, he, hkey | hvalue⟩ := Json.mentions_obj_iff.1 hmentions
  · exact not_namesRanking_of_mem (h e he).1 hkey
  · exact (h e he).2 hvalue

theorem unranked_append {own rest : List (String × Json)}
    (hown : ∀ e ∈ own, e.1 ∈ renderedKeys ∧ Unranked e.2)
    (hrest : ∀ e ∈ rest, e.1 ∈ renderedKeys ∧ Unranked e.2) : Unranked (.obj (own ++ rest)) :=
  unranked_obj fun e he => (List.mem_append.1 he).elim (hown e) (hrest e)

theorem unranked_arr {items : List Json} (h : ∀ value ∈ items, Unranked value) :
    Unranked (.arr items) := by
  intro hmentions
  obtain ⟨value, hmem, hvalue⟩ := Json.mentions_arr_iff.1 hmentions
  exact h value hmem hvalue

theorem unranked_map {α : Type} {render : α → Json} (h : ∀ a, Unranked (render a)) (l : List α) :
    Unranked (.arr (l.map render)) :=
  unranked_arr (List.forall_mem_map.2 fun a _ => h a)

section Leaves

@[simp] theorem unranked_null : Unranked .null := nofun

@[simp] theorem unranked_bool (value : Bool) : Unranked (.bool value) := nofun

@[simp] theorem unranked_int (value : ℤ) : Unranked (.int value) := nofun

@[simp] theorem unranked_float (value : PyFloat) : Unranked (.float value) := nofun

@[simp] theorem unranked_str (value : String) : Unranked (.str value) := nofun

theorem unranked_renderOption {α : Type} {render : α → Json} (h : ∀ a, Unranked (render a))
    (o : Option α) : Unranked (renderOption render o) := by
  cases o with
  | none => exact unranked_null
  | some a => exact h a

end Leaves

theorem unranked_renderProvenance (provenance : Provenance) :
    Unranked (renderProvenance provenance) := by
  apply unranked_obj
  simp [renderedKeys]

theorem renderIndicator_unranked (indicator : Indicator) :
    ∀ e ∈ renderIndicator indicator, e.1 ∈ renderedKeys ∧ Unranked e.2 := by
  cases indicator <;> simp [renderIndicator, renderedKeys]

theorem unranked_renderToken (token : WordToken) : Unranked (renderToken token) := by
  apply unranked_obj
  simp [renderedKeys]

theorem unranked_renderTranscript (transcript : Transcript) :
    Unranked (renderTranscript transcript) := by
  have htokens := unranked_map unranked_renderToken transcript.tokens
  apply unranked_obj
  simp [renderedKeys, htokens]

theorem unranked_renderSpeechEvent (event : SpeechEvent) : Unranked (renderSpeechEvent event) := by
  have hrole := unranked_renderOption (fun role : ContextualRole => unranked_str role.value)
    event.contextRole
  have hprovenance := unranked_renderProvenance event.provenance
  apply unranked_obj
  simp [renderedKeys, hrole, hprovenance]

theorem unranked_renderVisualEvent (event : VisualEvent) : Unranked (renderVisualEvent event) := by
  have hdirection := unranked_renderOption
    (fun direction : GazeDirection => unranked_str direction.value) event.direction
  have hmagnitude := unranked_renderOption unranked_float event.magnitude
  have hprovenance := unranked_renderProvenance event.provenance
  apply unranked_obj
  simp [renderedKeys, hdirection, hmagnitude, hprovenance]

theorem unranked_renderProsody (reading : ProsodyReading) : Unranked (renderProsody reading) := by
  apply unranked_append _ (renderIndicator_unranked reading.value)
  simp [renderedKeys]

theorem unranked_renderAssessment (assessment : QualityAssessment) :
    Unranked (renderAssessment assessment) := by
  apply unranked_append _ (renderIndicator_unranked assessment.value)
  simp [renderedKeys]

theorem unranked_renderAvailability (record : ModalityAvailability) :
    Unranked (renderAvailability record) := by
  have hreason := unranked_renderOption
    (fun reason : UnavailabilityReason => unranked_str reason.value) record.reason
  apply unranked_obj
  simp [renderedKeys, hreason]

theorem unranked_renderQuality (report : QualityReport) : Unranked (renderQuality report) := by
  have hassessments := unranked_map unranked_renderAssessment report.assessments
  have havailability := unranked_map unranked_renderAvailability report.availability
  apply unranked_obj
  simp [renderedKeys, hassessments, havailability]

theorem unranked_renderCooccurrence (pair : MultimodalCooccurrence) :
    Unranked (renderCooccurrence pair) := by
  apply unranked_obj
  simp [renderedKeys]

theorem unranked_renderManifest (manifest : ProvenanceManifest) :
    Unranked (renderManifest manifest) := by
  have hmodels : Unranked (.obj (manifest.models.entries.map fun entry =>
      (entry.1.value, .str entry.2.value))) := by
    apply unranked_obj
    intro e he
    obtain ⟨⟨modality, model⟩, -, rfl⟩ := List.mem_map.1 he
    cases modality <;> simp [Modality.value, renderedKeys]
  apply unranked_obj
  simp [renderedKeys, hmodels]

theorem unranked_renderDocument (document : EvidenceDocument) (schemaVersion : String) :
    Unranked (renderDocument document schemaVersion) := by
  have hmanifest := unranked_renderManifest document.manifest
  have htranscript := unranked_renderTranscript document.transcript
  have hspeech := unranked_map unranked_renderSpeechEvent document.speechEvents
  have hvisual := unranked_map unranked_renderVisualEvent document.visualEvents
  have hprosody := unranked_map unranked_renderProsody document.prosody
  have hpairs := unranked_map unranked_renderCooccurrence document.cooccurrences
  have hquality := unranked_renderQuality document.quality
  apply unranked_obj
  simp [renderedKeys, hmanifest, htranscript, hspeech, hvisual, hprosody, hpairs, hquality]

/-- The guard raises exactly on a tree with a ranking field at some depth, and never on a rendered
document. -/
theorem guard_exact_and_rendering_unranked :
    (∀ payload : Json, (∃ failure, assertCarriesNoRanking payload = .error failure) ↔
      payload.Mentions NamesRanking) ∧
        ∀ (document : EvidenceDocument) (schemaVersion : String),
          assertCarriesNoRanking (renderDocument document schemaVersion) = .ok () :=
  ⟨assertCarriesNoRanking_error_iff, fun document schemaVersion =>
    (assertCarriesNoRanking_ok_iff _).2 (unranked_renderDocument document schemaVersion)⟩

end OratoriaEngine
