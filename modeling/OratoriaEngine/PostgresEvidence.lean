import OratoriaEngine.Completion
import OratoriaEngine.PostgresMapping

/-!
# The evidence repository on Postgres

A bundle is scattered over the rows of seven tables, and a run's bundle is put together again
from the rows of the run and the tenant, which come in no particular order. A prosody row holds
no provenance, so its reading inherits that of the run's audio.
-/

namespace OratoriaEngine

def Modality.enumeration : Enumeration Modality where
  typeName := "Modality"
  members := [.audio, .video, .multimodal]
  value := Modality.value
  stated modality := by cases modality <;> decide +kernel
  told modality := by cases modality <;> decide +kernel

def ProsodicIndicator.enumeration : Enumeration ProsodicIndicator where
  typeName := "ProsodicIndicator"
  members := [.meanIntensityDb, .pitchMeanHz, .pitchStability, .speakingRateWpm,
    .articulationRateSps, .meanPauseDurationMs, .voicedRatio]
  value := ProsodicIndicator.value
  stated indicator := by cases indicator <;> decide +kernel
  told indicator := by cases indicator <;> decide +kernel

def UnavailabilityReason.enumeration : Enumeration UnavailabilityReason where
  typeName := "UnavailabilityReason"
  members := [.modalityNotCaptured, .qualityBelowThreshold, .subjectNotObservable, .inputGap,
    .processingFailed, .confidenceBelowThreshold, .insufficientObservation, .evidenceDeleted]
  value := UnavailabilityReason.value
  stated reason := by cases reason <;> decide +kernel
  told reason := by cases reason <;> decide +kernel

def QualityMetric.enumeration : Enumeration QualityMetric where
  typeName := "QualityMetric"
  members := [.signalToNoiseDb, .clippingRatio, .silenceRatio, .inputLevelDbfs,
    .faceVisibilityRatio, .meanLuminance, .framingCoverage, .landmarkConfidence, .chunkLossRatio,
    .audioVideoSkewMs, .effectiveFrameRateFps]
  value := QualityMetric.value
  stated metric := by cases metric <;> decide +kernel
  told metric := by cases metric <;> decide +kernel

def ProsodyReading.make (indicator : ProsodicIndicator) (window : Interval) (value : Indicator)
    (provenance : Provenance) : Except Failure ProsodyReading :=
  match value with
  | .unavailable u => .ok (.unavailable indicator window u provenance)
  | .measured m =>
      if h : m.unit = indicator.unit then
        .ok ⟨indicator, window, .measured m, provenance, fun _ hm => by cases hm; exact h⟩
      else .error (.prosodyViolation
        s!"'{indicator.value}' is reported in {indicator.unit}, not '{m.unit}'")

def ModalityAvailability.make (modality : Modality) (window : Interval) (isUsable : Bool)
    (reason : Option UnavailabilityReason) (detail : String) :
    Except Failure ModalityAvailability :=
  if h : isUsable = true ↔ reason = none then .ok ⟨modality, window, isUsable, reason, detail, h⟩
  else if isUsable then .error (.qualityViolation
    s!"{modality.value} is usable but carries an unavailability reason")
  else .error (.qualityViolation
    (s!"{modality.value} was marked unusable without a reason; " ++
      "FR-025 requires the reason to travel with the absence"))

def FusionWindow.make (widthMs : ℤ) (configuration : ConfigurationSnapshotId) :
    Except Failure FusionWindow :=
  if h : 0 ≤ widthMs then .ok ⟨widthMs, configuration, h⟩
  else .error (.fusionViolation s!"fusion window cannot be negative: {widthMs}")

structure ProsodyReadingRow where
  runId : String
  tenantId : String
  indicator : String
  startMs : ℤ
  endMs : ℤ
  value : Option PyFloat
  unit : Option String
  confidence : Option PyFloat
  calibration : Option String
  reason : Option String
  detail : String

structure QualityAssessmentRow where
  runId : String
  tenantId : String
  modality : String
  metric : String
  startMs : ℤ
  endMs : ℤ
  value : Option PyFloat
  unit : Option String
  reason : Option String
  detail : String

structure ModalityAvailabilityRow where
  runId : String
  tenantId : String
  modality : String
  startMs : ℤ
  endMs : ℤ
  isUsable : Bool
  reason : Option String
  detail : String

structure CooccurrenceRow where
  runId : String
  tenantId : String
  speechEventId : String
  visualEventId : String
  temporalDistanceMs : ℤ
  fusionWindowMs : ℤ
  configurationId : String

/-- A measured reading leaves the reason null, an unavailable one the numbers. -/
def prosodyToRow (reading : ProsodyReading) (runId : String) (tenant : TenantId) :
    ProsodyReadingRow :=
  let row : ProsodyReadingRow :=
    ⟨runId, tenant.value, reading.indicator.value, reading.window.start.ms,
      reading.window.stop.ms, none, none, none, none, none, ""⟩
  match reading.value with
  | .measured m => { row with
      value := some m.value
      unit := some m.unit
      confidence := some (.fin m.confidence.value)
      calibration := some m.confidence.state.value }
  | .unavailable u => { row with
      reason := some u.reason.value
      detail := u.detail }

def textOr (text : Option String) (default : String) : String :=
  match text with
  | none => default
  | some text => if text = "" then default else text

def readUnavailable (reason : Option String) (detail : String) : Except Failure Indicator := do
  let reason ← parseMember UnavailabilityReason.enumeration (textOr reason "processing_failed")
  return .unavailable ⟨reason, detail⟩

def rowToProsody (row : ProsodyReadingRow) (provenance : Provenance) :
    Except Failure ProsodyReading := do
  let window ← Interval.of row.startMs row.endMs
  let indicator ← parseMember ProsodicIndicator.enumeration row.indicator
  match row.value, row.unit with
  | some value, some unit =>
      let confidence ← readConfidence (row.confidence.getD (.fin 0)) (textOr row.calibration "raw")
      ProsodyReading.make indicator window (.measured ⟨value, confidence, unit⟩) provenance
  | _, _ =>
      let value ← readUnavailable row.reason row.detail
      ProsodyReading.make indicator window value provenance

def assessmentToRow (assessment : QualityAssessment) (runId : String) (tenant : TenantId) :
    QualityAssessmentRow :=
  let row : QualityAssessmentRow :=
    ⟨runId, tenant.value, assessment.modality.value, assessment.metric.value,
      assessment.window.start.ms, assessment.window.stop.ms, none, none, none, ""⟩
  match assessment.value with
  | .measured m => { row with
      value := some m.value
      unit := some m.unit }
  | .unavailable u => { row with
      reason := some u.reason.value
      detail := u.detail }

/-- The confidence of a measurement is not stored; it is read as certain. -/
def rowToAssessment (row : QualityAssessmentRow) : Except Failure QualityAssessment := do
  let window ← Interval.of row.startMs row.endMs
  let value ← match row.value with
    | some value => pure (.measured ⟨value, .certain, textOr row.unit "ratio"⟩)
    | none => readUnavailable row.reason row.detail
  let modality ← parseMember Modality.enumeration row.modality
  let metric ← parseMember QualityMetric.enumeration row.metric
  return ⟨modality, metric, window, value⟩

def availabilityToRow (availability : ModalityAvailability) (runId : String) (tenant : TenantId) :
    ModalityAvailabilityRow where
  runId := runId
  tenantId := tenant.value
  modality := availability.modality.value
  startMs := availability.window.start.ms
  endMs := availability.window.stop.ms
  isUsable := availability.isUsable
  reason := availability.reason.map UnavailabilityReason.value
  detail := availability.detail

def rowToAvailability (row : ModalityAvailabilityRow) : Except Failure ModalityAvailability := do
  let modality ← parseMember Modality.enumeration row.modality
  let window ← Interval.of row.startMs row.endMs
  let reason ← parseMemberIfStated UnavailabilityReason.enumeration row.reason
  ModalityAvailability.make modality window row.isUsable reason row.detail

def cooccurrenceToRow (pair : MultimodalCooccurrence) (runId : String) (tenant : TenantId) :
    CooccurrenceRow where
  runId := runId
  tenantId := tenant.value
  speechEventId := pair.speechEventId.value
  visualEventId := pair.visualEventId.value
  temporalDistanceMs := pair.temporalDistanceMs
  fusionWindowMs := pair.window.widthMs
  configurationId := pair.window.configuration.value

def rowToCooccurrence (row : CooccurrenceRow) : Except Failure MultimodalCooccurrence := do
  let speechEventId ← EventId.mk <$> Identifier.of "EventId" row.speechEventId
  let visualEventId ← EventId.mk <$> Identifier.of "EventId" row.visualEventId
  let configuration ← ConfigurationSnapshotId.mk <$>
    Identifier.of "ConfigurationSnapshotId" row.configurationId
  let window ← FusionWindow.make row.fusionWindowMs configuration
  MultimodalCooccurrence.of speechEventId visualEventId row.temporalDistanceMs window

structure ProcessingRunRow where
  id : String
  sessionId : String

structure EvidenceRows where
  wordTokens : List WordTokenRow
  speechEvents : List SpeechEventRow
  visualEvents : List VisualEventRow
  prosodyReadings : List ProsodyReadingRow
  qualityAssessments : List QualityAssessmentRow
  modalityAvailability : List ModalityAvailabilityRow
  cooccurrences : List CooccurrenceRow

namespace EvidenceRows

def empty : EvidenceRows := ⟨[], [], [], [], [], [], []⟩

def append (rows more : EvidenceRows) : EvidenceRows where
  wordTokens := rows.wordTokens ++ more.wordTokens
  speechEvents := rows.speechEvents ++ more.speechEvents
  visualEvents := rows.visualEvents ++ more.visualEvents
  prosodyReadings := rows.prosodyReadings ++ more.prosodyReadings
  qualityAssessments := rows.qualityAssessments ++ more.qualityAssessments
  modalityAvailability := rows.modalityAvailability ++ more.modalityAvailability
  cooccurrences := rows.cooccurrences ++ more.cooccurrences

def ofRun (rows : EvidenceRows) (runId tenantId : String) : EvidenceRows where
  wordTokens := rows.wordTokens.filter fun r => r.runId = runId ∧ r.tenantId = tenantId
  speechEvents := rows.speechEvents.filter fun r => r.runId = runId ∧ r.tenantId = tenantId
  visualEvents := rows.visualEvents.filter fun r => r.runId = runId ∧ r.tenantId = tenantId
  prosodyReadings := rows.prosodyReadings.filter fun r => r.runId = runId ∧ r.tenantId = tenantId
  qualityAssessments :=
    rows.qualityAssessments.filter fun r => r.runId = runId ∧ r.tenantId = tenantId
  modalityAvailability :=
    rows.modalityAvailability.filter fun r => r.runId = runId ∧ r.tenantId = tenantId
  cooccurrences := rows.cooccurrences.filter fun r => r.runId = runId ∧ r.tenantId = tenantId

structure Rearranges (rows more : EvidenceRows) : Prop where
  wordTokens : rows.wordTokens.Perm more.wordTokens
  speechEvents : rows.speechEvents.Perm more.speechEvents
  visualEvents : rows.visualEvents.Perm more.visualEvents
  prosodyReadings : rows.prosodyReadings.Perm more.prosodyReadings
  qualityAssessments : rows.qualityAssessments.Perm more.qualityAssessments
  modalityAvailability : rows.modalityAvailability.Perm more.modalityAvailability
  cooccurrences : rows.cooccurrences.Perm more.cooccurrences

/-- No primary key and no pair of events of a run occurs twice. -/
structure Keyed (rows : EvidenceRows) : Prop where
  wordTokens : (rows.wordTokens.map (·.id)).Nodup
  speechEvents : (rows.speechEvents.map (·.id)).Nodup
  visualEvents : (rows.visualEvents.map (·.id)).Nodup
  pairs : (rows.cooccurrences.map fun r => (r.runId, r.speechEventId, r.visualEventId)).Nodup

instance (rows : EvidenceRows) : Decidable rows.Keyed :=
  decidable_of_iff ((rows.wordTokens.map (·.id)).Nodup ∧ (rows.speechEvents.map (·.id)).Nodup ∧
      (rows.visualEvents.map (·.id)).Nodup ∧
      (rows.cooccurrences.map fun r => (r.runId, r.speechEventId, r.visualEventId)).Nodup)
    ⟨fun ⟨h₁, h₂, h₃, h₄⟩ => ⟨h₁, h₂, h₃, h₄⟩, fun ⟨h₁, h₂, h₃, h₄⟩ => ⟨h₁, h₂, h₃, h₄⟩⟩

variable (rows more : EvidenceRows) (runId tenantId : String)

@[simp] theorem append_empty : rows.append empty = rows := by
  simp only [append, empty, List.append_nil]

theorem append_assoc (rest : EvidenceRows) :
    (rows.append more).append rest = rows.append (more.append rest) := by
  simp only [append, List.append_assoc]

theorem ofRun_append :
    (rows.append more).ofRun runId tenantId =
      (rows.ofRun runId tenantId).append (more.ofRun runId tenantId) := by
  simp only [append, ofRun, List.filter_append]

end EvidenceRows

def writeBundle (bundle : EvidenceBundle) : EvidenceRows where
  wordTokens := bundle.transcript.tokens.map (tokenToRow · bundle.runId.value bundle.tenant)
  speechEvents := bundle.speechEvents.map (speechEventToRow · bundle.runId.value bundle.tenant)
  visualEvents := bundle.visualEvents.map (visualEventToRow · bundle.runId.value bundle.tenant)
  prosodyReadings := bundle.prosody.map (prosodyToRow · bundle.runId.value bundle.tenant)
  qualityAssessments :=
    bundle.quality.assessments.map (assessmentToRow · bundle.runId.value bundle.tenant)
  modalityAvailability :=
    bundle.quality.availability.map (availabilityToRow · bundle.runId.value bundle.tenant)
  cooccurrences := bundle.cooccurrences.map (cooccurrenceToRow · bundle.runId.value bundle.tenant)

theorem isBlank_audio (runId : String) : isBlank ("audio:" ++ runId) = false :=
  isBlank_append_of_head (by decide) runId

/-- Provenance for a run that stored prosody but no speech events. -/
def syntheticAudioProvenance (runId : String) : Provenance where
  modality := .audio
  modelVersion := ⟨⟨"unknown", by decide⟩⟩
  taxonomyVersion := taxonomyVersion
  configuration := ⟨⟨"unknown", by decide⟩⟩
  evidenceRef := ⟨⟨"audio:" ++ runId, isBlank_audio runId⟩⟩

/-- `speech_events[0].provenance if speech_events else _synthetic_audio_provenance(run)`. -/
def audioProvenance (speechEvents : List SpeechEvent) (runId : String) : Provenance :=
  match speechEvents.head? with
  | some event => event.provenance
  | none => syntheticAudioProvenance runId

def Transcript.build (tokens : List WordToken) : Transcript :=
  ⟨tokens.insertionSort WordToken.orderingLe⟩

def readBundle (tenant : TenantId) (run : ProcessingRunRow) (rows : EvidenceRows) :
    Except Failure EvidenceBundle := do
  let speechEvents ← rows.speechEvents.mapM rowToSpeechEvent
  let visualEvents ← rows.visualEvents.mapM rowToVisualEvent
  let runId ← RunId.mk <$> Identifier.of "RunId" run.id
  let sessionId ← SessionId.of run.sessionId
  let tokens ← rows.wordTokens.mapM rowToToken
  let assessments ← rows.qualityAssessments.mapM rowToAssessment
  let availability ← rows.modalityAvailability.mapM rowToAvailability
  let prosody ← rows.prosodyReadings.mapM
    (rowToProsody · (audioProvenance speechEvents run.id))
  let cooccurrences ← rows.cooccurrences.mapM rowToCooccurrence
  return {
    runId := runId
    sessionId := sessionId
    tenant := tenant
    transcript := .build tokens
    quality := ⟨assessments, availability⟩
    speechEvents := speechEvents
    visualEvents := visualEvents
    prosody := prosody
    cooccurrences := cooccurrences }

/-- The window has the tolerance a row of readings or of quality is read with. -/
def Interval.Plain (window : Interval) : Prop := window.toleranceMs = defaultToleranceMs

theorem Interval.of_plain {window : Interval} (h : window.Plain) :
    Interval.of window.start.ms window.stop.ms = .ok window := by
  have hself := Interval.within_self window
  rwa [h] at hself

def QualityAssessment.Plain (assessment : QualityAssessment) : Prop :=
  assessment.window.Plain ∧
    ∀ m, assessment.value = .measured m → m.confidence = .certain ∧ m.unit ≠ ""

/-- The bundle holds nothing that its rows do not, provenance of its prosody apart. -/
structure EvidenceBundle.Plain (bundle : EvidenceBundle) : Prop where
  prosody : ∀ reading ∈ bundle.prosody, reading.window.Plain
  assessments : ∀ assessment ∈ bundle.quality.assessments, assessment.Plain
  availability : ∀ record ∈ bundle.quality.availability, record.window.Plain

theorem textOr_some {text : String} (h : text ≠ "") (default : String) :
    textOr (some text) default = text := if_neg h

theorem readUnavailable_value (u : Unavailable) :
    readUnavailable (some u.reason.value) u.detail = .ok (.unavailable u) := by
  have hreason : parseMember UnavailabilityReason.enumeration u.reason.value = .ok u.reason :=
    parseMember_value UnavailabilityReason.enumeration _
  have hstated : u.reason.value ≠ "" := UnavailabilityReason.enumeration.stated u.reason
  rw [readUnavailable, textOr_some hstated, hreason]
  rfl

def ProsodyReading.under (reading : ProsodyReading) (provenance : Provenance) : ProsodyReading :=
  { reading with provenance := provenance }

theorem rowToProsody_prosodyToRow (reading : ProsodyReading) (runId : String) (tenant : TenantId)
    (provenance : Provenance) (hplain : reading.window.Plain) :
    rowToProsody (prosodyToRow reading runId tenant) provenance =
      .ok (reading.under provenance) := by
  have hwindow := Interval.of_plain hplain
  have hindicator : parseMember ProsodicIndicator.enumeration reading.indicator.value =
      .ok reading.indicator := parseMember_value ProsodicIndicator.enumeration _
  obtain ⟨indicator, window, value, own, inUnit⟩ := reading
  dsimp only at hwindow hindicator
  cases value with
  | measured m =>
      have hstate : textOr (some m.confidence.state.value) "raw" = m.confidence.state.value :=
        textOr_some (CalibrationState.enumeration.stated _) "raw"
      simp only [rowToProsody, prosodyToRow, hwindow, hindicator, Option.getD_some, hstate,
        readConfidence_value, ProsodyReading.make, dif_pos (inUnit m rfl), bind, Except.bind]
      rfl
  | unavailable u =>
      simp only [rowToProsody, prosodyToRow, hwindow, hindicator, readUnavailable_value,
        ProsodyReading.make, bind, Except.bind]
      rfl

theorem rowToAssessment_assessmentToRow (assessment : QualityAssessment) (runId : String)
    (tenant : TenantId) (hplain : assessment.Plain) :
    rowToAssessment (assessmentToRow assessment runId tenant) = .ok assessment := by
  have hwindow := Interval.of_plain hplain.1
  have hmodality : parseMember Modality.enumeration assessment.modality.value =
      .ok assessment.modality := parseMember_value Modality.enumeration _
  have hmetric : parseMember QualityMetric.enumeration assessment.metric.value =
      .ok assessment.metric := parseMember_value QualityMetric.enumeration _
  obtain ⟨modality, metric, window, value⟩ := assessment
  dsimp only at hwindow hmodality hmetric
  cases value with
  | measured m =>
      obtain ⟨hcertain, hunit⟩ := hplain.2 m rfl
      simp only [rowToAssessment, assessmentToRow, hwindow, textOr_some hunit, hmodality, hmetric,
        ← hcertain, bind, Except.bind]
      rfl
  | unavailable u =>
      simp only [rowToAssessment, assessmentToRow, hwindow, readUnavailable_value, hmodality,
        hmetric, bind, Except.bind]
      rfl

theorem rowToAvailability_availabilityToRow (record : ModalityAvailability) (runId : String)
    (tenant : TenantId) (hplain : record.window.Plain) :
    rowToAvailability (availabilityToRow record runId tenant) = .ok record := by
  have hmodality : parseMember Modality.enumeration record.modality.value =
      .ok record.modality := parseMember_value Modality.enumeration _
  have hreason : parseMemberIfStated UnavailabilityReason.enumeration
      (record.reason.map UnavailabilityReason.value) = .ok record.reason :=
    parseMemberIfStated_value UnavailabilityReason.enumeration _
  have hrecord : ModalityAvailability.make record.modality record.window record.isUsable
      record.reason record.detail = .ok record := dif_pos record.reasoned
  simp only [rowToAvailability, availabilityToRow, hmodality, Interval.of_plain hplain, hreason,
    hrecord, bind, Except.bind]

theorem rowToCooccurrence_cooccurrenceToRow (pair : MultimodalCooccurrence) (runId : String)
    (tenant : TenantId) :
    rowToCooccurrence (cooccurrenceToRow pair runId tenant) = .ok pair := by
  have hconfiguration : (ConfigurationSnapshotId.mk <$> Identifier.of "ConfigurationSnapshotId"
      pair.window.configuration.value) = .ok pair.window.configuration :=
    Identifier.map_of_value ConfigurationSnapshotId.mk _ _
  have hwindow : FusionWindow.make pair.window.widthMs pair.window.configuration =
      .ok pair.window := dif_pos pair.window.nonneg
  have hpair : MultimodalCooccurrence.of pair.speechEventId pair.visualEventId
      pair.temporalDistanceMs pair.window = .ok pair := by
    rw [MultimodalCooccurrence.of, dif_pos pair.nonneg, dif_pos pair.admitted]
  simp only [rowToCooccurrence, cooccurrenceToRow, EventId.of_value, hconfiguration, hwindow,
    hpair, bind, Except.bind]

namespace EvidenceBundle

/-- The same bundle, up to the order of its collections. -/
structure SameEvidence (bundle other : EvidenceBundle) : Prop where
  runId : bundle.runId = other.runId
  sessionId : bundle.sessionId = other.sessionId
  tenant : bundle.tenant = other.tenant
  tokens : bundle.transcript.tokens.Perm other.transcript.tokens
  assessments : bundle.quality.assessments.Perm other.quality.assessments
  availability : bundle.quality.availability.Perm other.quality.availability
  speechEvents : bundle.speechEvents.Perm other.speechEvents
  visualEvents : bundle.visualEvents.Perm other.visualEvents
  prosody : bundle.prosody.Perm other.prosody
  cooccurrences : bundle.cooccurrences.Perm other.cooccurrences

def inheriting (bundle : EvidenceBundle) (provenance : Provenance) : EvidenceBundle :=
  { bundle with prosody := bundle.prosody.map (·.under provenance) }

theorem inheriting_of_own {bundle : EvidenceBundle} {provenance : Provenance}
    (h : ∀ reading ∈ bundle.prosody, reading.provenance = provenance) :
    bundle.inheriting provenance = bundle := by
  have hsame : bundle.prosody.map (·.under provenance) = bundle.prosody := by
    refine (List.map_congr_left fun reading hr => ?_).trans (List.map_id _)
    rw [ProsodyReading.under, ← h reading hr]
    rfl
  rw [inheriting, hsame]

/-- A provenance the run's audio has: that of a speech event or, without one, the synthetic. -/
def HasAudio (bundle : EvidenceBundle) (provenance : Provenance) : Prop :=
  (∃ event ∈ bundle.speechEvents, event.provenance = provenance) ∨
    bundle.speechEvents = [] ∧ provenance = syntheticAudioProvenance bundle.runId.value

theorem hasAudio_audioProvenance {bundle : EvidenceBundle} {speechEvents : List SpeechEvent}
    (hperm : speechEvents.Perm bundle.speechEvents) :
    bundle.HasAudio (audioProvenance speechEvents bundle.runId.value) := by
  cases speechEvents with
  | nil => exact .inr ⟨hperm.nil_eq.symm, rfl⟩
  | cons event rest => exact .inl ⟨event, hperm.subset List.mem_cons_self, rfl⟩

end EvidenceBundle

/-- The rows of a plain bundle, in any order, are read back as the bundle under the provenance of
its audio. -/
theorem readBundle_of_rearranges {bundle : EvidenceBundle} {run : ProcessingRunRow}
    {rows : EvidenceRows} (hplain : bundle.Plain) (hrun : run.id = bundle.runId.value)
    (hsession : run.sessionId = bundle.sessionId.value)
    (hrows : rows.Rearranges (writeBundle bundle)) :
    ∃ loaded provenance, readBundle bundle.tenant run rows = .ok loaded ∧
      bundle.HasAudio provenance ∧ loaded.SameEvidence (bundle.inheriting provenance) := by
  obtain ⟨tokens, htokens, hsameTokens⟩ := Except.mapM_perm_self rowToToken hrows.wordTokens
    fun token _ => rowToToken_tokenToRow token _ _
  obtain ⟨speechEvents, hspeech, hsameSpeech⟩ := Except.mapM_perm_self rowToSpeechEvent
    hrows.speechEvents fun event _ => rowToSpeechEvent_speechEventToRow event _ _
  obtain ⟨visualEvents, hvisual, hsameVisual⟩ := Except.mapM_perm_self rowToVisualEvent
    hrows.visualEvents fun event _ => rowToVisualEvent_visualEventToRow event _ _
  obtain ⟨assessments, hassessments, hsameAssessments⟩ := Except.mapM_perm_self rowToAssessment
    hrows.qualityAssessments fun assessment h =>
      rowToAssessment_assessmentToRow assessment _ _ (hplain.assessments assessment h)
  obtain ⟨availability, havailability, hsameAvailability⟩ := Except.mapM_perm_self
    rowToAvailability hrows.modalityAvailability fun record h =>
      rowToAvailability_availabilityToRow record _ _ (hplain.availability record h)
  obtain ⟨cooccurrences, hpairs, hsamePairs⟩ := Except.mapM_perm_self rowToCooccurrence
    hrows.cooccurrences fun pair _ => rowToCooccurrence_cooccurrenceToRow pair _ _
  obtain ⟨prosody, hprosody, hsameProsody⟩ := Except.mapM_perm_map
    (rowToProsody · (audioProvenance speechEvents run.id)) hrows.prosodyReadings
    fun reading h => rowToProsody_prosodyToRow reading _ _ _ (hplain.prosody reading h)
  have hrunId : (RunId.mk <$> Identifier.of "RunId" run.id) = .ok bundle.runId := by
    rw [hrun, Identifier.of_value]
    rfl
  have hsessionId : SessionId.of run.sessionId = .ok bundle.sessionId := by
    rw [hsession, SessionId.of_value]
  have hread : readBundle bundle.tenant run rows = .ok {
      runId := bundle.runId
      sessionId := bundle.sessionId
      tenant := bundle.tenant
      transcript := .build tokens
      quality := ⟨assessments, availability⟩
      speechEvents := speechEvents
      visualEvents := visualEvents
      prosody := prosody
      cooccurrences := cooccurrences } := by
    simp only [readBundle, htokens, hspeech, hvisual, hassessments, havailability, hpairs, hprosody,
      hrunId, hsessionId, bind, Except.bind]
    rfl
  have haudio := EvidenceBundle.hasAudio_audioProvenance hsameSpeech
  rw [← hrun] at haudio
  exact ⟨_, _, hread, haudio, {
    runId := rfl
    sessionId := rfl
    tenant := rfl
    tokens := (List.perm_insertionSort _ _).trans hsameTokens
    assessments := hsameAssessments
    availability := hsameAvailability
    speechEvents := hsameSpeech
    visualEvents := hsameVisual
    prosody := hsameProsody
    cooccurrences := hsamePairs }⟩

/-- The tables of the repository and the runs its rows belong to. -/
structure EvidenceTables where
  runs : Dict String ProcessingRunRow
  keyed : ∀ key run, runs.get? key = some run → run.id = key
  rows : EvidenceRows

/-- The server answers the queries of one load with the rows they select, in an order of its
own. -/
structure EvidenceServer where
  answer : EvidenceRows → EvidenceRows
  rearranges : ∀ rows, (answer rows).Rearranges rows

namespace EvidenceTables

variable (tables : EvidenceTables)

def fresh : EvidenceTables := ⟨.empty, fun _ _ h => (nomatch h), .empty⟩

def saveRun (run : ProcessingRunRow) : EvidenceTables where
  runs := tables.runs.set run.id run
  keyed := by
    intro key row h
    rw [Dict.get?_set] at h
    split_ifs at h with hkey
    · cases h
      exact hkey.symm
    · exact tables.keyed key row h
  rows := tables.rows

/-- Store the rows of a bundle in one transaction, which fails as a whole when the run is unknown
or a key is taken. -/
def store (bundle : EvidenceBundle) : Option EvidenceTables :=
  let rows := tables.rows.append (writeBundle bundle)
  if (tables.runs.get? bundle.runId.value).isSome ∧ rows.Keyed then
    some { tables with rows := rows }
  else none

/-- The run is looked up by its identifier alone. -/
def load (server : EvidenceServer) (tenant : TenantId) (runId : RunId) :
    Except Failure (Option EvidenceBundle) :=
  match tables.runs.get? runId.value with
  | none => .ok none
  | some run =>
      some <$> readBundle tenant run (server.answer (tables.rows.ofRun run.id tenant.value))

end EvidenceTables

end OratoriaEngine
