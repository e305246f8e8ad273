import OratoriaEngine.Lib.Enumeration
import OratoriaEngine.Commands
import OratoriaEngine.PostgresConfiguration

/-!
# Rows and domain values

Sessions, consent receipts, tokens and events as rows, and back. An enumeration is stored as the
text of its member and a version as its text; a value is read through its constructor, which
checks it again. What was written is read as what it was.
-/

namespace OratoriaEngine

/-- `T(text)` for an enumeration `T`. -/
def parseMember {α : Type} (e : Enumeration α) (text : String) : Except Failure α :=
  match e.read? text with
  | some a => .ok a
  | none => .error (.valueError s!"'{text}' is not a valid {e.typeName}")

/-- `T(text) if text else None`. -/
def parseMemberIfStated {α : Type} (e : Enumeration α) : Option String → Except Failure (Option α)
  | none => .ok none
  | some text => if text = "" then .ok none else some <$> parseMember e text

@[simp] theorem parseMember_value {α : Type} (e : Enumeration α) (a : α) :
    parseMember e (e.value a) = .ok a := by
  rw [parseMember, Enumeration.read?_value]

@[simp] theorem parseMemberIfStated_value {α : Type} (e : Enumeration α) (a : Option α) :
    parseMemberIfStated e (a.map e.value) = .ok a := by
  cases a with
  | none => rfl
  | some a =>
      rw [Option.map_some, parseMemberIfStated, if_neg (e.stated a), parseMember_value]
      rfl

def SessionMode.enumeration : Enumeration SessionMode where
  typeName := "SessionMode"
  members := [.realtime, .batch]
  value := SessionMode.value
  stated mode := by cases mode <;> decide +kernel
  told mode := by cases mode <;> decide +kernel

def SessionState.enumeration : Enumeration SessionState where
  typeName := "SessionState"
  members := [.created, .capturing, .paused, .completing, .completed, .failed, .evidenceDeleted]
  value := SessionState.value
  stated state := by cases state <;> decide +kernel
  told state := by cases state <;> decide +kernel

def AudioCodec.value : AudioCodec → String
  | .pcm16 => "pcm16"
  | .flac => "flac"
  | .opus => "opus"
  | .aac => "aac"

def AudioCodec.enumeration : Enumeration AudioCodec where
  typeName := "AudioCodec"
  members := [.pcm16, .flac, .opus, .aac]
  value := AudioCodec.value
  stated codec := by cases codec <;> decide +kernel
  told codec := by cases codec <;> decide +kernel

def VideoFormat.enumeration : Enumeration VideoFormat where
  typeName := "VideoFormat"
  members := [.jpegFrames, .pngFrames, .landmarks]
  value := VideoFormat.value
  stated format := by cases format <;> decide +kernel
  told format := by cases format <;> decide +kernel

def CalibrationState.enumeration : Enumeration CalibrationState where
  typeName := "CalibrationState"
  members := [.raw, .calibrated]
  value := CalibrationState.value
  stated state := by cases state <;> decide +kernel
  told state := by cases state <;> decide +kernel

def TokenStatus.enumeration : Enumeration TokenStatus where
  typeName := "TokenStatus"
  members := [.provisional, .final]
  value := TokenStatus.value
  stated status := by cases status <;> decide +kernel
  told status := by cases status <;> decide +kernel

def SpeechEventType.enumeration : Enumeration SpeechEventType where
  typeName := "SpeechEventType"
  members := [.filledPause, .lexicalFiller, .repetition, .falseStart, .selfRepair, .cutOff,
    .prolongation, .silentPause, .unintelligible]
  value := SpeechEventType.value
  stated type := by cases type <;> decide +kernel
  told type := by cases type <;> decide +kernel

def ContextualRole.enumeration : Enumeration ContextualRole where
  typeName := "ContextualRole"
  members := [.filler, .semantic, .discourseMarker, .uncertain]
  value := ContextualRole.value
  stated role := by cases role <;> decide +kernel
  told role := by cases role <;> decide +kernel

def VisualEventType.enumeration : Enumeration VisualEventType where
  typeName := "VisualEventType"
  members := [.gazeTowardCamera, .gazeAwayFromCamera, .faceVisibilityLoss, .insufficientLighting,
    .insufficientFraming, .postureDeviation, .repetitiveTorsoMovement, .selfTouch,
    .repetitiveHandMovement]
  value := VisualEventType.value
  stated type := by cases type <;> decide +kernel
  told type := by cases type <;> decide +kernel

def GazeDirection.enumeration : Enumeration GazeDirection where
  typeName := "GazeDirection"
  members := [.up, .down, .left, .right, .undetermined]
  value := GazeDirection.value
  stated direction := by cases direction <;> decide +kernel
  told direction := by cases direction <;> decide +kernel

def RetentionPolicy.make (policyVersion : SemanticVersion) (retainRawMedia : Bool)
    (rawMediaTtlSeconds : ℤ) (retainDerivedAggregates : Bool) : Except Failure RetentionPolicy :=
  if hnonneg : 0 ≤ rawMediaTtlSeconds then
    if hstated : retainRawMedia = true ↔ rawMediaTtlSeconds ≠ 0 then
      .ok ⟨policyVersion, retainRawMedia, rawMediaTtlSeconds, retainDerivedAggregates, hnonneg,
        hstated⟩
    else if retainRawMedia then
      .error (.consentViolation
        ("a policy that retains raw media must state a positive TTL; " ++
          "NFR-011 forbids indefinite retention by default"))
    else .error (.consentViolation
      "a policy that does not retain raw media cannot declare a TTL")
  else .error (.consentViolation "retention TTL cannot be negative")

def ConsentReceipt.make (sessionId : SessionId) (policyVersion : SemanticVersion)
    (retention : RetentionPolicy) (grantedAtMs : ℤ) (withdrawnAtMs : Option ℤ) :
    Except Failure ConsentReceipt :=
  if hgranted : 0 ≤ grantedAtMs then
    if hwithdrawn : ∀ t ∈ withdrawnAtMs, grantedAtMs ≤ t then
      if hpolicy : retention.policyVersion = policyVersion then
        .ok ⟨sessionId, policyVersion, retention, grantedAtMs, withdrawnAtMs, hgranted,
          hwithdrawn, hpolicy⟩
      else .error (.consentViolation
        ("the retention policy version must match the consented policy version; " ++
          "otherwise the receipt attests to rules the participant never saw"))
    else .error (.consentViolation "consent cannot be withdrawn before it was granted")
  else .error (.consentViolation "consent timestamp cannot be negative")

def SessionClock.make (accumulatedMs : ℤ) (segmentStartedAt : Option ℤ) :
    Except Failure SessionClock :=
  if h : 0 ≤ accumulatedMs then .ok ⟨accumulatedMs, segmentStartedAt, h⟩
  else .error (.illegalSessionTransition "accumulated capture time cannot be negative")

def Interval.within (startMs endMs toleranceMs : ℤ) : Except Failure Interval := do
  let start ← MonotonicTime.of startMs
  let stop ← MonotonicTime.of endMs
  Interval.make start stop toleranceMs

@[simp] theorem Interval.within_self (i : Interval) :
    Interval.within i.start.ms i.stop.ms i.toleranceMs = .ok i := by
  have htime : ∀ t : MonotonicTime, MonotonicTime.of t.ms = .ok t :=
    fun t => (MonotonicTime.of_eq_ok_iff t.ms t).2 rfl
  simp only [within, htime, bind, Except.bind, make, dif_pos i.ordered, dif_pos i.tolerant]

@[simp] theorem Confidence.of_self (c : Confidence) :
    Confidence.of (.fin c.value) c.state = .ok c := dif_pos ⟨c.nonneg, c.le_one⟩

structure CapabilitiesPayload where
  audioCodec : String
  sampleRateHz : ℤ
  locale : String
  videoFormat : Option String
  frameRateFps : Option ℤ

structure AnalysisSessionRow where
  id : String
  tenantId : String
  applicationId : String
  mode : String
  locale : String
  state : String
  configurationId : String
  capabilities : CapabilitiesPayload
  createdAtMs : ℤ
  completedAtMs : Option ℤ
  clockAccumulatedMs : ℤ
  clockSegmentStartedAt : Option ℤ

structure ConsentReceiptRow where
  sessionId : String
  policyVersion : String
  retainRawMedia : Bool
  rawMediaTtlSeconds : ℤ
  retainDerivedAggregates : Bool
  grantedAtMs : ℤ
  withdrawnAtMs : Option ℤ

def capabilitiesToJson (capabilities : NegotiatedCapabilities) : CapabilitiesPayload where
  audioCodec := capabilities.audioCodec.value
  sampleRateHz := capabilities.sampleRateHz
  locale := capabilities.locale
  videoFormat := capabilities.videoFormat.map VideoFormat.value
  frameRateFps := capabilities.frameRateFps

def capabilitiesFromJson (payload : CapabilitiesPayload) :
    Except Failure NegotiatedCapabilities := do
  let audioCodec ← parseMember AudioCodec.enumeration payload.audioCodec
  let videoFormat ← parseMemberIfStated VideoFormat.enumeration payload.videoFormat
  return {
    audioCodec := audioCodec
    sampleRateHz := payload.sampleRateHz
    locale := payload.locale
    videoFormat := videoFormat
    frameRateFps := payload.frameRateFps }

def sessionToRow (session : AnalysisSession) : AnalysisSessionRow where
  id := session.id.value
  tenantId := session.tenantId.value
  applicationId := session.applicationId.value
  mode := session.mode.value
  locale := session.locale
  state := session.state.value
  configurationId := session.configuration.value
  capabilities := capabilitiesToJson session.capabilities
  createdAtMs := session.createdAtMs
  completedAtMs := session.completedAtMs
  clockAccumulatedMs := session.clock.accumulatedMs
  clockSegmentStartedAt := session.clock.segmentStartedAt

def consentToRow (sessionId : SessionId) (receipt : ConsentReceipt) : ConsentReceiptRow where
  sessionId := sessionId.value
  policyVersion := toString receipt.policyVersion
  retainRawMedia := receipt.retention.retainRawMedia
  rawMediaTtlSeconds := receipt.retention.rawMediaTtlSeconds
  retainDerivedAggregates := receipt.retention.retainDerivedAggregates
  grantedAtMs := receipt.grantedAtMs
  withdrawnAtMs := receipt.withdrawnAtMs

def rowToConsent (row : ConsentReceiptRow) : Except Failure ConsentReceipt := do
  let policyVersion ← SemanticVersion.parse row.policyVersion
  let sessionId ← SessionId.of row.sessionId
  let retention ← RetentionPolicy.make policyVersion row.retainRawMedia row.rawMediaTtlSeconds
    row.retainDerivedAggregates
  ConsentReceipt.make sessionId policyVersion retention row.grantedAtMs row.withdrawnAtMs

def rowToSession (row : AnalysisSessionRow) (consent : Option ConsentReceiptRow) :
    Except Failure AnalysisSession := do
  let id ← SessionId.of row.id
  let applicationId ← ApplicationId.mk <$> Identifier.of "ApplicationId" row.applicationId
  let tenantId ← TenantId.mk <$> Identifier.of "TenantId" row.tenantId
  let mode ← parseMember SessionMode.enumeration row.mode
  let capabilities ← capabilitiesFromJson row.capabilities
  let configuration ← ConfigurationSnapshotId.mk <$>
    Identifier.of "ConfigurationSnapshotId" row.configurationId
  let state ← parseMember SessionState.enumeration row.state
  let clock ← SessionClock.make row.clockAccumulatedMs row.clockSegmentStartedAt
  let consent ← consent.mapM rowToConsent
  return {
    id := id
    applicationId := applicationId
    tenantId := tenantId
    mode := mode
    locale := row.locale
    capabilities := capabilities
    configuration := configuration
    createdAtMs := row.createdAtMs
    state := state
    clock := clock
    consent := consent
    completedAtMs := row.completedAtMs }

theorem capabilitiesFromJson_capabilitiesToJson (capabilities : NegotiatedCapabilities) :
    capabilitiesFromJson (capabilitiesToJson capabilities) = .ok capabilities := by
  have hcodec : parseMember AudioCodec.enumeration capabilities.audioCodec.value =
      .ok capabilities.audioCodec := parseMember_value AudioCodec.enumeration _
  have hformat : parseMemberIfStated VideoFormat.enumeration
      (capabilities.videoFormat.map VideoFormat.value) = .ok capabilities.videoFormat :=
    parseMemberIfStated_value VideoFormat.enumeration _
  simp only [capabilitiesFromJson, capabilitiesToJson, hcodec, hformat, bind, Except.bind]
  rfl

theorem rowToConsent_consentToRow {sessionId : SessionId} (receipt : ConsentReceipt)
    (hown : receipt.sessionId = sessionId) :
    rowToConsent (consentToRow sessionId receipt) = .ok receipt := by
  have hretention : RetentionPolicy.make receipt.policyVersion receipt.retention.retainRawMedia
      receipt.retention.rawMediaTtlSeconds receipt.retention.retainDerivedAggregates =
        .ok receipt.retention := by
    rw [RetentionPolicy.make, dif_pos receipt.retention.ttlNonneg,
      dif_pos receipt.retention.ttlStated]
    simp only [← receipt.samePolicy]
  have hreceipt : ConsentReceipt.make receipt.sessionId receipt.policyVersion receipt.retention
      receipt.grantedAtMs receipt.withdrawnAtMs = .ok receipt := by
    rw [ConsentReceipt.make, dif_pos receipt.grantedNonneg, dif_pos receipt.withdrawnAfter,
      dif_pos receipt.samePolicy]
  subst hown
  simp only [rowToConsent, consentToRow, SemanticVersion.parse_toString, SessionId.of_value,
    hretention, hreceipt, bind, Except.bind]

theorem rowToSession_sessionToRow (session : AnalysisSession)
    (hown : ∀ receipt ∈ session.consent, receipt.sessionId = session.id) :
    rowToSession (sessionToRow session) (session.consent.map (consentToRow session.id)) =
      .ok session := by
  have hmode : parseMember SessionMode.enumeration session.mode.value = .ok session.mode :=
    parseMember_value SessionMode.enumeration _
  have hstate : parseMember SessionState.enumeration session.state.value = .ok session.state :=
    parseMember_value SessionState.enumeration _
  have hclock : SessionClock.make session.clock.accumulatedMs session.clock.segmentStartedAt =
      .ok session.clock := dif_pos session.clock.nonneg
  have hconsent : (session.consent.map (consentToRow session.id)).mapM rowToConsent =
      .ok session.consent := by
    cases hreceipt : session.consent with
    | none => rfl
    | some receipt =>
        exact congrArg (some <$> ·) (rowToConsent_consentToRow receipt (hown receipt hreceipt))
  simp only [rowToSession, sessionToRow, SessionId.of_value, Identifier.of_value, hmode,
    capabilitiesFromJson_capabilitiesToJson, hstate, hclock, hconsent, bind, Except.bind]
  rfl

structure WordTokenRow where
  id : String
  runId : String
  tenantId : String
  rawText : String
  startMs : ℤ
  endMs : ℤ
  toleranceMs : ℤ
  confidence : PyFloat
  calibration : String
  status : String

structure EventRow where
  id : String
  runId : String
  tenantId : String
  startMs : ℤ
  endMs : ℤ
  toleranceMs : ℤ
  confidence : PyFloat
  calibration : String
  isFinal : Bool
  modelVersion : String
  taxonomyVersion : String
  configurationId : String
  evidenceRef : String

structure SpeechEventRow extends EventRow where
  type : String
  rawText : String
  contextRole : Option String

structure VisualEventRow extends EventRow where
  type : String
  direction : Option String
  magnitude : Option PyFloat

def tokenToRow (token : WordToken) (runId : String) (tenant : TenantId) : WordTokenRow where
  id := token.id.value
  runId := runId
  tenantId := tenant.value
  rawText := token.rawText
  startMs := token.interval.start.ms
  endMs := token.interval.stop.ms
  toleranceMs := token.interval.toleranceMs
  confidence := .fin token.confidence.value
  calibration := token.confidence.state.value
  status := token.status.value

def readConfidence (value : PyFloat) (calibration : String) : Except Failure Confidence := do
  let state ← parseMember CalibrationState.enumeration calibration
  Confidence.of value state

def rowToToken (row : WordTokenRow) : Except Failure WordToken := do
  let id ← TokenId.mk <$> Identifier.of "TokenId" row.id
  let interval ← Interval.within row.startMs row.endMs row.toleranceMs
  let confidence ← readConfidence row.confidence row.calibration
  let status ← parseMember TokenStatus.enumeration row.status
  let token ← WordToken.of id row.rawText interval confidence
  return { token with status := status }

def eventToRow (id : EventId) (interval : Interval) (confidence : Confidence)
    (provenance : Provenance) (isFinal : Bool) (runId : String) (tenant : TenantId) :
    EventRow where
  id := id.value
  runId := runId
  tenantId := tenant.value
  startMs := interval.start.ms
  endMs := interval.stop.ms
  toleranceMs := interval.toleranceMs
  confidence := .fin confidence.value
  calibration := confidence.state.value
  isFinal := isFinal
  modelVersion := provenance.modelVersion.value
  taxonomyVersion := toString provenance.taxonomyVersion
  configurationId := provenance.configuration.value
  evidenceRef := provenance.evidenceRef.value

def readProvenance (row : EventRow) (modality : Modality) : Except Failure Provenance := do
  let modelVersion ← ModelVersionId.mk <$> Identifier.of "ModelVersionId" row.modelVersion
  let taxonomyVersion ← SemanticVersion.parse row.taxonomyVersion
  let configuration ← ConfigurationSnapshotId.mk <$>
    Identifier.of "ConfigurationSnapshotId" row.configurationId
  let evidenceRef ← EvidenceRef.mk <$> Identifier.of "EvidenceRef" row.evidenceRef
  return ⟨modality, modelVersion, taxonomyVersion, configuration, evidenceRef⟩

def speechEventToRow (event : SpeechEvent) (runId : String) (tenant : TenantId) :
    SpeechEventRow where
  toEventRow := eventToRow event.id event.interval event.confidence event.provenance
    event.isFinal runId tenant
  type := event.type.value
  rawText := event.rawText
  contextRole := event.contextRole.map ContextualRole.value

def rowToSpeechEvent (row : SpeechEventRow) : Except Failure SpeechEvent := do
  let id ← EventId.mk <$> Identifier.of "EventId" row.id
  let type ← parseMember SpeechEventType.enumeration row.type
  let interval ← Interval.within row.startMs row.endMs row.toleranceMs
  let confidence ← readConfidence row.confidence row.calibration
  let provenance ← readProvenance row.toEventRow .audio
  let contextRole ← parseMemberIfStated ContextualRole.enumeration row.contextRole
  let event ← SpeechEvent.of id type interval confidence provenance row.rawText contextRole
  return { event with isFinal := row.isFinal }

def visualEventToRow (event : VisualEvent) (runId : String) (tenant : TenantId) :
    VisualEventRow where
  toEventRow := eventToRow event.id event.interval event.confidence event.provenance
    event.isFinal runId tenant
  type := event.type.value
  direction := event.direction.map GazeDirection.value
  magnitude := event.magnitude

def rowToVisualEvent (row : VisualEventRow) : Except Failure VisualEvent := do
  let id ← EventId.mk <$> Identifier.of "EventId" row.id
  let type ← parseMember VisualEventType.enumeration row.type
  let interval ← Interval.within row.startMs row.endMs row.toleranceMs
  let confidence ← readConfidence row.confidence row.calibration
  let provenance ← readProvenance row.toEventRow .video
  let direction ← parseMemberIfStated GazeDirection.enumeration row.direction
  let event ← VisualEvent.of id type interval confidence provenance direction row.magnitude
  return { event with isFinal := row.isFinal }

@[simp] theorem readConfidence_value (c : Confidence) :
    readConfidence (.fin c.value) c.state.value = .ok c := by
  have hstate : parseMember CalibrationState.enumeration c.state.value = .ok c.state :=
    parseMember_value CalibrationState.enumeration _
  simp only [readConfidence, hstate, Confidence.of_self, bind, Except.bind]

theorem readProvenance_eventToRow {provenance : Provenance} {modality : Modality}
    (hmodality : provenance.modality = modality) (id : EventId) (interval : Interval)
    (confidence : Confidence) (isFinal : Bool) (runId : String) (tenant : TenantId) :
    readProvenance (eventToRow id interval confidence provenance isFinal runId tenant) modality =
      .ok provenance := by
  subst hmodality
  simp only [readProvenance, eventToRow, Identifier.of_value, SemanticVersion.parse_toString,
    bind, Except.bind]
  rfl

theorem rowToToken_tokenToRow (token : WordToken) (runId : String) (tenant : TenantId) :
    rowToToken (tokenToRow token runId tenant) = .ok token := by
  have hstatus : parseMember TokenStatus.enumeration token.status.value = .ok token.status :=
    parseMember_value TokenStatus.enumeration _
  have htoken : WordToken.of token.id token.rawText token.interval token.confidence =
      .ok { token with status := .provisional } := dif_pos token.spoken
  have hid : (TokenId.mk <$> Identifier.of "TokenId" token.id.value) = .ok token.id :=
    Identifier.map_of_value TokenId.mk _ _
  simp only [rowToToken, tokenToRow, hid, Interval.within_self, readConfidence_value, hstatus,
    htoken, bind, Except.bind]
  rfl

theorem rowToSpeechEvent_speechEventToRow (event : SpeechEvent) (runId : String)
    (tenant : TenantId) :
    rowToSpeechEvent (speechEventToRow event runId tenant) = .ok event := by
  have htype : parseMember SpeechEventType.enumeration event.type.value = .ok event.type :=
    parseMember_value SpeechEventType.enumeration _
  have hrole : parseMemberIfStated ContextualRole.enumeration
      (event.contextRole.map ContextualRole.value) = .ok event.contextRole :=
    parseMemberIfStated_value ContextualRole.enumeration _
  have hevent : SpeechEvent.of event.id event.type event.interval event.confidence
      event.provenance event.rawText event.contextRole = .ok { event with isFinal := false } := by
    rw [SpeechEvent.of, dif_pos event.heard]
    by_cases hlexical : event.type.lexical = true
    · rw [dif_pos hlexical, dif_pos (event.worded hlexical).1, dif_pos (event.worded hlexical).2]
    · have hrole := event.roleless (by simpa using hlexical)
      rw [dif_neg hlexical, dif_pos hrole]
  have hprovenance := readProvenance_eventToRow event.heard event.id event.interval
    event.confidence event.isFinal runId tenant
  simp only [rowToSpeechEvent, speechEventToRow, hprovenance, bind, Except.bind]
  simp only [eventToRow, EventId.of_value, htype, Interval.within_self, readConfidence_value,
    hrole, hevent]
  rfl

theorem rowToVisualEvent_visualEventToRow (event : VisualEvent) (runId : String)
    (tenant : TenantId) :
    rowToVisualEvent (visualEventToRow event runId tenant) = .ok event := by
  have htype : parseMember VisualEventType.enumeration event.type.value = .ok event.type :=
    parseMember_value VisualEventType.enumeration _
  have hdirection : parseMemberIfStated GazeDirection.enumeration
      (event.direction.map GazeDirection.value) = .ok event.direction :=
    parseMemberIfStated_value GazeDirection.enumeration _
  have hevent : VisualEvent.of event.id event.type event.interval event.confidence
      event.provenance event.direction event.magnitude =
        .ok { event with isFinal := false } := by
    rw [VisualEvent.of, dif_pos event.seen, dif_pos event.directed, dif_pos event.gated]
  have hprovenance := readProvenance_eventToRow event.seen event.id event.interval
    event.confidence event.isFinal runId tenant
  simp only [rowToVisualEvent, visualEventToRow, hprovenance, bind, Except.bind]
  simp only [eventToRow, EventId.of_value, htype, Interval.within_self, readConfidence_value,
    hdirection, hevent]
  rfl

/-- Writing to a row and reading it back loses nothing of a session, a token or an event. -/
theorem rows_lossless :
    (∀ session : AnalysisSession,
      (∀ receipt ∈ session.consent, receipt.sessionId = session.id) →
        rowToSession (sessionToRow session) (session.consent.map (consentToRow session.id)) =
          .ok session) ∧
    ∀ (runId : String) (tenant : TenantId),
      (∀ token : WordToken, rowToToken (tokenToRow token runId tenant) = .ok token) ∧
      (∀ event : SpeechEvent,
        rowToSpeechEvent (speechEventToRow event runId tenant) = .ok event) ∧
      ∀ event : VisualEvent,
        rowToVisualEvent (visualEventToRow event runId tenant) = .ok event := by
  constructor
  · intro session hown
    exact rowToSession_sessionToRow session hown
  · intro runId tenant
    refine ⟨?_, ?_, ?_⟩
    · intro token
      exact rowToToken_tokenToRow token runId tenant
    · intro event
      exact rowToSpeechEvent_speechEventToRow event runId tenant
    · intro event
      exact rowToVisualEvent_visualEventToRow event runId tenant

/-- A paused session with its receipt comes back from its rows. -/
theorem rows_lossless_study :
    rowToSession (sessionToRow (studySession .paused))
        (some (consentToRow studySessionId studyConsent)) = .ok (studySession .paused) := by
  have hown : ∀ receipt ∈ (studySession .paused).consent,
      receipt.sessionId = (studySession .paused).id := by
    intro receipt hreceipt
    cases hreceipt
    rfl
  exact rows_lossless.1 (studySession .paused) hown

end OratoriaEngine
