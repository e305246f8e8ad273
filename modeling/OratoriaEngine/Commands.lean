import OratoriaEngine.Completion

/-!
# The use cases

Each command is a program over the ports: what it awaits is a call, what it
computes in between is not. Readings of the clock, generated identifiers and the
token minter are arguments, so that nothing is assumed about them.
-/

namespace OratoriaEngine

namespace Command

abbrev sessionsAdd (session : AnalysisSession) : Command Unit :=
  Program.port (Port.sessionsAdd session)

abbrev sessionsGet (tenant : TenantId) (sessionId : SessionId) :
    Command (Option AnalysisSession) := Program.port (Port.sessionsGet tenant sessionId)

abbrev sessionsSave (session : AnalysisSession) : Command Unit :=
  Program.port (Port.sessionsSave session)

abbrev findByIdempotencyKey (application : ApplicationId) (key : String) :
    Command (Option AnalysisSession) := Program.port (Port.findByIdempotencyKey application key)

abbrev claimIdempotencyKey (application : ApplicationId) (key : String) (sessionId : SessionId) :
    Command Bool := Program.port (Port.claimIdempotencyKey application key sessionId)

abbrev runsAdd (run : ProcessingRun) : Command Unit := Program.port (Port.runsAdd run)

abbrev runsGet (runId : RunId) : Command (Option ProcessingRun) := Program.port (Port.runsGet runId)

abbrev runsSave (run : ProcessingRun) : Command Unit := Program.port (Port.runsSave run)

abbrev evidenceStore (bundle : EvidenceBundle) : Command Unit :=
  Program.port (Port.evidenceStore bundle)

abbrev evidenceStoreDocument (document : EvidenceDocument) (tenant : TenantId) : Command Unit :=
  Program.port (Port.evidenceStoreDocument document tenant)

abbrev evidenceDeleteForSession (tenant : TenantId) (sessionId : SessionId) : Command ℤ :=
  Program.port (Port.evidenceDeleteForSession tenant sessionId)

abbrev mediaRevokeSignatures (tenant : TenantId) (sessionId : SessionId) : Command Unit :=
  Program.port (Port.mediaRevokeSignatures tenant sessionId)

abbrev mediaDeleteForSession (tenant : TenantId) (sessionId : SessionId) : Command ℤ :=
  Program.port (Port.mediaDeleteForSession tenant sessionId)

abbrev streamStateClear (sessionId : SessionId) : Command Unit :=
  Program.port (Port.streamStateClear sessionId)

abbrev auditRecord (entry : AuditRecord) : Command Unit := Program.port (Port.auditRecord entry)

abbrev configurationCurrent (tenant : TenantId) : Command ConfigurationSnapshot :=
  Program.port (Port.configurationCurrent tenant)

abbrev configurationFreeze (snapshot : ConfigurationSnapshot) (sessionId : SessionId) :
    Command Unit := Program.port (Port.configurationFreeze snapshot sessionId)

abbrev quotaCheck (application : ApplicationId) (unit : String) (epochMs : ℤ) :
    Command QuotaDecision := Program.port (Port.quotaCheck application unit epochMs)

abbrev quotaConsume (application : ApplicationId) (unit : String) (epochMs : ℤ) : Command Unit :=
  Program.port (Port.quotaConsume application unit epochMs)

def requireScope (caller : AuthenticatedCaller) (scope : Scope) (purpose : String) : Command Unit :=
  if caller.allows scope then pure ()
  else Program.raise (.notAuthorized s!"{purpose} requires {scope.value}")

/-- Resolve a session within the caller's tenant. -/
def resolve (caller : AuthenticatedCaller) (sessionId : SessionId) : Command AnalysisSession := do
  match ← sessionsGet caller.tenant sessionId with
  | some session => pure session
  | none => Program.raise (.sessionNotFound s!"session {sessionId.value} not found")

section RaisesIn

variable {fault : Program.FaultPlan Failure} {P : World → Prop} {w : World} {n : ℕ} {α : Type}
  (caller : AuthenticatedCaller)

theorem raisesIn_requireScope_bind_iff (hw : P w) (scope : Scope) (purpose : String)
    (f : Unit → Command α) :
    Program.RaisesIn inMemory fault P (requireScope caller scope purpose >>= f) n w ↔
      (caller.allows scope = true → Program.RaisesIn inMemory fault P (f ()) n w) := by
  unfold requireScope
  by_cases h : caller.allows scope = true
  · rw [if_pos h, Program.pure_eq, Program.done_ok_bind]
    simp only [h, true_implies]
  · rw [if_neg h, Program.raise_bind]
    exact iff_of_true ((Program.raisesIn_error_iff _).2 hw) fun ha => absurd ha h

theorem raisesIn_resolve_bind_iff (hw : P w) (sessionId : SessionId)
    (f : AnalysisSession → Command α) :
    Program.RaisesIn inMemory fault P (resolve caller sessionId >>= f) n w ↔
      (fault n = none → ∀ session, w.session? caller.tenant sessionId = some session →
        Program.RaisesIn inMemory fault P (f session) (n + 1) w) := by
  unfold resolve
  rw [Program.bind_assoc]
  cases h : fault n with
  | some e =>
      rw [Program.raisesIn_port_bind_of_fault h]
      simpa using hw
  | none =>
      have hget : inMemory (.sessionsGet caller.tenant sessionId) w =
          (.ok (w.session? caller.tenant sessionId), w) := rfl
      rw [Program.raisesIn_port_bind_of_served h hget]
      cases w.session? caller.tenant sessionId with
      | none =>
          rw [Program.raise_bind]
          exact iff_of_true ((Program.raisesIn_error_iff _).2 hw) fun _ _ h => by cases h
      | some session =>
          change Program.RaisesIn inMemory fault P (f session) (n + 1) w ↔ _
          simp

end RaisesIn

end Command

open Command

namespace CaptureControl

def begin (caller : AuthenticatedCaller) (sessionId : SessionId) (wallMs : ℤ) :
    Command AnalysisSession := do
  requireScope caller .sessionsWrite "capture control"
  let session ← resolve caller sessionId
  let updated ← Program.ofExcept (session.beginCapture wallMs)
  sessionsSave updated
  return updated

def pause (caller : AuthenticatedCaller) (sessionId : SessionId) (wallMs : ℤ) :
    Command AnalysisSession := do
  requireScope caller .sessionsWrite "capture control"
  let session ← resolve caller sessionId
  let updated ← Program.ofExcept (session.pauseCapture wallMs)
  sessionsSave updated
  return updated

def resume (caller : AuthenticatedCaller) (sessionId : SessionId) (wallMs : ℤ) :
    Command AnalysisSession := do
  requireScope caller .sessionsWrite "capture control"
  let session ← resolve caller sessionId
  let updated ← Program.ofExcept (session.resumeCapture wallMs)
  sessionsSave updated
  return updated

end CaptureControl

def OpenProcessingRun.execute (caller : AuthenticatedCaller) (sessionId : SessionId) (runId : RunId)
    (pipelineVersion : SemanticVersion) (epochMs : ℤ) : Command ProcessingRun := do
  requireScope caller .sessionsWrite "opening a run"
  let _ ← resolve caller sessionId
  let run : ProcessingRun := ⟨runId, sessionId, pipelineVersion, .running, epochMs, none⟩
  runsAdd run
  return run

def CloseProcessingRun.execute (runId : RunId) (succeeded : Bool) (epochMs : ℤ) :
    Command Unit := do
  match ← runsGet runId with
  | none => pure ()
  | some run => runsSave { run with
      state := if succeeded then .completed else .failed
      completedAtMs := some epochMs }

structure DeletionReceipt where
  sessionId : SessionId
  mediaObjectsDeleted : ℤ
  evidenceRecordsDeleted : ℤ
  wasAlreadyDeleted : Bool

namespace DeleteEvidence

variable (caller : AuthenticatedCaller) (sessionId : SessionId) (nowMs : ℤ)

/-- From the least to the most recoverable: links, media, evidence, stream, session, audit. -/
def erase (session : AnalysisSession) : Command DeletionReceipt := do
  mediaRevokeSignatures caller.tenant sessionId
  let mediaDeleted ← mediaDeleteForSession caller.tenant sessionId
  let evidenceDeleted ← evidenceDeleteForSession caller.tenant sessionId
  streamStateClear sessionId
  let deleted ← Program.ofExcept (session.markEvidenceDeleted nowMs)
  sessionsSave deleted
  auditRecord {
    actor := caller.application.value
    action := "evidence.delete"
    resource := sessionId.value
    timestampMs := nowMs
    traceId := caller.traceId
    outcome := "deleted"
    tenant := some caller.tenant
    detail := s!"media_objects={mediaDeleted} evidence_records={evidenceDeleted}" }
  return ⟨sessionId, mediaDeleted, evidenceDeleted, false⟩

def execute : Command DeletionReceipt := do
  requireScope caller .evidenceDelete "deleting evidence"
  let session ← resolve caller sessionId
  if session.state = .evidenceDeleted then
    return ⟨sessionId, 0, 0, true⟩
  else
    erase caller sessionId nowMs session

end DeleteEvidence

structure CompletedSession where
  session : AnalysisSession
  document : EvidenceDocument

def CompleteSession.execute (caller : AuthenticatedCaller) (sessionId : SessionId)
    (state : StreamingState) (configuration : ConfigurationSnapshot) (wallMs nowMs : ℤ) :
    Command CompletedSession := do
  requireScope caller .sessionsWrite "completing a session"
  let session ← resolve caller sessionId
  let completing ← Program.ofExcept (session.requestCompletion wallMs)
  sessionsSave completing
  let evidence ← Program.ofExcept
    (assembleEvidence state completing configuration caller.tenant sessionId wallMs)
  evidenceStore evidence.1
  evidenceStoreDocument evidence.2 caller.tenant
  let completed ← Program.ofExcept (completing.markCompleted nowMs)
  sessionsSave completed
  auditRecord {
    actor := caller.application.value
    action := "session.complete"
    resource := sessionId.value
    timestampMs := nowMs
    traceId := caller.traceId
    outcome := "completed"
    tenant := some caller.tenant
    detail := s!"speech_events={evidence.1.speechEvents.length} " ++
      s!"visual_events={evidence.1.visualEvents.length} " ++
      s!"cooccurrences={evidence.1.cooccurrences.length}" }
  return ⟨completed, evidence.2⟩

structure CreateSessionCommand where
  mode : SessionMode
  capabilities : CapabilityRequest
  consentPolicyVersion : SemanticVersion
  retention : RetentionPolicy
  idempotencyKey : Option String

structure CreatedSession where
  session : AnalysisSession
  streamToken : String
  streamTokenExpiresAtMs : ℤ
  wasExisting : Bool

def streamTokenTtlMs : ℤ := 300000

def streamScopes : Finset Scope := {.sessionsWrite, .sessionsRead}

/-- What the stream token of a session signs. -/
structure StreamGrant where
  sessionId : SessionId
  tenant : TenantId
  application : ApplicationId
  keyId : ApiKeyId
  expiresAtMs : ℤ
  scopes : Finset Scope

namespace CreateSession

variable (mint : StreamGrant → String) (caller : AuthenticatedCaller)
  (command : CreateSessionCommand)

def mintGrant (sessionId : SessionId) (nowMs : ℤ) : String × ℤ :=
  (mint ⟨sessionId, caller.tenant, caller.application, caller.keyId, nowMs + streamTokenTtlMs,
    streamScopes⟩, nowMs + streamTokenTtlMs)

def created (session : AnalysisSession) (nowMs : ℤ) (wasExisting : Bool) : CreatedSession :=
  let grant := mintGrant mint caller session.id nowMs
  ⟨session, grant.1, grant.2, wasExisting⟩

/-- The session a repeated idempotency key already produced. -/
def replay (epochMs : ℤ) : Command (Option CreatedSession) := do
  match command.idempotencyKey with
  | none => return none
  | some key =>
      let found ← findByIdempotencyKey caller.application key
      return found.map fun session => created mint caller session epochMs true

/-- The session the command asks for, with its consent receipt. -/
def newSession (sessionId : SessionId) (capabilities : NegotiatedCapabilities)
    (snapshot : ConfigurationSnapshot) (nowMs : ℤ) : Except Failure AnalysisSession := do
  let receipt ← ConsentReceipt.of sessionId command.consentPolicyVersion command.retention nowMs
  AnalysisSession.withConsent {
    id := sessionId
    applicationId := caller.application
    tenantId := caller.tenant
    mode := command.mode
    locale := capabilities.locale
    capabilities := capabilities
    configuration := snapshot.id
    createdAtMs := nowMs
    state := .created
    clock := .initial
    consent := none
    completedAtMs := none } receipt

theorem newSession_eq_ok {caller : AuthenticatedCaller} {command : CreateSessionCommand}
    {sessionId : SessionId} {capabilities : NegotiatedCapabilities}
    {snapshot : ConfigurationSnapshot} {nowMs : ℤ} {session : AnalysisSession}
    (h : newSession caller command sessionId capabilities snapshot nowMs = .ok session) :
    session.id = sessionId ∧ session.applicationId = caller.application ∧
      session.tenantId = caller.tenant := by
  obtain ⟨receipt, -, h⟩ := Except.bind_eq_ok.1 h
  unfold AnalysisSession.withConsent at h
  split_ifs at h
  cases h
  exact ⟨rfl, rfl, rfl⟩

/-- From the insert on: the session is added, frozen, audited and counted. -/
def insert (session : AnalysisSession) (snapshot : ConfigurationSnapshot)
    (capabilities : NegotiatedCapabilities) (nowMs consumedMs : ℤ) : Command CreatedSession := do
  sessionsAdd session
  configurationFreeze snapshot session.id
  auditRecord {
    actor := caller.application.value
    action := "session.create"
    resource := session.id.value
    timestampMs := nowMs
    traceId := caller.traceId
    outcome := "created"
    tenant := some caller.tenant
    detail := s!"mode={command.mode.value} locale={capabilities.locale}" }
  quotaConsume caller.application "sessions" consumedMs
  return created mint caller session nowMs false

/-- Claim the key, or return what its holder created, if that is visible. -/
def claim (sessionId : SessionId) (epochMs : ℤ) : Command (Option CreatedSession) := do
  match command.idempotencyKey with
  | none => return none
  | some key =>
      let claimed ← claimIdempotencyKey caller.application key sessionId
      if claimed then
        return none
      else
        replay mint caller command epochMs

/-- `sessionId` is the generated identifier, `epochMs` the successive clock readings. -/
def execute (sessionId : SessionId) (epochMs : ℕ → ℤ) : Command CreatedSession := do
  requireScope caller .sessionsWrite "creating a session"
  match ← replay mint caller command (epochMs 0) with
  | some existing => return existing
  | none =>
      let decision ← quotaCheck caller.application "sessions" (epochMs 1)
      if decision.allowed then
        let capabilities ← Program.ofExcept (negotiate command.capabilities)
        let snapshot ← configurationCurrent caller.tenant
        let session ← Program.ofExcept
          (newSession caller command sessionId capabilities snapshot (epochMs 2))
        match ← claim mint caller command sessionId (epochMs 3) with
        | some replayed => return replayed
        | none => insert mint caller command session snapshot capabilities (epochMs 2) (epochMs 4)
      else
        Program.raise (.quotaExceeded
          (if decision.reason = "" then "session quota exhausted" else decision.reason)
          decision.retryAfterSeconds)

end CreateSession

def studyTenant : TenantId := ⟨⟨"tenant-1", by decide⟩⟩

def studyApplication : ApplicationId := ⟨⟨"app-1", by decide⟩⟩

def studySessionId : SessionId := ⟨⟨"session-1", by decide⟩⟩

def lectureId : SessionId := ⟨⟨"lecture-1", by decide⟩⟩

def studyRunId : RunId := ⟨⟨"study-run", by decide⟩⟩

def operator : AuthenticatedCaller where
  application := studyApplication
  tenant := studyTenant
  keyId := ⟨⟨"key-1", by decide⟩⟩
  scopes := {.admin}
  traceId := "trace-1"

def studyConsent : ConsentReceipt where
  sessionId := studySessionId
  policyVersion := ⟨1, 0, 0⟩
  retention := .ephemeral ⟨1, 0, 0⟩
  grantedAtMs := 0
  withdrawnAtMs := none
  grantedNonneg := MonotonicTime.zero.nonneg
  withdrawnAfter := by simp
  samePolicy := rfl

def studySession (state : SessionState) : AnalysisSession where
  id := studySessionId
  applicationId := studyApplication
  tenantId := studyTenant
  mode := .realtime
  locale := "es-PE"
  capabilities := ⟨.pcm16, 16000, "es-PE", none, none⟩
  configuration := defaultConfiguration.id
  createdAtMs := 0
  state := state
  clock := .initial
  consent := some studyConsent
  completedAtMs := none

def studyCommand (idempotencyKey : Option String) : CreateSessionCommand where
  mode := .realtime
  capabilities := ⟨"pcm16", 16000, "es-PE", none, none⟩
  consentPolicyVersion := ⟨1, 0, 0⟩
  retention := .ephemeral ⟨1, 0, 0⟩
  idempotencyKey := idempotencyKey

def study (state : SessionState) : World :=
  (World.fresh defaultConfiguration).putSession (studySession state)

end OratoriaEngine
