import OratoriaEngine.Commands
import OratoriaEngine.PostgresEvidence
import OratoriaEngine.PostgresMapping

/-!
# Sessions, runs and the audit trail on Postgres

Every method is one unit of work on tables whose keys the server keeps: a row under a taken key
and a run of no session are refused. Sessions are stored under their identifier alone, their
receipts in a table of their own. What the domain stores is read back as it was.
-/

namespace OratoriaEngine

def RunState.value : RunState → String
  | .pending => "pending"
  | .running => "running"
  | .completed => "completed"
  | .failed => "failed"

def RunState.enumeration : Enumeration RunState where
  typeName := "RunState"
  members := [.pending, .running, .completed, .failed]
  value := RunState.value
  stated state := by cases state <;> decide +kernel
  told state := by cases state <;> decide +kernel

structure RunRow extends ProcessingRunRow where
  pipelineVersion : String
  state : String
  startedAtMs : ℤ
  completedAtMs : Option ℤ

def runToRow (run : ProcessingRun) : RunRow where
  id := run.id.value
  sessionId := run.sessionId.value
  pipelineVersion := toString run.pipelineVersion
  state := run.state.value
  startedAtMs := run.startedAtMs
  completedAtMs := run.completedAtMs

def rowToRun (row : RunRow) : Except Failure ProcessingRun := do
  let id ← RunId.mk <$> Identifier.of "RunId" row.id
  let sessionId ← SessionId.of row.sessionId
  let pipelineVersion ← SemanticVersion.parse row.pipelineVersion
  let state ← parseMember RunState.enumeration row.state
  return ⟨id, sessionId, pipelineVersion, state, row.startedAtMs, row.completedAtMs⟩

theorem rowToRun_runToRow (run : ProcessingRun) : rowToRun (runToRow run) = .ok run := by
  have hstate : parseMember RunState.enumeration run.state.value = .ok run.state :=
    parseMember_value RunState.enumeration _
  simp only [rowToRun, runToRow, Identifier.of_value, SessionId.of_value,
    SemanticVersion.parse_toString, hstate, bind, Except.bind]
  rfl

structure AuditRecordRow where
  actor : String
  action : String
  resource : String
  tenantId : Option String
  timestampMs : ℤ
  traceId : String
  outcome : String
  detail : String

def auditToRow (entry : AuditRecord) : AuditRecordRow where
  actor := entry.actor
  action := entry.action
  resource := entry.resource
  tenantId := entry.tenant.map (·.value)
  timestampMs := entry.timestampMs
  traceId := entry.traceId
  outcome := entry.outcome
  detail := entry.detail

/-- `TenantId(text) if text else None`. -/
def tenantIfStated : Option String → Except Failure (Option TenantId)
  | none => .ok none
  | some text =>
      if text = "" then .ok none
      else (fun id => some ⟨id⟩) <$> Identifier.of "TenantId" text

def rowToAudit (row : AuditRecordRow) : Except Failure AuditRecord := do
  let tenant ← tenantIfStated row.tenantId
  return {
    actor := row.actor
    action := row.action
    resource := row.resource
    timestampMs := row.timestampMs
    traceId := row.traceId
    outcome := row.outcome
    tenant := tenant
    detail := row.detail }

theorem rowToAudit_auditToRow (entry : AuditRecord) :
    rowToAudit (auditToRow entry) = .ok entry := by
  have htenant : tenantIfStated (entry.tenant.map (·.value)) = .ok entry.tenant := by
    cases entry.tenant with
    | none => rfl
    | some tenant =>
        have hstated : tenant.value ≠ "" := by
          intro hempty
          have hvisible := tenant.visible
          rw [hempty] at hvisible
          exact absurd hvisible (by decide)
        rw [Option.map_some, tenantIfStated, if_neg hstated, Identifier.of_value]
        rfl
  rw [rowToAudit, auditToRow, htenant]
  rfl

structure SessionTables where
  analysisSession : Dict String AnalysisSessionRow
  consentReceipt : Dict String ConsentReceiptRow
  idempotencyKey : Dict (String × String) String
  processingRun : Dict String RunRow
  auditRecord : List AuditRecordRow

def SessionTables.fresh : SessionTables := ⟨.empty, .empty, .empty, .empty, []⟩

/-- A key that is taken, or a row that refers to none. -/
def integrityError : Failure := .foreign "IntegrityError" ""

namespace PostgresSessionRepository

variable (t : SessionTables)

def written (session : AnalysisSession) : SessionTables :=
  { t with
    analysisSession := t.analysisSession.set session.id.value (sessionToRow session)
    consentReceipt := match session.consent with
      | some receipt =>
          t.consentReceipt.set session.id.value (consentToRow session.id receipt)
      | none => t.consentReceipt }

def add (session : AnalysisSession) : Except Failure Unit × SessionTables :=
  if t.analysisSession.contains session.id.value ||
      (session.consent.isSome && t.consentReceipt.contains session.id.value) then
    (.error integrityError, t)
  else (.ok (), written t session)

/-- The session of a row, with the receipt that is kept for it. -/
def read : Option AnalysisSessionRow → Except Failure (Option AnalysisSession)
  | none => .ok none
  | some row => some <$> rowToSession row (t.consentReceipt.get? row.id)

def get (tenant : TenantId) (sessionId : SessionId) : Except Failure (Option AnalysisSession) :=
  read t ((t.analysisSession.get? sessionId.value).filter fun row => row.tenantId = tenant.value)

/-- Both rows are merged: written over what is there. -/
def save (session : AnalysisSession) : Except Failure Unit × SessionTables :=
  (.ok (), written t session)

def findByIdempotencyKey (application : ApplicationId) (key : String) :
    Except Failure (Option AnalysisSession) :=
  match t.idempotencyKey.get? (application.value, key) with
  | none => .ok none
  | some sessionId =>
      read t ((t.analysisSession.get? sessionId).filter fun row =>
        row.applicationId = application.value)

def claimIdempotencyKey (application : ApplicationId) (key : String) (sessionId : SessionId) :
    Bool × SessionTables :=
  if t.idempotencyKey.contains (application.value, key) then (false, t)
  else (true, { t with
    idempotencyKey := t.idempotencyKey.set (application.value, key) sessionId.value })

end PostgresSessionRepository

namespace PostgresRunRepository

variable (t : SessionTables)

def written (run : ProcessingRun) : SessionTables :=
  { t with processingRun := t.processingRun.set run.id.value (runToRow run) }

def refers (run : ProcessingRun) : Bool := t.analysisSession.contains run.sessionId.value

def add (run : ProcessingRun) : Except Failure Unit × SessionTables :=
  if t.processingRun.contains run.id.value || !refers t run then (.error integrityError, t)
  else (.ok (), written t run)

def get (runId : RunId) : Except Failure (Option ProcessingRun) :=
  (t.processingRun.get? runId.value).mapM rowToRun

def save (run : ProcessingRun) : Except Failure Unit × SessionTables :=
  if refers t run then (.ok (), written t run) else (.error integrityError, t)

end PostgresRunRepository

namespace PostgresAuditLog

variable (t : SessionTables)

def record (entry : AuditRecord) : SessionTables :=
  { t with auditRecord := t.auditRecord ++ [auditToRow entry] }

/-- The last rows by identifier, which is the order they were inserted in, the oldest first. -/
def forResource (resource : String) (limit : ℕ) : Except Failure (List AuditRecord) :=
  (((t.auditRecord.filter fun row => row.resource = resource).reverse.take limit).reverse).mapM
    rowToAudit

end PostgresAuditLog

/-- `matching[-limit:]` for a positive limit. -/
def World.auditForResource (w : World) (resource : String) (limit : ℕ) : List AuditRecord :=
  let matching := w.audit.filter fun entry => entry.resource = resource
  matching.drop (matching.length - limit)

/-- Sessions, runs and the audit trail on Postgres; everything else in process memory. -/
def onPostgres : Program.Ports Port Port.Answer Failure (SessionTables × World)
  | .sessionsAdd session, (t, w) =>
      let added := PostgresSessionRepository.add t session
      (added.1, added.2, w)
  | .sessionsGet tenant sessionId, (t, w) =>
      (PostgresSessionRepository.get t tenant sessionId, t, w)
  | .sessionsSave session, (t, w) =>
      let saved := PostgresSessionRepository.save t session
      (saved.1, saved.2, w)
  | .findByIdempotencyKey application key, (t, w) =>
      (PostgresSessionRepository.findByIdempotencyKey t application key, t, w)
  | .claimIdempotencyKey application key sessionId, (t, w) =>
      let claimed := PostgresSessionRepository.claimIdempotencyKey t application key sessionId
      (.ok claimed.1, claimed.2, w)
  | .runsAdd run, (t, w) =>
      let added := PostgresRunRepository.add t run
      (added.1, added.2, w)
  | .runsGet runId, (t, w) => (PostgresRunRepository.get t runId, t, w)
  | .runsSave run, (t, w) =>
      let saved := PostgresRunRepository.save t run
      (saved.1, saved.2, w)
  | .auditRecord entry, (t, w) => (.ok (), PostgresAuditLog.record t entry, w)
  | o, (t, w) =>
      let served := inMemory o w
      (served.1, t, served.2)

end OratoriaEngine
