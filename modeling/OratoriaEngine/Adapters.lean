import OratoriaEngine.Document
import OratoriaEngine.Lib.Program
import OratoriaEngine.Sessions

/-!
# The ports of the use cases and their in-memory adapters

Each operation a use case awaits is one constructor of `Port`. The adapters keep
their contents in dictionaries; a reading of the clock that an adapter takes is an
argument of its operation.
-/

namespace OratoriaEngine

inductive Scope
  | sessionsWrite
  | sessionsRead
  | resultsRead
  | evidenceDelete
  | jobsWrite
  | admin
  deriving DecidableEq, Repr

def Scope.value : Scope → String
  | .sessionsWrite => "sessions:write"
  | .sessionsRead => "sessions:read"
  | .resultsRead => "results:read"
  | .evidenceDelete => "evidence:delete"
  | .jobsWrite => "jobs:write"
  | .admin => "admin"

structure AuthenticatedCaller where
  application : ApplicationId
  tenant : TenantId
  keyId : ApiKeyId
  scopes : Finset Scope
  traceId : String

def AuthenticatedCaller.allows (caller : AuthenticatedCaller) (scope : Scope) : Bool :=
  scope ∈ caller.scopes || Scope.admin ∈ caller.scopes

inductive RunState
  | pending
  | running
  | completed
  | failed
  deriving DecidableEq, Repr

structure ProcessingRun where
  id : RunId
  sessionId : SessionId
  pipelineVersion : SemanticVersion
  state : RunState
  startedAtMs : ℤ
  completedAtMs : Option ℤ

structure AuditRecord where
  actor : String
  action : String
  resource : String
  timestampMs : ℤ
  traceId : String
  outcome : String
  tenant : Option TenantId
  detail : String

structure QuotaDecision where
  allowed : Bool
  remaining : ℤ
  retryAfterSeconds : ℤ
  reason : String

structure StoredObject where
  ref : EvidenceRef
  tenant : TenantId
  sessionId : SessionId
  expiresAtMs : ℤ

/-- What a live session needs in order to survive a handler restart. -/
structure StreamSnapshot where
  sessionId : SessionId
  highestAudioSeq : ℤ
  highestVideoSeq : ℤ
  finalizedThroughMs : ℤ
  queueDepth : ℤ

/-- The sessions of the repository, each under its own tenant and identifier. -/
structure SessionTable where
  entries : Dict (String × String) AnalysisSession
  keyed : ∀ key s, entries.get? key = some s → key = (s.tenantId.value, s.id.value)

namespace SessionTable

def empty : SessionTable := ⟨.empty, by simp⟩

def put (t : SessionTable) (s : AnalysisSession) : SessionTable where
  entries := t.entries.set (s.tenantId.value, s.id.value) s
  keyed := by
    intro key s' h
    rw [Dict.get?_set] at h
    split_ifs at h with hkey
    · cases h
      exact hkey
    · exact t.keyed key s' h

end SessionTable

/-- The contents of the adapters. -/
structure World where
  sessions : SessionTable
  idempotency : Dict (String × String) SessionId
  runs : Dict String ProcessingRun
  bundles : Dict (String × String) EvidenceBundle
  documents : Dict (String × String) EvidenceDocument
  media : Dict (String × String) StoredObject
  signatures : Dict String (Finset String)
  snapshots : Dict String (StreamSnapshot × ℤ)
  leases : Dict String ℤ
  audit : List AuditRecord
  published : Dict String ConfigurationSnapshot
  currentByTenant : Dict String ConfigurationSnapshot
  defaultSnapshot : ConfigurationSnapshot
  bySession : Dict String ConfigurationSnapshotId
  quotaLimits : Dict String ℤ
  quotaCounts : Dict (String × String × ℤ) ℤ
  quotaWindowMs : ℤ

namespace World

/-- A deployment that has seen no request yet. -/
def fresh (configuration : ConfigurationSnapshot) : World where
  sessions := .empty
  idempotency := .empty
  runs := .empty
  bundles := .empty
  documents := .empty
  media := .empty
  signatures := .empty
  snapshots := .empty
  leases := .empty
  audit := []
  published := Dict.empty.set configuration.id.value configuration
  currentByTenant := .empty
  defaultSnapshot := configuration
  bySession := .empty
  quotaLimits := .empty
  quotaCounts := .empty
  quotaWindowMs := 60000

variable (w : World)

def session? (tenant : TenantId) (sessionId : SessionId) : Option AnalysisSession :=
  w.sessions.entries.get? (tenant.value, sessionId.value)

/-- Both `add` and `save`: an unconditional write under the session's key. -/
def putSession (session : AnalysisSession) : World :=
  { w with sessions := w.sessions.put session }

theorem session?_eq_some {w : World} {tenant : TenantId} {sessionId : SessionId}
    {session : AnalysisSession} (h : w.session? tenant sessionId = some session) :
    session.tenantId = tenant ∧ session.id = sessionId := by
  have hkey := w.sessions.keyed _ _ h
  rw [Prod.mk.injEq] at hkey
  exact ⟨TenantId.ext_value hkey.1.symm, SessionId.ext_value hkey.2.symm⟩

theorem session?_putSession (tenant : TenantId) (sessionId : SessionId)
    (session : AnalysisSession) :
    (w.putSession session).session? tenant sessionId =
      if session.tenantId = tenant ∧ session.id = sessionId then some session
      else w.session? tenant sessionId := by
  unfold session? putSession SessionTable.put
  rw [Dict.get?_set]
  by_cases h : session.tenantId = tenant ∧ session.id = sessionId
  · obtain ⟨rfl, rfl⟩ := h
    simp
  · rw [if_neg h, if_neg]
    intro hkey
    rw [Prod.mk.injEq] at hkey
    exact h ⟨TenantId.ext_value hkey.1.symm, SessionId.ext_value hkey.2.symm⟩

/-- The first stored session that carries the claimed identifier for this application. -/
def findByIdempotencyKey (application : ApplicationId) (key : String) : Option AnalysisSession :=
  match w.idempotency.get? (application.value, key) with
  | none => none
  | some sessionId =>
      w.sessions.entries.values.find? fun session =>
        session.id = sessionId && session.applicationId = application

def claimIdempotencyKey (application : ApplicationId) (key : String) (sessionId : SessionId) :
    Bool × World :=
  if w.idempotency.contains (application.value, key) then (false, w)
  else (true, { w with idempotency := w.idempotency.set (application.value, key) sessionId })

def isBundleOf (tenant : TenantId) (sessionId : SessionId) (key : String × String)
    (bundle : EvidenceBundle) : Bool :=
  key.1 = tenant.value && bundle.sessionId = sessionId

def isMediaOf (tenant : TenantId) (sessionId : SessionId) (key : String × String)
    (object : StoredObject) : Bool :=
  key.1 = tenant.value && object.sessionId = sessionId

def document? (tenant : TenantId) (sessionId : SessionId) : Option EvidenceDocument :=
  w.documents.get? (tenant.value, sessionId.value)

def deleteEvidenceForSession (tenant : TenantId) (sessionId : SessionId) : ℤ × World :=
  let bundles := w.bundles.filter fun key bundle => !isBundleOf tenant sessionId key bundle
  let removed := (w.bundles.entries.length : ℤ) - bundles.entries.length
  if w.documents.contains (tenant.value, sessionId.value) then
    (removed + 1,
      { w with
        bundles := bundles
        documents := w.documents.erase (tenant.value, sessionId.value) })
  else (removed, { w with bundles := bundles })

theorem deleteEvidenceForSession_snd (tenant : TenantId) (sessionId : SessionId) :
    (w.deleteEvidenceForSession tenant sessionId).2 = { w with
      bundles := w.bundles.filter fun key bundle => !isBundleOf tenant sessionId key bundle
      documents := w.documents.erase (tenant.value, sessionId.value) } := by
  unfold deleteEvidenceForSession
  by_cases h : w.documents.contains (tenant.value, sessionId.value) = true
  · simp only [h, if_true]
  · have herase : w.documents.erase (tenant.value, sessionId.value) = w.documents := by
      rw [Dict.erase_eq_self_iff, ← Dict.contains_eq_false_iff]
      simpa using h
    simp only [h, herase, Bool.false_eq_true, if_false]

theorem document?_deleteEvidenceForSession (tenant other : TenantId) (sessionId sid : SessionId) :
    (w.deleteEvidenceForSession tenant sessionId).2.document? other sid =
      if other = tenant ∧ sid = sessionId then none else w.document? other sid := by
  rw [deleteEvidenceForSession_snd, document?, document?]
  change (w.documents.erase _).get? _ = _
  split_ifs with h
  · rw [h.1, h.2, Dict.get?_erase_self]
  · refine Dict.get?_erase_ne _ fun heq => h ?_
    rw [Prod.mk.injEq] at heq
    exact ⟨TenantId.ext_value heq.1, SessionId.ext_value heq.2⟩

def deleteMediaForSession (tenant : TenantId) (sessionId : SessionId) : ℤ × World :=
  let media := w.media.filter fun key object => !isMediaOf tenant sessionId key object
  ((w.media.entries.length : ℤ) - media.entries.length, { w with media := media })

def clearStreamState (sessionId : SessionId) : World :=
  { w with
    snapshots := w.snapshots.erase sessionId.value
    leases := w.leases.erase sessionId.value }

def currentConfiguration (tenant : TenantId) : ConfigurationSnapshot :=
  (w.currentByTenant.get? tenant.value).getD w.defaultSnapshot

def withPublished (snapshot : ConfigurationSnapshot) (tenant : Option TenantId) : World :=
  { w with
    published := w.published.set snapshot.id.value snapshot
    currentByTenant := match tenant with
      | some tenant => w.currentByTenant.set tenant.value snapshot
      | none => w.currentByTenant }

/-- Publishing an identifier again with other content fails. -/
def publish (snapshot : ConfigurationSnapshot) (tenant : Option TenantId) :
    Except Failure Unit × World :=
  match w.published.get? snapshot.id.value with
  | some existing =>
      if existing = snapshot then (.ok (), w.withPublished snapshot tenant)
      else (.error (.configurationError
        (s!"configuration {snapshot.id.value} is already published with different " ++
          "content; published versions are immutable (US-008)")), w)
  | none => (.ok (), w.withPublished snapshot tenant)

def freeze (snapshot : ConfigurationSnapshot) (sessionId : SessionId) : World :=
  { w with
    published := if w.published.contains snapshot.id.value then w.published
      else w.published.set snapshot.id.value snapshot
    bySession := w.bySession.set sessionId.value snapshot.id }

def forSession (sessionId : SessionId) : Option ConfigurationSnapshot :=
  match w.bySession.get? sessionId.value with
  | none => none
  | some snapshotId => w.published.get? snapshotId.value

def quotaKey (application : ApplicationId) (unit : String) (epochMs : ℤ) : String × String × ℤ :=
  (application.value, unit, Int.fdiv epochMs w.quotaWindowMs)

def quotaUsed (application : ApplicationId) (unit : String) (epochMs : ℤ) : ℤ :=
  (w.quotaCounts.get? (w.quotaKey application unit epochMs)).getD 0

def quotaCheck (application : ApplicationId) (unit : String) (epochMs : ℤ) : QuotaDecision :=
  match w.quotaLimits.get? unit with
  | none => ⟨true, -1, 0, ""⟩
  | some limit =>
      let remaining := limit - w.quotaUsed application unit epochMs
      if limit < w.quotaUsed application unit epochMs + 1 then
        ⟨false, max remaining 0,
          max 1 (Int.fdiv (w.quotaWindowMs - Int.fmod epochMs w.quotaWindowMs) 1000),
          s!"{unit} quota of {limit} per window exhausted"⟩
      else ⟨true, remaining - 1, 0, ""⟩

def quotaConsume (application : ApplicationId) (unit : String) (epochMs : ℤ) : World :=
  { w with
    quotaCounts := w.quotaCounts.set (w.quotaKey application unit epochMs)
      (w.quotaUsed application unit epochMs + 1) }

end World

inductive Port
  | sessionsAdd (session : AnalysisSession)
  | sessionsGet (tenant : TenantId) (sessionId : SessionId)
  | sessionsSave (session : AnalysisSession)
  | findByIdempotencyKey (application : ApplicationId) (key : String)
  | claimIdempotencyKey (application : ApplicationId) (key : String) (sessionId : SessionId)
  | runsAdd (run : ProcessingRun)
  | runsGet (runId : RunId)
  | runsSave (run : ProcessingRun)
  | evidenceStore (bundle : EvidenceBundle)
  | evidenceStoreDocument (document : EvidenceDocument) (tenant : TenantId)
  | evidenceDeleteForSession (tenant : TenantId) (sessionId : SessionId)
  | mediaRevokeSignatures (tenant : TenantId) (sessionId : SessionId)
  | mediaDeleteForSession (tenant : TenantId) (sessionId : SessionId)
  | streamStateClear (sessionId : SessionId)
  | auditRecord (entry : AuditRecord)
  | configurationCurrent (tenant : TenantId)
  | configurationFreeze (snapshot : ConfigurationSnapshot) (sessionId : SessionId)
  | quotaCheck (application : ApplicationId) (unit : String) (epochMs : ℤ)
  | quotaConsume (application : ApplicationId) (unit : String) (epochMs : ℤ)

/-- What each operation answers. -/
abbrev Port.Answer : Port → Type
  | .sessionsGet _ _ | .findByIdempotencyKey _ _ => Option AnalysisSession
  | .claimIdempotencyKey _ _ _ => Bool
  | .runsGet _ => Option ProcessingRun
  | .evidenceDeleteForSession _ _ | .mediaDeleteForSession _ _ => ℤ
  | .configurationCurrent _ => ConfigurationSnapshot
  | .quotaCheck _ _ _ => QuotaDecision
  | _ => Unit

/-- The in-memory adapters answer every operation. -/
def inMemory : Program.Ports Port Port.Answer Failure World
  | .sessionsAdd session, w => (.ok (), w.putSession session)
  | .sessionsGet tenant sessionId, w => (.ok (w.session? tenant sessionId), w)
  | .sessionsSave session, w => (.ok (), w.putSession session)
  | .findByIdempotencyKey application key, w => (.ok (w.findByIdempotencyKey application key), w)
  | .claimIdempotencyKey application key sessionId, w =>
      let claim := w.claimIdempotencyKey application key sessionId
      (.ok claim.1, claim.2)
  | .runsAdd run, w => (.ok (), { w with runs := w.runs.set run.id.value run })
  | .runsGet runId, w => (.ok (w.runs.get? runId.value), w)
  | .runsSave run, w => (.ok (), { w with runs := w.runs.set run.id.value run })
  | .evidenceStore bundle, w =>
      (.ok (), { w with
        bundles := w.bundles.set (bundle.tenant.value, bundle.runId.value) bundle })
  | .evidenceStoreDocument document tenant, w =>
      (.ok (), { w with
        documents := w.documents.set (tenant.value, document.sessionId.value) document })
  | .evidenceDeleteForSession tenant sessionId, w =>
      let deletion := w.deleteEvidenceForSession tenant sessionId
      (.ok deletion.1, deletion.2)
  | .mediaRevokeSignatures _ sessionId, w =>
      (.ok (), { w with signatures := w.signatures.erase sessionId.value })
  | .mediaDeleteForSession tenant sessionId, w =>
      let deletion := w.deleteMediaForSession tenant sessionId
      (.ok deletion.1, deletion.2)
  | .streamStateClear sessionId, w => (.ok (), w.clearStreamState sessionId)
  | .auditRecord entry, w => (.ok (), { w with audit := w.audit ++ [entry] })
  | .configurationCurrent tenant, w => (.ok (w.currentConfiguration tenant), w)
  | .configurationFreeze snapshot sessionId, w => (.ok (), w.freeze snapshot sessionId)
  | .quotaCheck application unit epochMs, w => (.ok (w.quotaCheck application unit epochMs), w)
  | .quotaConsume application unit epochMs, w =>
      (.ok (), w.quotaConsume application unit epochMs)

theorem RunId.ext_value {a b : RunId} (h : a.value = b.value) : a = b := by
  cases a
  cases b
  exact congrArg RunId.mk (Identifier.ext_value h)

/-- Every run is stored under its own identifier. -/
def World.RunsKeyed (w : World) : Prop :=
  ∀ key run, w.runs.get? key = some run → run.id.value = key

theorem World.runsKeyed_fresh (configuration : ConfigurationSnapshot) :
    (World.fresh configuration).RunsKeyed := fun key run h => by simp [World.fresh] at h

theorem World.RunsKeyed.set {w : World} (h : w.RunsKeyed) (run : ProcessingRun) :
    ({ w with runs := w.runs.set run.id.value run } : World).RunsKeyed := by
  intro key run' h'
  change (w.runs.set run.id.value run).get? key = some run' at h'
  rw [Dict.get?_set] at h'
  split_ifs at h' with hkey
  · cases h'
    exact hkey.symm
  · exact h key run' h'

theorem runsKeyed_inMemory {w : World} (h : w.RunsKeyed) (o : Port) :
    (inMemory o w).2.RunsKeyed := by
  cases o with
  | runsAdd run | runsSave run => exact h.set run
  | claimIdempotencyKey application key sessionId =>
      simp only [inMemory, World.claimIdempotencyKey]
      split_ifs <;> exact h
  | evidenceDeleteForSession tenant sessionId =>
      simp only [inMemory, World.deleteEvidenceForSession_snd]
      exact h
  | _ => exact h

/-- A use case: a program over the ports. -/
abbrev Command (α : Type) := Program Port Port.Answer Failure α

end OratoriaEngine
