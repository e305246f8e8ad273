import OratoriaEngine.Commands

/-!
# The queries

A query reads through the ports and changes nothing, so it writes no audit record either.
-/

namespace OratoriaEngine

inductive QueryPort
  | sessionsGet (tenant : TenantId) (sessionId : SessionId)
  | evidenceLoadDocument (tenant : TenantId) (sessionId : SessionId)

abbrev QueryPort.Answer : QueryPort → Type
  | .sessionsGet _ _ => Option AnalysisSession
  | .evidenceLoadDocument _ _ => Option EvidenceDocument

def inMemoryQueries : Program.Ports QueryPort QueryPort.Answer Failure World
  | .sessionsGet tenant sessionId, w => (.ok (w.session? tenant sessionId), w)
  | .evidenceLoadDocument tenant sessionId, w => (.ok (w.document? tenant sessionId), w)

abbrev Query (α : Type) := Program QueryPort QueryPort.Answer Failure α

namespace Query

abbrev sessionsGet (tenant : TenantId) (sessionId : SessionId) : Query (Option AnalysisSession) :=
  Program.port (QueryPort.sessionsGet tenant sessionId)

abbrev evidenceLoadDocument (tenant : TenantId) (sessionId : SessionId) :
    Query (Option EvidenceDocument) :=
  Program.port (QueryPort.evidenceLoadDocument tenant sessionId)

def resolve (caller : AuthenticatedCaller) (sessionId : SessionId) : Query AnalysisSession := do
  match ← sessionsGet caller.tenant sessionId with
  | some session => pure session
  | none => Program.raise (.sessionNotFound s!"session {sessionId.value} not found")

theorem run_snd {α : Type} (query : Query α) (fault : Program.FaultPlan Failure) (n : ℕ)
    (w : World) : (query.run inMemoryQueries fault n w).2 = w := by
  induction query generalizing n with
  | done r => rfl
  | call o next ih =>
      have hport : (inMemoryQueries o w).2 = w := by cases o <;> rfl
      rw [Program.run]
      cases fault n with
      | some e => exact ih _ _
      | none =>
          simp only [hport]
          exact ih _ _

end Query

/-- A session's lifecycle and processing status. -/
def ReadSession.execute (caller : AuthenticatedCaller) (sessionId : SessionId) :
    Query AnalysisSession :=
  if caller.allows .sessionsRead then Query.resolve caller sessionId
  else Program.raise (.notAuthorized s!"reading a session requires {Scope.sessionsRead.value}")

/-- The document of a completed session; a deleted one is told from one not completed yet. -/
def ReadResult.document (caller : AuthenticatedCaller) (sessionId : SessionId)
    (session : AnalysisSession) : Query EvidenceDocument :=
  if session.state = .evidenceDeleted then
    Program.raise (.resultNotReady
      s!"evidence for session {sessionId.value} was deleted under the retention policy")
  else if session.state ≠ .completed then
    Program.raise (.resultNotReady (s!"session {sessionId.value} is '{session.state.value}'; " ++
      "the evidence document is available once it completes"))
  else do
    match ← Query.evidenceLoadDocument caller.tenant sessionId with
    | some document => pure document
    | none => Program.raise (.resultNotReady
        s!"no evidence document stored for session {sessionId.value}")

def ReadResult.execute (caller : AuthenticatedCaller) (sessionId : SessionId) :
    Query EvidenceDocument :=
  if caller.allows .resultsRead then do
    let session ← Query.resolve caller sessionId
    ReadResult.document caller sessionId session
  else Program.raise (.notAuthorized s!"reading a result requires {Scope.resultsRead.value}")

end OratoriaEngine
