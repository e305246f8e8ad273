import OratoriaEngine.Commands

/-!
# What a failed completion leaves behind

Completion saves the session as completing before it assembles and stores anything.
From that save on, every exception leaves the session in another state than the one
it was found in.
-/

namespace OratoriaEngine.CompleteSession

open Program

variable (caller : AuthenticatedCaller) (sessionId : SessionId) (state : StreamingState)
  (configuration : ConfigurationSnapshot) (wallMs nowMs : ℤ) (fault : FaultPlan Failure)

def SameRepositories (w w' : World) : Prop :=
  w'.sessions = w.sessions ∧ w'.bundles = w.bundles ∧ w'.documents = w.documents

/-- A completion that raises leaves both repositories as they were. -/
def AllOrNothing (w : World) : Prop :=
  RaisesIn inMemory fault (SameRepositories w)
    (execute caller sessionId state configuration wallMs nowMs) 0 w

variable {caller sessionId state configuration wallMs nowMs fault} {w u : World}
  {session moved : AnalysisSession}

theorem not_sameRepositories (hs : w.session? caller.tenant sessionId = some session)
    (hne : moved.state ≠ session.state)
    (hu : u.session? caller.tenant sessionId = some moved) : ¬SameRepositories w u := by
  rintro ⟨hsessions, -, -⟩
  have hsame : u.session? caller.tenant sessionId = w.session? caller.tenant sessionId := by
    rw [World.session?, World.session?, hsessions]
  rw [hu, hs, Option.some.injEq] at hsame
  exact hne (congrArg AnalysisSession.state hsame)

theorem session?_saved (hs : w.session? caller.tenant sessionId = some session)
    (hm : session.SameIdentity moved) (u : World) :
    (u.putSession moved).session? caller.tenant sessionId = some moved := by
  obtain ⟨htenant, hid⟩ := World.session?_eq_some hs
  rw [World.session?_putSession, if_pos]
  exact ⟨hm.2.2.1.trans htenant, hm.1.trans hid⟩

theorem raisesIn_port_bind_iff {k : ℕ} {o : Port} {a : o.Answer} {u' : World}
    (ho : inMemory o u = (.ok a, u')) (hu : ¬SameRepositories w u) {α : Type}
    {f : o.Answer → Command α} :
    RaisesIn inMemory fault (SameRepositories w) (port o >>= f) k u ↔
      fault k = none ∧ RaisesIn inMemory fault (SameRepositories w) (f a) (k + 1) u' := by
  cases hf : fault k with
  | some e =>
      rw [raisesIn_port_bind_of_fault hf]
      simp [hu]
  | none =>
      rw [raisesIn_port_bind_of_served hf ho]
      simp

theorem raisesIn_store_iff (hs : w.session? caller.tenant sessionId = some session)
    (hcompletable : session.state.canTransition .completing = true)
    (hidentity : session.SameIdentity moved) (hmoved : moved.state = .completing)
    (bundle : EvidenceBundle) (document : EvidenceDocument) (entry : AuditRecord) :
    RaisesIn inMemory fault (SameRepositories w) (do
      Command.evidenceStore bundle
      Command.evidenceStoreDocument document caller.tenant
      let completed ← Program.ofExcept (moved.markCompleted nowMs)
      Command.sessionsSave completed
      Command.auditRecord entry
      return ⟨completed, document⟩ : Command CompletedSession) 2 (w.putSession moved) ↔
    fault 2 = none ∧ fault 3 = none ∧ fault 4 = none ∧ fault 5 = none := by
  have hopen : session.state ≠ .completing ∧ session.state ≠ .completed := by
    constructor <;> intro h <;> rw [h] at hcompletable <;> exact absurd hcompletable (by decide)
  have hsaved := session?_saved hs hidentity w
  have hchanged : ∀ u : World, u.session? caller.tenant sessionId = some moved →
      ¬SameRepositories w u := fun u hu =>
    not_sameRepositories hs (by rw [hmoved]; exact hopen.1.symm) hu
  rw [raisesIn_port_bind_iff rfl (hchanged _ (by exact hsaved))]
  refine and_congr_right fun _ => ?_
  rw [raisesIn_port_bind_iff rfl (hchanged _ (by exact hsaved))]
  refine and_congr_right fun _ => ?_
  obtain ⟨completed, hcompleted⟩ := AnalysisSession.markCompleted_isOk nowMs hmoved
  obtain ⟨hstate, -, hkept⟩ := AnalysisSession.markCompleted_eq_ok hcompleted
  rw [hcompleted]
  change RaisesIn inMemory fault (SameRepositories w) (do
    Command.sessionsSave completed
    Command.auditRecord entry
    return ⟨completed, document⟩ : Command CompletedSession) 4 _ ↔ _
  rw [raisesIn_port_bind_iff rfl (hchanged _ (by exact hsaved))]
  refine and_congr_right fun _ => ?_
  have hconcluded : ∀ u : World, u.session? caller.tenant sessionId = some completed →
      ¬SameRepositories w u := fun u hu =>
    not_sameRepositories hs (by rw [hstate]; exact hopen.2.symm) hu
  have hsaved' := session?_saved hs (hidentity.trans hkept)
  rw [raisesIn_port_bind_iff rfl (hconcluded _ (by exact hsaved' _))]
  exact and_iff_left (raisesIn_pure _)

/-- A completion keeps both repositories when it raises exactly when it is refused before its
first save, or no port fails and the configuration declares the taxonomy of this build. -/
theorem allOrNothing_iff (caller : AuthenticatedCaller) (sessionId : SessionId)
    (state : StreamingState) (configuration : ConfigurationSnapshot) (wallMs nowMs : ℤ)
    (fault : FaultPlan Failure) (w : World) :
    AllOrNothing caller sessionId state configuration wallMs nowMs fault w ↔
      (caller.allows .sessionsWrite = true → fault 0 = none →
        ∀ session, w.session? caller.tenant sessionId = some session →
          session.state.canTransition .completing = true → fault 1 = none →
            configuration.taxonomyVersion = taxonomyVersion ∧ Served fault 6) := by
  have hsame : SameRepositories w w := ⟨rfl, rfl, rfl⟩
  unfold AllOrNothing execute
  rw [Command.raisesIn_requireScope_bind_iff caller hsame]
  refine imp_congr_right fun _ => ?_
  rw [Command.raisesIn_resolve_bind_iff caller hsame]
  refine imp_congr_right fun h0 => forall_congr' fun session => imp_congr_right fun hs => ?_
  cases hrequest : session.requestCompletion wallMs with
  | error e =>
      have hclosed : session.state.canTransition .completing ≠ true := fun hc => by
        obtain ⟨completing, hok⟩ := AnalysisSession.requestCompletion_isOk wallMs hc
        rw [hrequest] at hok
        cases hok
      exact iff_of_true ((raisesIn_error_iff e).2 hsame) fun hc => absurd hc hclosed
  | ok completing =>
      obtain ⟨hstate, hc, hidentity⟩ := AnalysisSession.requestCompletion_eq_ok hrequest
      simp only [hc, true_implies]
      change RaisesIn inMemory fault (SameRepositories w) (do
        Command.sessionsSave completing
        let evidence ← Program.ofExcept
          (assembleEvidence state completing configuration caller.tenant sessionId wallMs)
        _) 1 w ↔ _
      cases h1 : fault 1 with
      | some e =>
          rw [raisesIn_port_bind_of_fault h1]
          simpa using hsame
      | none =>
          rw [raisesIn_port_bind_of_served h1 rfl]
          simp only [true_implies]
          have hassemble := assembleEvidence_isOk_iff state completing configuration caller.tenant
            sessionId wallMs
          cases hevidence : assembleEvidence state completing configuration caller.tenant sessionId
              wallMs with
          | error e =>
              rw [hevidence] at hassemble
              have hother : configuration.taxonomyVersion ≠ taxonomyVersion := fun h => by
                obtain ⟨r, hr⟩ := hassemble.2 h
                cases hr
              refine iff_of_false (fun h => ?_) fun h => hother h.1
              refine not_sameRepositories hs ?_ (session?_saved hs hidentity w)
                ((raisesIn_error_iff e).1 h)
              rw [hstate]
              intro h
              rw [← h] at hc
              exact absurd hc (by decide)
          | ok evidence =>
              rw [and_iff_right (hassemble.1 ⟨evidence, hevidence⟩)]
              apply (raisesIn_store_iff hs hc hidentity hstate _ _ _).trans
              constructor
              · rintro ⟨h2, h3, h4, h5⟩
                exact (((((served_zero fault).succ h0).succ h1).succ h2).succ h3).succ h4 |>.succ h5
              · intro h
                exact ⟨h 2 (by decide), h 3 (by decide), h 4 (by decide), h 5 (by decide)⟩

def documentLost : FaultPlan Failure := fun n =>
  if n = 3 then some (.foreign "OperationalError" "connection lost") else none

/-- The session is left completing, and its bundle without a document. -/
theorem not_allOrNothing_of_documentLost :
    ¬AllOrNothing operator studySessionId (.fresh studyRunId studySessionId) defaultConfiguration
      1000 1000 documentLost (study .capturing) := by
  intro h
  obtain ⟨hsessions, -, -⟩ :=
    h (.foreign "OperationalError" "connection lost") _ (Prod.ext (by rfl) rfl)
  have hstate := congrArg
    (fun t => (t.entries.get? ("tenant-1", "session-1")).map (·.state)) hsessions
  exact absurd hstate (by decide)

end OratoriaEngine.CompleteSession
