import OratoriaEngine.PostgresRefinement
import OratoriaEngine.Lib.Simulation

/-!
# Requests on sessions and runs, interleaved

Any number of requests share the adapters, call by call. What a request writes it has added under
an identifier generated for it or has read before, so that every operation is sound whenever it
is made, and the requests cannot tell Postgres from process memory.
-/

namespace OratoriaEngine

open Interleaving Command

inductive SessionRequest
  | create (call : CreateSession.Call)
  | begin (caller : AuthenticatedCaller) (sessionId : SessionId) (wallMs : ℤ)
  | pause (caller : AuthenticatedCaller) (sessionId : SessionId) (wallMs : ℤ)
  | resume (caller : AuthenticatedCaller) (sessionId : SessionId) (wallMs : ℤ)
  | openRun (caller : AuthenticatedCaller) (sessionId : SessionId) (runId : RunId)
      (pipelineVersion : SemanticVersion) (epochMs : ℤ)
  | closeRun (runId : RunId) (succeeded : Bool) (epochMs : ℤ)
  | complete (caller : AuthenticatedCaller) (sessionId : SessionId) (state : StreamingState)
      (configuration : ConfigurationSnapshot) (wallMs nowMs : ℤ)
  | delete (caller : AuthenticatedCaller) (sessionId : SessionId) (nowMs : ℤ)

inductive SessionReply
  | created (result : CreatedSession)
  | session (result : AnalysisSession)
  | opened (run : ProcessingRun)
  | closed
  | completed (result : CompletedSession)
  | deleted (receipt : DeletionReceipt)

namespace SessionRequest

def program : SessionRequest → Command SessionReply
  | create call => SessionReply.created <$> call.program
  | begin caller sessionId wallMs =>
      SessionReply.session <$> CaptureControl.begin caller sessionId wallMs
  | pause caller sessionId wallMs =>
      SessionReply.session <$> CaptureControl.pause caller sessionId wallMs
  | resume caller sessionId wallMs =>
      SessionReply.session <$> CaptureControl.resume caller sessionId wallMs
  | openRun caller sessionId runId pipelineVersion epochMs =>
      SessionReply.opened <$>
        OpenProcessingRun.execute caller sessionId runId pipelineVersion epochMs
  | closeRun runId succeeded epochMs =>
      (fun _ => SessionReply.closed) <$> CloseProcessingRun.execute runId succeeded epochMs
  | complete caller sessionId state configuration wallMs nowMs =>
      SessionReply.completed <$>
        CompleteSession.execute caller sessionId state configuration wallMs nowMs
  | delete caller sessionId nowMs =>
      SessionReply.deleted <$> DeleteEvidence.execute caller sessionId nowMs

def newSession? : SessionRequest → Option SessionId
  | create call => some call.sessionId
  | _ => none

def newRun? : SessionRequest → Option RunId
  | openRun _ _ runId _ _ => some runId
  | _ => none

end SessionRequest

def AnalysisSession.Carries (s t : AnalysisSession) : Prop :=
  t.tenantId = s.tenantId ∧ t.id = s.id ∧
    t.consent.map (·.sessionId) = s.consent.map (·.sessionId)

namespace AnalysisSession

variable {s t u : AnalysisSession} {wallMs : ℤ}

theorem Carries.trans (h : s.Carries t) (h' : t.Carries u) : s.Carries u :=
  ⟨h'.1.trans h.1, h'.2.1.trans h.2.1, h'.2.2.trans h.2.2⟩

theorem Carries.ownReceipt (h : s.Carries t) (hs : s.OwnReceipt) : t.OwnReceipt := by
  obtain ⟨-, hid, hconsent⟩ := h
  intro receipt hreceipt
  have hmem : receipt.sessionId ∈ s.consent.map (·.sessionId) :=
    hconsent ▸ Option.mem_map_of_mem _ hreceipt
  obtain ⟨own, hown, heq⟩ := Option.mem_map.1 hmem
  rw [← heq, hs own hown, hid]

theorem Carries.isSome (h : s.Carries t) : t.consent.isSome = s.consent.isSome := by
  rw [← Option.isSome_map (f := fun c : ConsentReceipt => c.sessionId), h.2.2, Option.isSome_map]

theorem carries_beginCapture (h : s.beginCapture wallMs = .ok t) : s.Carries t := by
  obtain ⟨-, -, h⟩ := Except.bind_eq_ok.1 h
  obtain ⟨state, -, h⟩ := Except.bind_eq_ok.1 h
  cases h
  exact ⟨rfl, rfl, rfl⟩

theorem carries_pauseCapture (h : s.pauseCapture wallMs = .ok t) : s.Carries t := by
  obtain ⟨state, -, h⟩ := Except.bind_eq_ok.1 h
  cases h
  exact ⟨rfl, rfl, rfl⟩

theorem carries_requestCompletion (h : s.requestCompletion wallMs = .ok t) : s.Carries t := by
  obtain ⟨state, -, h⟩ := Except.bind_eq_ok.1 h
  cases h
  exact ⟨rfl, rfl, rfl⟩

theorem carries_markCompleted (h : s.markCompleted wallMs = .ok t) : s.Carries t := by
  obtain ⟨state, -, h⟩ := Except.bind_eq_ok.1 h
  cases h
  exact ⟨rfl, rfl, rfl⟩

theorem ConsentReceipt.withdraw_sessionId {receipt withdrawn : ConsentReceipt} {atMs : ℤ}
    (h : receipt.withdraw atMs = .ok withdrawn) : withdrawn.sessionId = receipt.sessionId := by
  unfold ConsentReceipt.withdraw at h
  split_ifs at h <;> cases h <;> rfl

theorem carries_markEvidenceDeleted (h : s.markEvidenceDeleted wallMs = .ok t) :
    s.Carries t := by
  obtain ⟨state, -, h⟩ := Except.bind_eq_ok.1 h
  obtain ⟨withdrawn, hwithdrawn, h⟩ := Except.bind_eq_ok.1 h
  cases h
  refine ⟨rfl, rfl, ?_⟩
  cases hconsent : s.consent with
  | none =>
      rw [hconsent] at hwithdrawn
      cases hwithdrawn
      rfl
  | some receipt =>
      rw [hconsent] at hwithdrawn
      obtain ⟨own, hown, hwithdrawn⟩ := Except.bind_eq_ok.1 hwithdrawn
      cases hwithdrawn
      exact congrArg some (ConsentReceipt.withdraw_sessionId hown)

end AnalysisSession

def Port.Adds : Port → Bool
  | .sessionsAdd _ | .runsAdd _ => true
  | _ => false

def AddedNothing (past : List (Event Port Port.Answer Failure)) : Prop :=
  ∀ e ∈ past, e.op.Adds = false

theorem AddedNothing.append {past : List (Event Port Port.Answer Failure)}
    (h : AddedNothing past) {o : Port} (ho : o.Adds = false) (r : Except Failure o.Answer) :
    AddedNothing (past ++ [⟨o, r⟩]) := by
  intro e he
  rcases List.mem_append.1 he with he | he
  · exact h e he
  · obtain rfl := List.mem_singleton.1 he
    exact ho

namespace SessionRequest

def Needs (request : SessionRequest) (past : List (Event Port Port.Answer Failure)) :
    Port → Prop
  | .sessionsAdd s =>
      request.newSession? = some s.id ∧ s.OwnReceipt ∧ AddedNothing past
  | .sessionsSave s => ∃ tenant sessionId found,
      ⟨.sessionsGet tenant sessionId, .ok (some found)⟩ ∈ past ∧ found.Carries s
  | .runsAdd run => request.newRun? = some run.id ∧ AddedNothing past ∧
      ∃ tenant found, ⟨.sessionsGet tenant run.sessionId, .ok (some found)⟩ ∈ past
  | .runsSave run => ∃ runId found, ⟨.runsGet runId, .ok (some found)⟩ ∈ past ∧
      run.id = found.id ∧ run.sessionId = found.sessionId
  | _ => True

section Heeds

variable {request : SessionRequest} {past : List (Event Port Port.Answer Failure)} {α : Type}
  {caller : AuthenticatedCaller}

theorem heeds_map {β : Type} {command : Command α} (h : Heeds request.Needs command past)
    (f : α → β) : Heeds request.Needs (f <$> command) past := heeds_bind h fun _ _ => heeds_pure _

theorem heeds_requireScope_bind {scope : Scope} {purpose : String} {f : Unit → Command α}
    (h : Heeds request.Needs (f ()) past) :
    Heeds request.Needs (requireScope caller scope purpose >>= f) past := by
  unfold requireScope
  split_ifs
  · exact h
  · exact heeds_raise _

theorem heeds_resolve_bind {sessionId : SessionId} {f : AnalysisSession → Command α}
    (h : ∀ found, Heeds request.Needs (f found)
      (past ++ [⟨.sessionsGet caller.tenant sessionId, .ok (some found)⟩])) :
    Heeds request.Needs (resolve caller sessionId >>= f) past := by
  unfold resolve
  rw [Program.bind_assoc]
  refine heeds_port_bind trivial fun found => ?_
  cases found with
  | none => exact heeds_raise _
  | some found => exact h found

theorem heeds_captureControl {transition : AnalysisSession → Except Failure AnalysisSession}
    (ht : ∀ s t, transition s = .ok t → s.Carries t) (sessionId : SessionId) :
    Heeds request.Needs (do
      requireScope caller .sessionsWrite "capture control"
      let session ← resolve caller sessionId
      let updated ← Program.ofExcept (transition session)
      sessionsSave updated
      return updated) past := by
  refine heeds_requireScope_bind (heeds_resolve_bind fun found => ?_)
  apply heeds_ofExcept_bind
  intro updated hupdated
  refine heeds_port_bind ⟨caller.tenant, sessionId, found, ?_, ht found updated hupdated⟩
    fun _ => heeds_pure _
  exact List.mem_append_right _ (List.mem_singleton_self _)

theorem heeds_complete (sessionId : SessionId) (state : StreamingState)
    (configuration : ConfigurationSnapshot) (wallMs nowMs : ℤ) :
    Heeds request.Needs (CompleteSession.execute caller sessionId state configuration wallMs nowMs)
      past := by
  refine heeds_requireScope_bind (heeds_resolve_bind fun found => ?_)
  apply heeds_ofExcept_bind
  intro completing hcompleting
  have hcarried := AnalysisSession.carries_requestCompletion hcompleting
  refine heeds_port_bind ⟨caller.tenant, sessionId, found, by simp, hcarried⟩ fun _ => ?_
  apply heeds_ofExcept_bind
  intro evidence _
  refine heeds_port_bind trivial fun _ => heeds_port_bind trivial fun _ => ?_
  apply heeds_ofExcept_bind
  intro completed hcompleted
  have hcarried' := hcarried.trans (AnalysisSession.carries_markCompleted hcompleted)
  refine heeds_port_bind ⟨caller.tenant, sessionId, found, by simp, hcarried'⟩ fun _ => ?_
  exact heeds_port_bind trivial fun _ => heeds_pure _

theorem heeds_delete (sessionId : SessionId) (nowMs : ℤ) :
    Heeds request.Needs (DeleteEvidence.execute caller sessionId nowMs) past := by
  refine heeds_requireScope_bind (heeds_resolve_bind fun found => ?_)
  split_ifs
  · exact heeds_pure _
  · refine heeds_port_bind trivial fun _ => heeds_port_bind trivial fun _ => ?_
    refine heeds_port_bind trivial fun _ => heeds_port_bind trivial fun _ => ?_
    apply heeds_ofExcept_bind
    intro deleted hdeleted
    have hcarried := AnalysisSession.carries_markEvidenceDeleted hdeleted
    refine heeds_port_bind ⟨caller.tenant, sessionId, found, by simp, hcarried⟩ fun _ => ?_
    exact heeds_port_bind trivial fun _ => heeds_pure _

theorem heeds_openRun (sessionId : SessionId) (runId : RunId) (pipelineVersion : SemanticVersion)
    (epochMs : ℤ) (hpast : AddedNothing past) (hrun : request.newRun? = some runId) :
    Heeds request.Needs
      (OpenProcessingRun.execute caller sessionId runId pipelineVersion epochMs) past := by
  refine heeds_requireScope_bind (heeds_resolve_bind fun found => ?_)
  refine heeds_port_bind ⟨hrun, hpast.append rfl _, caller.tenant, found, ?_⟩
    fun _ => heeds_pure _
  exact List.mem_append_right _ (List.mem_singleton_self _)

theorem heeds_closeRun (runId : RunId) (succeeded : Bool) (epochMs : ℤ) :
    Heeds request.Needs (CloseProcessingRun.execute runId succeeded epochMs) past := by
  refine heeds_port_bind trivial fun found => ?_
  cases found with
  | none => exact heeds_pure _
  | some run =>
      refine ⟨⟨runId, run, ?_, rfl, rfl⟩, fun r => ?_⟩
      · exact List.mem_append_right _ (List.mem_singleton_self _)
      · cases r <;> trivial

theorem newSession_ownReceipt {command : CreateSessionCommand} {sessionId : SessionId}
    {capabilities : NegotiatedCapabilities} {snapshot : ConfigurationSnapshot} {nowMs : ℤ}
    {session : AnalysisSession}
    (h : CreateSession.newSession caller command sessionId capabilities snapshot nowMs =
      .ok session) : session.OwnReceipt := by
  obtain ⟨receipt, -, h⟩ := Except.bind_eq_ok.1 h
  unfold AnalysisSession.withConsent at h
  split_ifs at h with hreceipt
  cases h
  intro own hown
  cases hown
  exact hreceipt

theorem heeds_replay_bind {mint : StreamGrant → String} {command : CreateSessionCommand}
    {epochMs : ℤ} {f : Option CreatedSession → Command α} (hpast : AddedNothing past)
    (h : ∀ found past', AddedNothing past' → Heeds request.Needs (f found) past') :
    Heeds request.Needs (CreateSession.replay mint caller command epochMs >>= f) past := by
  unfold CreateSession.replay
  cases command.idempotencyKey with
  | none => exact h none past hpast
  | some key =>
      rw [Program.bind_assoc]
      exact heeds_port_bind trivial fun found => h _ _ (hpast.append rfl _)

theorem heeds_claim_bind {mint : StreamGrant → String} {command : CreateSessionCommand}
    {sessionId : SessionId} {epochMs : ℤ} {f : Option CreatedSession → Command α}
    (hpast : AddedNothing past)
    (h : ∀ found past', AddedNothing past' → Heeds request.Needs (f found) past') :
    Heeds request.Needs (CreateSession.claim mint caller command sessionId epochMs >>= f) past := by
  unfold CreateSession.claim
  cases command.idempotencyKey with
  | none => exact h none past hpast
  | some key =>
      rw [Program.bind_assoc]
      refine heeds_port_bind trivial fun claimed => ?_
      cases claimed with
      | true => exact h none _ (hpast.append rfl _)
      | false => exact heeds_replay_bind (hpast.append rfl _) h

theorem heeds_create (call : CreateSession.Call) (hpast : AddedNothing past)
    (hsession : request.newSession? = some call.sessionId) :
    Heeds request.Needs call.program past := by
  refine heeds_requireScope_bind (heeds_replay_bind hpast fun found past hpast => ?_)
  cases found with
  | some existing => exact heeds_pure _
  | none =>
      refine heeds_port_bind trivial fun decision => ?_
      by_cases hquota : decision.allowed = true
      · simp only [if_pos hquota]
        apply heeds_ofExcept_bind
        intro capabilities _
        refine heeds_port_bind trivial fun snapshot => ?_
        apply heeds_ofExcept_bind
        intro session hnew
        have hnothing := (hpast.append rfl (.ok decision)).append rfl (.ok snapshot)
        refine heeds_claim_bind hnothing fun replayed past hpast => ?_
        cases replayed with
        | some replayed => exact heeds_pure _
        | none =>
            have hid := (CreateSession.newSession_eq_ok hnew).1
            refine heeds_port_bind ⟨by rw [hid, hsession], newSession_ownReceipt hnew, hpast⟩
              fun _ => ?_
            refine heeds_port_bind trivial fun _ => heeds_port_bind trivial fun _ => ?_
            exact heeds_port_bind trivial fun _ => heeds_pure _
      · simp only [if_neg hquota]
        exact heeds_raise _

end Heeds

theorem heeds_program (request : SessionRequest) :
    Heeds request.Needs request.program [] := by
  have hnothing : AddedNothing [] := fun e he => absurd he List.not_mem_nil
  cases request with
  | create call => exact heeds_map (heeds_create call hnothing rfl) _
  | begin caller sessionId wallMs =>
      exact heeds_map
        (heeds_captureControl (fun _ _ => AnalysisSession.carries_beginCapture) sessionId) _
  | pause caller sessionId wallMs =>
      exact heeds_map
        (heeds_captureControl (fun _ _ => AnalysisSession.carries_pauseCapture) sessionId) _
  | resume caller sessionId wallMs =>
      exact heeds_map
        (heeds_captureControl (fun _ _ => AnalysisSession.carries_beginCapture) sessionId) _
  | openRun caller sessionId runId pipelineVersion epochMs =>
      exact heeds_map (heeds_openRun sessionId runId pipelineVersion epochMs hnothing rfl) _
  | closeRun runId succeeded epochMs => exact heeds_map (heeds_closeRun runId succeeded epochMs) _
  | complete caller sessionId state configuration wallMs nowMs =>
      exact heeds_map (heeds_complete sessionId state configuration wallMs nowMs) _
  | delete caller sessionId nowMs => exact heeds_map (heeds_delete sessionId nowMs) _

end SessionRequest

end OratoriaEngine
