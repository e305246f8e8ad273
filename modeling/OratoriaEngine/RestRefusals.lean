import OratoriaEngine.ApiKeyAgreement
import OratoriaEngine.Lib.Refusals
import OratoriaEngine.RestDeployment

/-!
# A refused request changes nothing

Every request is answered. One that is answered with a client error has changed nothing, but for
a deletion: whether the lifecycle and the consent allow it is asked after media and evidence are
gone.
-/

namespace OratoriaEngine

namespace Rest

def isClientError (status : ℕ) : Prop := 400 ≤ status ∧ status < 500

/-- The failure is not answered as the client's error, or a deletion met it in the stored
session. -/
def Benign (request : HttpRequest) (w : World) (e : Failure) : Prop :=
  ¬isClientError (resolve e).1 ∨ ∃ tenant sessionId session,
    request.route = .deleteEvidence sessionId ∧
      (∃ id, SessionId.of sessionId = .ok id ∧ w.session? tenant id = some session) ∧
        session.markEvidenceDeleted (request.epochMs 0) = .error e

def Quiet : RestOp → Prop
  | .authenticate _ _ | .query _ => True
  | .port o => ∀ w, (inMemory o w).2 = w
  | .key _ => False

def Stored (w : World) : (o : RestOp) → o.Answer → Prop
  | .port (.sessionsGet tenant sessionId), found => found = w.session? tenant sessionId
  | _, _ => True

section Commands

open Program Command

variable {request : HttpRequest} {w : World} {caller : AuthenticatedCaller} {α : Type}

abbrev Refuses (request : HttpRequest) (w : World) (command : Command α) : Prop :=
  RefusesFirst (fun o => Quiet (.port o)) (fun o a => Stored w (.port o) a) (Benign request w)
    command

theorem refuses_requireScope_bind {scope : Scope} {purpose : String} {f : Unit → Command α}
    (h : Refuses request w (f ())) :
    Refuses request w (requireScope caller scope purpose >>= f) := by
  unfold requireScope
  split_ifs
  · exact h
  · exact refusesFirst_raise _

variable (mint : StreamGrant → String) {command : CreateSessionCommand}

theorem calls_replay (epochMs : ℤ) :
    Calls (fun o => Quiet (.port o)) (CreateSession.replay mint caller command epochMs) := by
  unfold CreateSession.replay
  cases command.idempotencyKey with
  | none => exact calls_pure _
  | some key => exact calls_bind (calls_port fun _ => rfl) fun _ => calls_pure _

theorem endsWell_replay (epochMs : ℤ) :
    EndsWell (Benign request w) (CreateSession.replay mint caller command epochMs) := by
  unfold CreateSession.replay
  cases command.idempotencyKey with
  | none => exact endsWell_pure _
  | some key => exact endsWell_port_bind fun _ => endsWell_pure _

theorem endsWell_claim (sessionId : SessionId) (epochMs : ℤ) :
    EndsWell (Benign request w) (CreateSession.claim mint caller command sessionId epochMs) := by
  unfold CreateSession.claim
  cases command.idempotencyKey with
  | none => exact endsWell_pure _
  | some key =>
      refine endsWell_port_bind fun claimed => ?_
      cases claimed with
      | false => exact endsWell_replay mint epochMs
      | true => exact endsWell_pure _

theorem refuses_createSession (sessionId : SessionId) (epochMs : ℕ → ℤ) :
    Refuses request w (CreateSession.execute mint caller command sessionId epochMs) := by
  refine refuses_requireScope_bind ?_
  refine refusesFirst_calls_bind (calls_replay mint _) fun existing => ?_
  cases existing with
  | some existing => exact refusesFirst_pure _
  | none =>
      refine refusesFirst_port_bind (fun _ => rfl) fun decision _ => ?_
      by_cases hallowed : decision.allowed = true
      · rw [if_pos hallowed]
        refine refusesFirst_ofExcept_bind fun capabilities _ => ?_
        refine refusesFirst_port_bind (fun _ => rfl) fun snapshot _ => ?_
        refine refusesFirst_ofExcept_bind fun session _ => EndsWell.refusesFirst ?_
        refine endsWell_bind (endsWell_claim mint _ _) fun replayed => ?_
        cases replayed with
        | some replayed => exact endsWell_pure _
        | none =>
            refine endsWell_port_bind fun _ => endsWell_port_bind fun _ => ?_
            exact endsWell_port_bind fun _ => endsWell_port_bind fun _ => endsWell_pure _
      · rw [if_neg hallowed]
        exact refusesFirst_raise _

theorem refuses_deleteEvidence {text : String} {sessionId : SessionId}
    (hroute : request.route = .deleteEvidence text) (hid : SessionId.of text = .ok sessionId) :
    Refuses request w (DeleteEvidence.execute caller sessionId (request.epochMs 0)) := by
  refine refuses_requireScope_bind ?_
  unfold Command.resolve
  rw [bind_assoc]
  refine refusesFirst_port_bind (fun _ => rfl) fun found hfound => ?_
  cases found with
  | none => exact refusesFirst_raise _
  | some session =>
      change RefusesFirst _ _ _ (if session.state = .evidenceDeleted then _ else _)
      split_ifs
      · exact refusesFirst_pure _
      · refine EndsWell.refusesFirst (endsWell_port_bind fun _ => endsWell_port_bind fun _ => ?_)
        refine endsWell_port_bind fun _ => endsWell_port_bind fun _ => ?_
        refine endsWell_ofExcept_bind (fun deleted _ => ?_) fun e he => .inr ?_
        · exact endsWell_port_bind fun _ => endsWell_port_bind fun _ => endsWell_pure _
        · exact ⟨caller.tenant, text, session, hroute, ⟨sessionId, hid, hfound.symm⟩, he⟩

end Commands

section Routes

open Program

variable {request : HttpRequest} {w : World} {caller : AuthenticatedCaller} {engine : RestEngine}

theorem calls_query {α : Type} (query : Query α) :
    Calls Quiet (query.via RestOp.query : RestProgram α) := by
  induction query with
  | done r => trivial
  | call o next ih => exact ⟨trivial, ih⟩

theorem refuses_serveRoute :
    RefusesFirst Quiet (Stored w) (Benign request w) (serveRoute engine request caller) := by
  unfold serveRoute
  cases hroute : request.route with
  | createSession body =>
      refine refusesFirst_ofExcept_bind fun policyVersion _ => ?_
      refine refusesFirst_ofExcept_bind fun mode _ => ?_
      refine refusesFirst_ofExcept_bind fun retention _ => ?_
      exact refusesFirst_bind (refusesFirst_via (refuses_createSession engine.mint _ _))
        fun _ => endsWell_pure _
  | readSession sessionId =>
      refine refusesFirst_ofExcept_bind fun sessionId _ => ?_
      exact refusesFirst_calls_bind (calls_query _) fun _ => refusesFirst_pure _
  | readResult sessionId =>
      refine refusesFirst_ofExcept_bind fun sessionId _ => ?_
      exact refusesFirst_calls_bind (calls_query _) fun _ => refusesFirst_pure _
  | deleteEvidence sessionId =>
      refine refusesFirst_ofExcept_bind fun sessionId hid => ?_
      exact refusesFirst_bind (refusesFirst_via (refuses_deleteEvidence hroute hid))
        fun _ => endsWell_pure _
  | readCapabilities => exact refusesFirst_pure _

theorem refuses_asCaller :
    RefusesFirst Quiet (Stored w) (Benign request w) (asCaller engine request) := by
  unfold asCaller
  cases presentedSecret request with
  | none => exact refusesFirst_pure _
  | some secret =>
      refine refusesFirst_port_bind trivial fun found _ => ?_
      cases found with
      | none => exact refusesFirst_pure _
      | some caller => exact refuses_serveRoute

theorem yields_serveRoute :
    Yields (fun response => ¬isClientError response.status) (serveRoute engine request caller) := by
  have hok : ∀ payload headers, ¬isClientError (HttpResponse.mk 200 payload headers).status := by
    rintro payload headers ⟨h, -⟩
    change 400 ≤ 200 at h
    omega
  unfold serveRoute
  cases request.route with
  | createSession body =>
      refine yields_bind fun _ => yields_bind fun _ => yields_bind fun _ => ?_
      refine yields_bind fun created => yields_pure ?_
      rintro ⟨h, -⟩
      dsimp only at h
      split_ifs at h <;> omega
  | readSession sessionId => exact yields_bind fun _ => yields_bind fun _ => yields_pure (hok _ _)
  | readResult sessionId => exact yields_bind fun _ => yields_bind fun _ => yields_pure (hok _ _)
  | deleteEvidence sessionId =>
      exact yields_bind fun _ => yields_bind fun _ => yields_pure (hok _ _)
  | readCapabilities => exact yields_pure (hok _ _)

end Routes

theorem run_asCaller_of_ok {sha256 : String → String} {clock : ℕ → ℤ} {engine : RestEngine}
    {request : HttpRequest} {w : RestWorld} {fault : Program.FaultPlan Failure}
    {response : HttpResponse} (hstatus : isClientError response.status)
    (h : ((asCaller engine request).run (inMemoryRest sha256 clock) fault 0 w).1 = .ok response) :
    ((asCaller engine request).run (inMemoryRest sha256 clock) fault 0 w).2.world = w.world := by
  unfold asCaller at h ⊢
  cases hsecret : presentedSecret request with
  | none => rfl
  | some secret =>
      simp only [hsecret, Program.port_bind, Program.run] at h ⊢
      cases hfault : fault 0 with
      | some e =>
          rw [hfault] at h
          cases h
      | none =>
          simp only [hfault, inMemoryRest] at h ⊢
          cases hfound : w.keys.authenticate sha256 (clock w.calls) secret (traceId request) with
          | none => rfl
          | some caller =>
              rw [hfound] at h
              have hyields : Program.Yields (fun response => ¬isClientError response.status)
                  (serveRoute engine request caller) := yields_serveRoute
              exact absurd hstatus (hyields.of_run (Prod.ext h rfl))

theorem error_inMemoryRest (sha256 : String → String) (clock : ℕ → ℤ) (o : RestOp) (w : RestWorld)
    (e : Failure) : (inMemoryRest sha256 clock o w).1 ≠ .error e := by
  cases o with
  | port o => cases o <;> exact fun h => by cases h
  | query o => cases o <;> exact fun h => by cases h
  | _ => exact fun h => by cases h

theorem quiet_inMemoryRest (sha256 : String → String) (clock : ℕ → ℤ) {w : World} (o : RestOp)
    (u : RestWorld) (hu : u.world = w) (ho : Quiet o) :
    (inMemoryRest sha256 clock o u).2.world = w ∧
      ∀ a, (inMemoryRest sha256 clock o u).1 = .ok a → Stored w o a := by
  cases o with
  | port o =>
      refine ⟨(ho u.world).trans hu, fun a ha => ?_⟩
      cases o with
      | sessionsGet tenant sessionId =>
          cases ha
          exact congrArg (fun v : World => v.session? tenant sessionId) hu
      | _ => trivial
  | query o =>
      refine ⟨?_, fun _ _ => trivial⟩
      cases o <;> exact hu
  | authenticate secret trace => exact ⟨hu, fun _ _ => trivial⟩
  | key keyCall => exact absurd ho id

end Rest

open Rest in
/-- Whatever calls of it fail, as long as these are failures of the engine's surroundings: a
request is answered, and if it is answered with a client error then it has changed nothing, or it
is a deletion that the stored session refuses. -/
theorem refused_changes_nothing (sha256 : String → String) (clock : ℕ → ℤ) (engine : RestEngine)
    (request : HttpRequest) (w : RestWorld) (fault : Program.FaultPlan Failure)
    (hfault : ∀ n e, fault n = some e → ¬isClientError (resolve e).1) :
    ∃ response w', (serve engine request).run (inMemoryRest sha256 clock) fault 0 w =
        (.ok response, w') ∧
      (isClientError response.status → w'.world = w.world ∨
        ∃ text sessionId tenant session e, request.route = .deleteEvidence text ∧
          SessionId.of text = .ok sessionId ∧
          w.world.session? tenant sessionId = some session ∧
          session.markEvidenceDeleted (request.epochMs 0) = .error e ∧
          response = handle engine request e) := by
  obtain ⟨response, hrun, hresponse⟩ := Program.run_rescue_pure (inMemoryRest sha256 clock) fault
    (asCaller engine request) (handle engine request) 0 w
  refine ⟨response, _, hrun, fun hstatus => ?_⟩
  rcases hresponse with hok | ⟨e, herror, rfl⟩
  · exact .inl (run_asCaller_of_ok hstatus hok)
  · have hrefuses : Benign request w.world e ∨
        ((asCaller engine request).run (inMemoryRest sha256 clock) fault 0 w).2.world = w.world :=
      refuses_asCaller.run (fun o u e' he' => absurd he' (error_inMemoryRest sha256 clock o u e'))
        (fun n e' he' => .inl (hfault n e' he')) (quiet_inMemoryRest sha256 clock) 0 rfl e herror
    rcases hrefuses with (hserver | ⟨tenant, text, session, hroute, ⟨id, hid, hstored⟩, he⟩) | hsame
    · exact absurd hstatus hserver
    · exact .inr ⟨text, id, tenant, session, e, hroute, hid, hstored, he, rfl⟩
    · exact .inl hsame

def readingKey : KeyGrant := { studyKey with scopes := [.resultsRead] }

def studyRest : RestEngine where
  mint _ := "token"
  schemaVersion := ⟨1, 0, 0⟩
  floatText _ := ""

def creation : HttpRequest where
  authorization := some "Bearer oek_study"
  traceHeader := some "trace-1"
  idempotencyKey := none
  route := .createSession ⟨"realtime", (studyCommand none).capabilities, "1.0.0", false, 0, true⟩
  uuid := "0"
  sessionId := studySessionId
  epochMs _ := 0
  wallMs := 0

def readingDeployment : RestWorld where
  keys := InMemoryApiKeyDirectory.after studySha256 "pepper" [.issue readingKey]
  world := World.fresh defaultConfiguration
  calls := 0

theorem refused_changes_nothing_study :
    ∃ response w', (Rest.serve studyRest creation).run (inMemoryRest studySha256 fun _ => 0)
        Program.noFault 0 readingDeployment = (.ok response, w') ∧
      response.status = 403 ∧ w'.world = World.fresh defaultConfiguration := by
  obtain ⟨response, w', hrun, hrefused⟩ := refused_changes_nothing studySha256 (fun _ => 0)
    studyRest creation readingDeployment Program.noFault (by rintro n e ⟨⟩)
  have hstatus : response.status = 403 := by
    have hanswer := congrArg (fun served => served.1.toOption.map HttpResponse.status) hrun
    exact (Option.some.inj (hanswer.symm.trans rfl)).trans rfl
  refine ⟨response, w', hrun, hstatus, ?_⟩
  rcases hrefused ⟨by omega, by omega⟩ with hsame | ⟨text, _, _, _, _, hroute, -⟩
  · exact hsame
  · cases hroute

end OratoriaEngine
