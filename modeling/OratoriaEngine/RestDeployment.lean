import OratoriaEngine.Lib.ConfinedThreads
import OratoriaEngine.RestSurface

/-!
# Requests and keys on one deployment

Any number of requests are served on the in-memory adapters, call by call, while keys are issued
and revoked. A request acts under a key that authenticated it, for the tenant and the
application of that key and as far as its scopes go, and nothing else changes what is stored.
-/

namespace OratoriaEngine

open Interleaving

/-- One who comes to the deployment: a client with a request, or an administrator. -/
inductive RestVisitor
  | request (request : HttpRequest)
  | administer (call : KeyCall)

/-- The response to a request; an administrator has none. -/
def RestVisitor.program (engine : RestEngine) : RestVisitor → RestProgram (Option HttpResponse)
  | .request incoming => do
      let response ← Rest.serve engine incoming
      return some response
  | .administer call => do
      (Program.port (RestOp.key call) : RestProgram Unit)
      return none

/-- The key directory and the adapters, and how many calls they have served. -/
structure RestWorld where
  keys : InMemoryApiKeyDirectory
  world : World
  calls : ℕ

def inMemoryRest (sha256 : String → String) (clock : ℕ → ℤ) :
    Program.Ports RestOp RestOp.Answer Failure RestWorld
  | .authenticate presentedSecret traceId, w =>
      (.ok (w.keys.authenticate sha256 (clock w.calls) presentedSecret traceId),
        { w with calls := w.calls + 1 })
  | .port o, w =>
      let served := inMemory o w.world
      (served.1, { w with world := served.2, calls := w.calls + 1 })
  | .query o, w =>
      let served := inMemoryQueries o w.world
      (served.1, { w with world := served.2, calls := w.calls + 1 })
  | .key call, w => (.ok (), { w with keys := w.keys.next sha256 call, calls := w.calls + 1 })

namespace Rest

/-- The operations of a request made by the caller. No request stores evidence or a run. -/
def Authorized (caller : AuthenticatedCaller) : Port → Prop
  | .sessionsGet tenant _ | .configurationCurrent tenant => tenant = caller.tenant
  | .findByIdempotencyKey application _ | .claimIdempotencyKey application _ _
  | .quotaCheck application _ _ | .quotaConsume application _ _ =>
      caller.allows .sessionsWrite = true ∧ application = caller.application
  | .sessionsAdd session =>
      caller.allows .sessionsWrite = true ∧ session.tenantId = caller.tenant ∧
        session.applicationId = caller.application
  | .configurationFreeze _ _ => caller.allows .sessionsWrite = true
  | .sessionsSave session =>
      caller.allows .evidenceDelete = true ∧ session.tenantId = caller.tenant
  | .mediaRevokeSignatures tenant _ | .mediaDeleteForSession tenant _
  | .evidenceDeleteForSession tenant _ =>
      caller.allows .evidenceDelete = true ∧ tenant = caller.tenant
  | .streamStateClear _ => caller.allows .evidenceDelete = true
  | .auditRecord entry =>
      entry.actor = caller.application.value ∧ entry.tenant = some caller.tenant ∧
        entry.traceId = caller.traceId
  | .runsAdd _ | .runsGet _ | .runsSave _ | .evidenceStore _ | .evidenceStoreDocument _ _ => False

def MayRead (caller : AuthenticatedCaller) : QueryPort → Prop
  | .sessionsGet tenant _ =>
      tenant = caller.tenant ∧
        (caller.allows .sessionsRead = true ∨ caller.allows .resultsRead = true)
  | .evidenceLoadDocument tenant _ =>
      tenant = caller.tenant ∧ caller.allows .resultsRead = true

def Found : (o : Port) → o.Answer → Prop
  | .sessionsGet tenant _, found => ∀ session, found = some session → session.tenantId = tenant
  | _, _ => True

section Commands

open Program Command

variable {caller : AuthenticatedCaller} {α : Type}

theorem confined_requireScope_bind {scope : Scope} {purpose : String} {f : Unit → Command α}
    (h : caller.allows scope = true → Confined (Authorized caller) Found (f ())) :
    Confined (Authorized caller) Found (requireScope caller scope purpose >>= f) := by
  unfold requireScope
  split_ifs with hallows
  · exact h hallows
  · exact confined_raise _

theorem confined_deleteEvidence (sessionId : SessionId) (nowMs : ℤ) :
    Confined (Authorized caller) Found (DeleteEvidence.execute caller sessionId nowMs) := by
  refine confined_requireScope_bind fun hallows => ?_
  unfold Command.resolve
  rw [bind_assoc]
  refine confined_port_bind rfl fun found hfound => ?_
  cases found with
  | none => exact confined_raise _
  | some session =>
      change Confined _ _ (if session.state = .evidenceDeleted then _ else _)
      split_ifs
      · exact confined_pure _
      · refine confined_port_bind ⟨hallows, rfl⟩ fun _ _ => ?_
        refine confined_port_bind ⟨hallows, rfl⟩ fun _ _ => ?_
        refine confined_port_bind ⟨hallows, rfl⟩ fun _ _ => ?_
        refine confined_port_bind hallows fun _ _ => ?_
        apply confined_ofExcept_bind
        intro deleted hdeleted
        have htenant := (AnalysisSession.markEvidenceDeleted_eq_ok hdeleted).2.2.2.2.1
        refine confined_port_bind ⟨hallows, htenant.trans (hfound session rfl)⟩ fun _ _ => ?_
        exact confined_port_bind ⟨rfl, rfl, rfl⟩ fun _ _ => confined_pure _

variable (mint : StreamGrant → String) {command : CreateSessionCommand}

theorem confined_replay (hallows : caller.allows .sessionsWrite = true) (epochMs : ℤ) :
    Confined (Authorized caller) Found (CreateSession.replay mint caller command epochMs) := by
  unfold CreateSession.replay
  cases command.idempotencyKey with
  | none => exact confined_pure _
  | some key => exact confined_port_bind ⟨hallows, rfl⟩ fun _ _ => confined_pure _

theorem confined_claim (hallows : caller.allows .sessionsWrite = true) (sessionId : SessionId)
    (epochMs : ℤ) :
    Confined (Authorized caller) Found
      (CreateSession.claim mint caller command sessionId epochMs) := by
  unfold CreateSession.claim
  cases command.idempotencyKey with
  | none => exact confined_pure _
  | some key =>
      refine confined_port_bind ⟨hallows, rfl⟩ fun claimed _ => ?_
      cases claimed with
      | false => exact confined_replay mint hallows epochMs
      | true => exact confined_pure _

theorem confined_createSession (sessionId : SessionId) (epochMs : ℕ → ℤ) :
    Confined (Authorized caller) Found
      (CreateSession.execute mint caller command sessionId epochMs) := by
  refine confined_requireScope_bind fun hallows => ?_
  refine confined_bind (confined_replay mint hallows _) fun existing => ?_
  cases existing with
  | some existing => exact confined_pure _
  | none =>
      refine confined_port_bind ⟨hallows, rfl⟩ fun decision _ => ?_
      by_cases hallowed : decision.allowed = true
      · rw [if_pos hallowed]
        apply confined_ofExcept_bind
        intro capabilities _
        refine confined_port_bind rfl fun snapshot _ => ?_
        apply confined_ofExcept_bind
        intro session hsession
        obtain ⟨-, happlication, htenant⟩ := CreateSession.newSession_eq_ok hsession
        refine confined_bind (confined_claim mint hallows _ _) fun replayed => ?_
        cases replayed with
        | some replayed => exact confined_pure _
        | none =>
            refine confined_port_bind ⟨hallows, htenant, happlication⟩ fun _ _ => ?_
            refine confined_port_bind hallows fun _ _ => ?_
            refine confined_port_bind ⟨rfl, rfl, rfl⟩ fun _ _ => ?_
            exact confined_port_bind ⟨hallows, rfl⟩ fun _ _ => confined_pure _
      · rw [if_neg hallowed]
        exact confined_raise _

theorem confined_resolve (sessionId : SessionId)
    (hallows : caller.allows .sessionsRead = true ∨ caller.allows .resultsRead = true) :
    Confined (MayRead caller) (fun _ _ => True) (Query.resolve caller sessionId) := by
  refine confined_port_bind ⟨rfl, hallows⟩ fun found _ => ?_
  cases found with
  | none => exact confined_raise _
  | some session => exact confined_pure _

theorem confined_readSession (sessionId : SessionId) :
    Confined (MayRead caller) (fun _ _ => True) (ReadSession.execute caller sessionId) := by
  unfold ReadSession.execute
  split_ifs with hallows
  · exact confined_resolve sessionId (.inl hallows)
  · exact confined_raise _

theorem confined_readResult (sessionId : SessionId) :
    Confined (MayRead caller) (fun _ _ => True) (ReadResult.execute caller sessionId) := by
  unfold ReadResult.execute
  split_ifs with hallows
  · refine confined_bind (confined_resolve sessionId (.inr hallows)) fun session => ?_
    unfold ReadResult.document
    split_ifs
    · exact confined_raise _
    · exact confined_raise _
    · refine confined_port_bind ⟨rfl, hallows⟩ fun found _ => ?_
      cases found with
      | none => exact confined_raise _
      | some document => exact confined_pure _
  · exact confined_raise _

end Commands

section Requests

open Program

variable (vouched : AuthenticatedCaller → Prop) (request : HttpRequest)

def Allowed : RestOp → Prop
  | .authenticate secret trace => presentedSecret request = some secret ∧ trace = traceId request
  | .port o => ∃ caller, vouched caller ∧ Authorized caller o
  | .query o => ∃ caller, vouched caller ∧ MayRead caller o
  | .key _ => False

def Trusted : (o : RestOp) → o.Answer → Prop
  | .authenticate _ _, found => ∀ caller, found = some caller → vouched caller
  | .port o, answer => Found o answer
  | _, _ => True

variable {vouched request} {engine : RestEngine} {caller : AuthenticatedCaller} {α : Type}

theorem confined_command (hcaller : vouched caller) {command : Command α}
    (h : Confined (Authorized caller) Found command) :
    Confined (Allowed vouched request) (Trusted vouched) (command.via RestOp.port) :=
  confined_via (h.mono (fun _ ho => ⟨caller, hcaller, ho⟩) fun _ _ ha => ha)

theorem confined_query (hcaller : vouched caller) {query : Query α}
    (h : Confined (MayRead caller) (fun _ _ => True) query) :
    Confined (Allowed vouched request) (Trusted vouched) (query.via RestOp.query) :=
  confined_via (h.mono (fun _ ho => ⟨caller, hcaller, ho⟩) fun _ _ ha => ha)

theorem confined_serveRoute (hcaller : vouched caller) :
    Confined (Allowed vouched request) (Trusted vouched) (serveRoute engine request caller) := by
  unfold serveRoute
  cases request.route with
  | createSession body =>
      refine confined_ofExcept_bind fun policyVersion _ => ?_
      refine confined_ofExcept_bind fun mode _ => confined_ofExcept_bind fun retention _ => ?_
      exact confined_bind (confined_command hcaller (confined_createSession engine.mint _ _))
        fun _ => confined_pure _
  | readSession sessionId =>
      refine confined_ofExcept_bind fun sessionId _ => ?_
      exact confined_bind (confined_query hcaller (confined_readSession sessionId))
        fun _ => confined_pure _
  | readResult sessionId =>
      refine confined_ofExcept_bind fun sessionId _ => ?_
      exact confined_bind (confined_query hcaller (confined_readResult sessionId))
        fun _ => confined_pure _
  | deleteEvidence sessionId =>
      refine confined_ofExcept_bind fun sessionId _ => ?_
      exact confined_bind (confined_command hcaller (confined_deleteEvidence sessionId _))
        fun _ => confined_pure _
  | readCapabilities => exact confined_pure _

theorem confined_serve : Confined (Allowed vouched request) (Trusted vouched)
    (serve engine request) := by
  refine confined_rescue ?_ fun failure q hq => ?_
  · unfold asCaller
    cases hsecret : presentedSecret request with
    | none => exact confined_pure _
    | some secret =>
        refine confined_port_bind ⟨hsecret, rfl⟩ fun found hfound => ?_
        cases found with
        | none => exact confined_pure _
        | some caller => exact confined_serveRoute (hfound caller rfl)
  · cases hq
    exact confined_pure _

end Requests

section Stored

variable {caller : AuthenticatedCaller} {o : Port} {tenant : TenantId}

theorem found_inMemory (o : Port) (w : World) (answer : o.Answer)
    (h : (inMemory o w).1 = .ok answer) : Found o answer := by
  cases o with
  | sessionsGet tenant sessionId =>
      cases h
      exact fun session hfound => (World.session?_eq_some hfound).1
  | _ => trivial

theorem session?_inMemory (h : Authorized caller o) (w : World) (sessionId : SessionId)
    (hother : ¬(caller.tenant = tenant ∧
      (caller.allows .sessionsWrite = true ∨ caller.allows .evidenceDelete = true))) :
    (inMemory o w).2.session? tenant sessionId = w.session? tenant sessionId := by
  have hput : ∀ session : AnalysisSession, session.tenantId ≠ tenant →
      (w.putSession session).session? tenant sessionId = w.session? tenant sessionId :=
    fun session hne => by
      rw [World.session?_putSession, if_neg]
      exact fun hsame => hne hsame.1
  cases o with
  | sessionsAdd session =>
      exact hput session fun hsame => hother ⟨h.2.1.symm.trans hsame, .inl h.1⟩
  | sessionsSave session =>
      exact hput session fun hsame => hother ⟨h.2.symm.trans hsame, .inr h.1⟩
  | claimIdempotencyKey application key claimed =>
      simp only [inMemory, World.claimIdempotencyKey]
      split_ifs <;> rfl
  | evidenceDeleteForSession t session =>
      simp only [inMemory, World.deleteEvidenceForSession_snd]
      rfl
  | _ => rfl

theorem document?_inMemory (h : Authorized caller o) (w : World) (sessionId : SessionId)
    (hother : ¬(caller.tenant = tenant ∧ caller.allows .evidenceDelete = true)) :
    (inMemory o w).2.document? tenant sessionId = w.document? tenant sessionId := by
  cases o with
  | evidenceDeleteForSession t session =>
      refine (World.document?_deleteEvidenceForSession _ _ _ _ _).trans (if_neg ?_)
      rintro ⟨hsame, -⟩
      exact hother ⟨h.2.symm.trans hsame.symm, h.1⟩
  | claimIdempotencyKey application key claimed =>
      simp only [inMemory, World.claimIdempotencyKey]
      split_ifs <;> rfl
  | _ => first | rfl | exact absurd h id

end Stored

section Deployment

open Program

variable {ι : Type} [DecidableEq ι]

abbrev RestConfig (ι : Type) :=
  Config RestOp RestOp.Answer Failure (Option HttpResponse) RestWorld ι

/-- The deployment before anyone has come. -/
def start (engine : RestEngine) (visitors : ι → RestVisitor) (w : RestWorld) : RestConfig ι :=
  ⟨w, fun i => Thread.start ((visitors i).program engine)⟩

/-- At some point of the run the directory answers the secret of the request with the caller. -/
def Authenticated (sha256 : String → String) (clock : ℕ → ℤ) (c : RestConfig ι)
    (schedule : List (Choice Failure ι)) (request : HttpRequest) (caller : AuthenticatedCaller) :
    Prop :=
  ∃ earlier later secret, schedule = earlier ++ later ∧ presentedSecret request = some secret ∧
    let w := (Interleaving.run (inMemoryRest sha256 clock) c earlier).world
    w.keys.authenticate sha256 (clock w.calls) secret (traceId request) = some caller

def VisitorAllowed (vouched : HttpRequest → AuthenticatedCaller → Prop) :
    RestVisitor → RestOp → Prop
  | .request incoming, o => Allowed (vouched incoming) incoming o
  | .administer keyCall, o => o = .key keyCall

def VisitorTrusted (vouched : HttpRequest → AuthenticatedCaller → Prop) :
    RestVisitor → (o : RestOp) → o.Answer → Prop
  | .request incoming, o, answer => Trusted (vouched incoming) o answer
  | .administer _, _, _ => True

theorem exists_request {vouched : HttpRequest → AuthenticatedCaller → Prop}
    {visitor : RestVisitor} {o : RestOp} (h : VisitorAllowed vouched visitor o)
    (ho : ∀ keyCall, o ≠ .key keyCall) :
    ∃ request, visitor = .request request ∧ Allowed (vouched request) request o := by
  cases visitor with
  | request incoming => exact ⟨incoming, rfl, h⟩
  | administer keyCall => exact absurd h (ho keyCall)

theorem confined_program (vouched : HttpRequest → AuthenticatedCaller → Prop)
    (engine : RestEngine) (visitor : RestVisitor) :
    Confined (VisitorAllowed vouched visitor) (VisitorTrusted vouched visitor)
      (visitor.program engine) := by
  cases visitor with
  | request incoming =>
      have hserve : Confined (Allowed (vouched incoming) incoming) (Trusted (vouched incoming))
          (serve engine incoming) := confined_serve
      exact confined_bind hserve fun _ => confined_pure _
  | administer keyCall =>
      have hallowed : VisitorAllowed vouched (.administer keyCall) (.key keyCall) := rfl
      exact confined_port_bind hallowed fun _ _ => confined_pure _

/-- Requests make only calls that a key of theirs allows, and what such calls keep is kept. -/
theorem run_allowed (sha256 : String → String) (clock : ℕ → ℤ) (engine : RestEngine)
    (visitors : ι → RestVisitor) (w : RestWorld) (schedule : List (Choice Failure ι))
    {P : World → Prop} (hP : P w.world)
    (hkeep : ∀ i request caller o w', visitors i = .request request →
      Authenticated sha256 clock (start engine visitors w) schedule request caller →
        Authorized caller o → P w' → P (inMemory o w').2) :
    let c := Interleaving.run (inMemoryRest sha256 clock) (start engine visitors w) schedule
    P c.world.world ∧ ∀ i, ∀ e ∈ (c.threads i).past, VisitorAllowed
      (Authenticated sha256 clock (start engine visitors w) schedule) (visitors i) e.op := by
  intro c
  have hrun := run_confined
    (fun i => VisitorAllowed
      (Authenticated sha256 clock (start engine visitors w) schedule) (visitors i))
    (fun i => VisitorTrusted
      (Authenticated sha256 clock (start engine visitors w) schedule) (visitors i))
    (inMemoryRest sha256 clock) (P := fun w' => P w'.world) (c := start engine visitors w)
    (fun i => ⟨fun e he => (by cases he), confined_program _ engine _⟩) hP schedule ?_
  · exact ⟨hrun.1, fun i => (hrun.2 i).1⟩
  · intro earlier i later heq hkept o ho
    cases hvisitor : visitors i with
    | administer keyCall =>
        rw [hvisitor] at ho
        obtain rfl : o = .key keyCall := ho
        exact ⟨hkept, fun _ _ => trivial⟩
    | request incoming =>
        rw [hvisitor] at ho
        cases o with
        | authenticate secret trace =>
            obtain ⟨hsecret, rfl⟩ := ho
            refine ⟨hkept, fun found hfound caller hcaller => ?_⟩
            refine ⟨earlier, (i, none) :: later, secret, heq, hsecret, ?_⟩
            exact (Except.ok.inj hfound).trans hcaller
        | port o =>
            obtain ⟨caller, hvouched, hauthorized⟩ := ho
            refine ⟨hkeep i incoming caller o _ hvisitor hvouched hauthorized hkept, ?_⟩
            exact fun answer => found_inMemory o _ answer
        | query o =>
            refine ⟨?_, fun _ _ => trivial⟩
            cases o <;> exact hkept
        | key keyCall => exact absurd ho id

end Deployment

end Rest

/-- Whatever requests come, in whatever order their calls and the changes to the keys are served
and whichever of them fail: every operation a request makes is one its caller is authorized to,
whom the directory answered to the request's own secret at some point of the run; and a session
or a document that changed is of the tenant of such a caller, who has the scope for it. -/
theorem requests_act_under_keys {ι : Type} [DecidableEq ι] (sha256 : String → String)
    (clock : ℕ → ℤ) (engine : RestEngine) (visitors : ι → RestVisitor) (w : RestWorld)
    (schedule : List (Choice Failure ι)) :
    let c := run (inMemoryRest sha256 clock) (Rest.start engine visitors w) schedule
    let authenticated :=
      Rest.Authenticated sha256 clock (Rest.start engine visitors w) schedule
    (∀ i, ∀ e ∈ (c.threads i).past, ∀ o, e.op = .port o → ∃ request caller,
        visitors i = .request request ∧ authenticated request caller ∧
          Rest.Authorized caller o) ∧
      (∀ i, ∀ e ∈ (c.threads i).past, ∀ o, e.op = .query o → ∃ request caller,
        visitors i = .request request ∧ authenticated request caller ∧ Rest.MayRead caller o) ∧
      ∀ tenant sessionId,
        (c.world.world.session? tenant sessionId ≠ w.world.session? tenant sessionId →
          ∃ i request caller, visitors i = .request request ∧ authenticated request caller ∧
            caller.tenant = tenant ∧ (caller.allows .sessionsWrite = true ∨
              caller.allows .evidenceDelete = true)) ∧
        (c.world.world.document? tenant sessionId ≠ w.world.document? tenant sessionId →
          ∃ i request caller, visitors i = .request request ∧ authenticated request caller ∧
            caller.tenant = tenant ∧ caller.allows .evidenceDelete = true) := by
  intro c authenticated
  have hpast := (Rest.run_allowed sha256 clock engine visitors w schedule (P := fun _ => True)
    trivial fun _ _ _ _ _ _ _ _ _ => trivial).2
  refine ⟨fun i e he o ho => ?_, fun i e he o ho => ?_, fun tenant sessionId => ⟨?_, ?_⟩⟩
  · have hallowed := hpast i e he
    rw [ho] at hallowed
    obtain ⟨request, hvisitor, caller, hcaller, hauthorized⟩ :=
      Rest.exists_request hallowed (by rintro _ ⟨⟩)
    exact ⟨request, caller, hvisitor, hcaller, hauthorized⟩
  · have hallowed := hpast i e he
    rw [ho] at hallowed
    obtain ⟨request, hvisitor, caller, hcaller, hread⟩ :=
      Rest.exists_request hallowed (by rintro _ ⟨⟩)
    exact ⟨request, caller, hvisitor, hcaller, hread⟩
  · intro hchanged
    by_contra hnone
    refine hchanged (Rest.run_allowed sha256 clock engine visitors w schedule
      (P := fun w' => w'.session? tenant sessionId = w.world.session? tenant sessionId) rfl
      fun i request caller o w' hvisitor hcaller hauthorized hkept => ?_).1
    rw [Rest.session?_inMemory hauthorized w' sessionId, hkept]
    exact fun hscope => hnone ⟨i, request, caller, hvisitor, hcaller, hscope⟩
  · intro hchanged
    by_contra hnone
    refine hchanged (Rest.run_allowed sha256 clock engine visitors w schedule
      (P := fun w' => w'.document? tenant sessionId = w.world.document? tenant sessionId) rfl
      fun i request caller o w' hvisitor hcaller hauthorized hkept => ?_).1
    rw [Rest.document?_inMemory hauthorized w' sessionId, hkept]
    exact fun hscope => hnone ⟨i, request, caller, hvisitor, hcaller, hscope⟩

end OratoriaEngine
