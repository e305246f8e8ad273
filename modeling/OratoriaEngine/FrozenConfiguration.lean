import OratoriaEngine.Handler

/-!
# The configuration a session runs under

Creation binds a session to a snapshot, and nothing unbinds it. The handler does not
ask for that snapshot but for the current one, so a stream runs under the bound
snapshot when no other is current at the moment it is opened.
-/

namespace OratoriaEngine

variable (tenant : TenantId) (sessionId : SessionId) (frozen : ConfigurationSnapshot)

/-- The session is bound to the snapshot, and its document, if there is one, names it. -/
structure Bound (w : World) : Prop where
  forSession : w.forSession sessionId = some frozen
  document : ∀ document, w.document? tenant sessionId = some document →
    document.manifest.configuration = frozen.id

/-- The call does not bind the session again, and stores no document of it under another name. -/
def RespectsBinding : Port → Prop
  | .configurationFreeze _ other => other ≠ sessionId
  | .evidenceStoreDocument document owner => owner = tenant → document.sessionId = sessionId →
      document.manifest.configuration = frozen.id
  | _ => True

section World

variable {tenant sessionId frozen} {w : World}

theorem forSession_eq_some_iff :
    w.forSession sessionId = some frozen ↔
      ∃ id : ConfigurationSnapshotId, w.bySession.get? sessionId.value = some id ∧
        w.published.get? id.value = some frozen := by
  unfold World.forSession
  cases w.bySession.get? sessionId.value <;> simp

/-- A published version is immutable: publishing leaves what is stored under an identifier. -/
theorem get?_publish {key : String} {existing : ConfigurationSnapshot}
    (h : w.published.get? key = some existing) (snapshot : ConfigurationSnapshot)
    (owner : Option TenantId) :
    (w.publish snapshot owner).2.published.get? key = some existing := by
  have hset : (key = snapshot.id.value → existing = snapshot) →
      (w.published.set snapshot.id.value snapshot).get? key = some existing := by
    intro hsame
    rw [Dict.get?_set]
    split_ifs with hkey
    · rw [hsame hkey]
    · exact h
  unfold World.publish
  cases hold : w.published.get? snapshot.id.value with
  | none =>
      apply hset
      intro hkey
      rw [hkey, hold] at h
      cases h
  | some stored =>
      dsimp only
      split_ifs with hsame
      · apply hset
        intro hkey
        rw [hkey, hold] at h
        cases h
        exact hsame
      · exact h

theorem get?_freeze {key : String} {existing : ConfigurationSnapshot}
    (h : w.published.get? key = some existing) (snapshot : ConfigurationSnapshot)
    (other : SessionId) : (w.freeze snapshot other).published.get? key = some existing := by
  unfold World.freeze
  dsimp only
  split_ifs with hcontains
  · exact h
  · have hne : key ≠ snapshot.id.value := fun heq => hcontains (by
      rw [Dict.contains, ← heq, h]
      rfl)
    exact (Dict.get?_set_ne _ _ hne).trans h

theorem bySession_publish (snapshot : ConfigurationSnapshot) (owner : Option TenantId) :
    (w.publish snapshot owner).2.bySession = w.bySession := by
  unfold World.publish
  cases w.published.get? snapshot.id.value with
  | none => rfl
  | some existing =>
      dsimp only
      split_ifs <;> rfl

theorem forSession_publish (h : w.forSession sessionId = some frozen)
    (snapshot : ConfigurationSnapshot) (owner : Option TenantId) :
    (w.publish snapshot owner).2.forSession sessionId = some frozen := by
  obtain ⟨id, hid, hpublished⟩ := forSession_eq_some_iff.1 h
  rw [forSession_eq_some_iff, bySession_publish]
  exact ⟨id, hid, get?_publish hpublished snapshot owner⟩

theorem forSession_freeze (h : w.forSession sessionId = some frozen)
    (snapshot : ConfigurationSnapshot) {other : SessionId} (hother : other ≠ sessionId) :
    (w.freeze snapshot other).forSession sessionId = some frozen := by
  obtain ⟨id, hid, hpublished⟩ := forSession_eq_some_iff.1 h
  have hkey : sessionId.value ≠ other.value := fun heq => hother (SessionId.ext_value heq).symm
  exact forSession_eq_some_iff.2 ⟨id, (Dict.get?_set_ne _ _ hkey).trans hid,
    get?_freeze hpublished snapshot other⟩

theorem bound_publish (h : Bound tenant sessionId frozen w) (snapshot : ConfigurationSnapshot)
    (owner : Option TenantId) : Bound tenant sessionId frozen (w.publish snapshot owner).2 := by
  refine ⟨forSession_publish h.forSession snapshot owner, fun document hd => h.document document ?_⟩
  rw [← hd]
  unfold World.publish World.document?
  cases w.published.get? snapshot.id.value with
  | none => rfl
  | some existing =>
      dsimp only
      split_ifs <;> rfl

theorem bound_inMemory (h : Bound tenant sessionId frozen w) {o : Port}
    (ho : RespectsBinding tenant sessionId frozen o) :
    Bound tenant sessionId frozen (inMemory o w).2 := by
  cases o with
  | configurationFreeze snapshot other =>
      exact ⟨forSession_freeze h.forSession snapshot ho, h.document⟩
  | evidenceStoreDocument document owner =>
      refine ⟨h.forSession, fun stored hs => ?_⟩
      by_cases hkey : (tenant.value, sessionId.value) = (owner.value, document.sessionId.value)
      · have hself := (Dict.get?_set w.documents _ _ document).trans (if_pos hkey)
        cases hself.symm.trans hs
        rw [Prod.mk.injEq] at hkey
        exact ho (TenantId.ext_value hkey.1.symm) (SessionId.ext_value hkey.2.symm)
      · exact h.document stored ((Dict.get?_set_ne w.documents document hkey).symm.trans hs)
  | evidenceDeleteForSession owner other =>
      refine ⟨?_, fun stored hs => h.document stored ?_⟩
      · exact (congrArg (fun u : World => u.forSession sessionId)
          (w.deleteEvidenceForSession_snd owner other)).trans h.forSession
      · have hs := (w.document?_deleteEvidenceForSession owner tenant other sessionId).symm.trans hs
        split_ifs at hs
        exact hs
  | claimIdempotencyKey application key claimed =>
      unfold inMemory World.claimIdempotencyKey
      dsimp only
      split_ifs
      · exact ⟨h.forSession, h.document⟩
      · exact ⟨h.forSession, h.document⟩
  | _ => exact ⟨h.forSession, h.document⟩

end World

inductive RestRequest
  | createSession (mint : StreamGrant → String) (caller : AuthenticatedCaller)
      (command : CreateSessionCommand) (generated : SessionId) (epochMs : ℕ → ℤ)
  | deleteEvidence (caller : AuthenticatedCaller) (sessionId : SessionId) (nowMs : ℤ)

namespace RestRequest

def program : RestRequest → Command Unit
  | createSession mint caller command generated epochMs => do
      let _ ← CreateSession.execute mint caller command generated epochMs
      return ()
  | deleteEvidence caller sessionId nowMs => do
      let _ ← DeleteEvidence.execute caller sessionId nowMs
      return ()

/-- The identifier the request would give a new session, if it creates one. -/
def generated? : RestRequest → Option SessionId
  | createSession _ _ _ generated _ => some generated
  | deleteEvidence _ _ _ => none

end RestRequest

section Calls

open Program

variable {tenant sessionId frozen}

theorem calls_requireScope (caller : AuthenticatedCaller) (scope : Scope) (purpose : String) :
    Calls (RespectsBinding tenant sessionId frozen)
      (Command.requireScope caller scope purpose) := by
  unfold Command.requireScope
  split_ifs
  · exact calls_pure _
  · exact calls_raise _

theorem calls_resolve (caller : AuthenticatedCaller) (other : SessionId) :
    Calls (RespectsBinding tenant sessionId frozen) (Command.resolve caller other) := by
  apply calls_bind (calls_port trivial)
  intro found
  cases found with
  | none => exact calls_raise _
  | some session => exact calls_pure _

theorem calls_captureControl (caller : AuthenticatedCaller) (other : SessionId)
    (transition : AnalysisSession → Except Failure AnalysisSession) :
    Calls (RespectsBinding tenant sessionId frozen) (do
      Command.requireScope caller .sessionsWrite "capture control"
      let session ← Command.resolve caller other
      let updated ← Program.ofExcept (transition session)
      Command.sessionsSave updated
      return updated : Command AnalysisSession) :=
  calls_bind (calls_requireScope _ _ _) fun _ => calls_bind (calls_resolve _ _) fun _ =>
    calls_bind (calls_ofExcept _) fun _ => calls_bind (calls_port trivial) fun _ => calls_pure _

theorem calls_openProcessingRun (caller : AuthenticatedCaller) (other : SessionId) (runId : RunId)
    (version : SemanticVersion) (epochMs : ℤ) :
    Calls (RespectsBinding tenant sessionId frozen)
      (OpenProcessingRun.execute caller other runId version epochMs) :=
  calls_bind (calls_requireScope _ _ _) fun _ => calls_bind (calls_resolve _ _) fun _ =>
    calls_bind (calls_port trivial) fun _ => calls_pure _

theorem calls_closeProcessingRun (runId : RunId) (succeeded : Bool) (epochMs : ℤ) :
    Calls (RespectsBinding tenant sessionId frozen)
      (CloseProcessingRun.execute runId succeeded epochMs) := by
  apply calls_bind (calls_port trivial)
  intro found
  cases found with
  | none => exact calls_pure _
  | some run => exact calls_port trivial

theorem calls_deleteEvidence (caller : AuthenticatedCaller) (other : SessionId) (nowMs : ℤ) :
    Calls (RespectsBinding tenant sessionId frozen)
      (DeleteEvidence.execute caller other nowMs) := by
  refine calls_bind (calls_requireScope _ _ _) fun _ => calls_bind (calls_resolve _ _) fun _ => ?_
  split_ifs
  · exact calls_pure _
  · refine calls_bind (calls_port trivial) fun _ => calls_bind (calls_port trivial) fun _ => ?_
    refine calls_bind (calls_port trivial) fun _ => calls_bind (calls_port trivial) fun _ => ?_
    exact calls_bind (calls_ofExcept _) fun _ => calls_bind (calls_port trivial) fun _ =>
      calls_bind (calls_port trivial) fun _ => calls_pure _

theorem calls_completeSession {caller : AuthenticatedCaller} {other : SessionId}
    {configuration : ConfigurationSnapshot}
    (h : caller.tenant = tenant → other = sessionId → configuration = frozen)
    (state : StreamingState) (wallMs nowMs : ℤ) :
    Calls (RespectsBinding tenant sessionId frozen)
      (CompleteSession.execute caller other state configuration wallMs nowMs) := by
  refine calls_bind (calls_requireScope _ _ _) fun _ => calls_bind (calls_resolve _ _) fun _ => ?_
  refine calls_bind (calls_ofExcept _) fun _ => calls_bind (calls_port trivial) fun _ => ?_
  refine calls_ofExcept_bind fun evidence hevidence => calls_bind (calls_port trivial) fun _ => ?_
  have hassembled := assembleEvidence_eq_ok hevidence
  refine calls_bind (calls_port ?_) fun _ => calls_bind (calls_ofExcept _) fun _ => ?_
  · intro howner hid
    rw [hassembled.manifest, h howner (hassembled.published.1.symm.trans hid)]
  · exact calls_bind (calls_port trivial) fun _ => calls_bind (calls_port trivial) fun _ =>
      calls_pure _

theorem calls_replay (mint : StreamGrant → String) (caller : AuthenticatedCaller)
    (command : CreateSessionCommand) (epochMs : ℤ) :
    Calls (RespectsBinding tenant sessionId frozen)
      (CreateSession.replay mint caller command epochMs) := by
  unfold CreateSession.replay
  cases command.idempotencyKey with
  | none => exact calls_pure _
  | some key => exact calls_bind (calls_port trivial) fun _ => calls_pure _

theorem calls_claim (mint : StreamGrant → String) (caller : AuthenticatedCaller)
    (command : CreateSessionCommand) (generated : SessionId) (epochMs : ℤ) :
    Calls (RespectsBinding tenant sessionId frozen)
      (CreateSession.claim mint caller command generated epochMs) := by
  unfold CreateSession.claim
  cases command.idempotencyKey with
  | none => exact calls_pure _
  | some key =>
      apply calls_bind (calls_port trivial)
      intro claimed
      split_ifs
      · exact calls_pure _
      · exact calls_replay mint caller command epochMs

theorem calls_createSession (mint : StreamGrant → String) (caller : AuthenticatedCaller)
    (command : CreateSessionCommand) {generated : SessionId} (h : generated ≠ sessionId)
    (epochMs : ℕ → ℤ) :
    Calls (RespectsBinding tenant sessionId frozen)
      (CreateSession.execute mint caller command generated epochMs) := by
  refine calls_bind (calls_requireScope _ _ _) fun _ =>
    calls_bind (calls_replay _ _ _ _) fun found => ?_
  cases found with
  | some existing => exact calls_pure _
  | none =>
      apply calls_bind (calls_port trivial)
      intro decision
      by_cases hallowed : decision.allowed = true
      · simp only [if_pos hallowed]
        apply calls_bind (calls_ofExcept _)
        intro capabilities
        apply calls_bind (calls_port trivial)
        intro snapshot
        apply calls_ofExcept_bind
        intro session hsession
        apply calls_bind (calls_claim _ _ _ _ _)
        intro replayed
        cases replayed with
        | some existing => exact calls_pure _
        | none =>
            have hid : session.id ≠ sessionId := by
              rw [(CreateSession.newSession_eq_ok hsession).1]
              exact h
            exact calls_bind (calls_port trivial) fun _ => calls_bind (calls_port hid) fun _ =>
              calls_bind (calls_port trivial) fun _ => calls_bind (calls_port trivial) fun _ =>
                calls_pure _
      · simp only [if_neg hallowed]
        exact calls_raise _

/-- A request that generates another session respects the binding of this one. -/
theorem calls_program {r : RestRequest} (h : r.generated? ≠ some sessionId) :
    Calls (RespectsBinding tenant sessionId frozen) r.program := by
  cases r with
  | createSession mint caller command generated epochMs =>
      have hne : generated ≠ sessionId := fun heq => h (congrArg some heq)
      exact calls_bind (calls_createSession mint caller command hne epochMs) fun _ => calls_pure _
  | deleteEvidence caller other nowMs =>
      exact calls_bind (calls_deleteEvidence caller other nowMs) fun _ => calls_pure _

end Calls

def Serves (conn : Connection) : Prop := conn.caller.tenant = tenant ∧ conn.sessionId = sessionId

/-- Everything on the connection that analyses or completes uses the snapshot. -/
structure RunsUnder (conn : Connection) : Prop where
  handler : conn.configuration = frozen
  coordinator : conn.coordinator.configuration = frozen
  speech : conn.coordinator.speechAssembler.configuration = frozen
  visual : conn.coordinator.visualAssembler.configuration = frozen

/-- If it serves this session, it runs under the snapshot it is bound to. -/
def WellBound (conn : Connection) : Prop :=
  Serves tenant sessionId conn → RunsUnder frozen conn

/-- An opening that still asks for the current snapshot ends well unless it opens this session
and is given another snapshot than the bound one; an opening past that point ends well. -/
def OpensWell (other : SessionId) : Command Connection → Prop
  | .call (.configurationCurrent owner) next => ∀ r,
      (owner = tenant → other = sessionId → ∀ snapshot, r = .ok snapshot → snapshot = frozen) →
        Program.Yields (WellBound tenant sessionId frozen) (next r)
  | p => Program.Yields (WellBound tenant sessionId frozen) p

def SocketBound : Socket → Prop
  | .closed => True
  | .opening _ other rest => OpensWell tenant sessionId frozen other rest ∧
      Program.Calls (RespectsBinding tenant sessionId frozen) rest
  | .listening conn => WellBound tenant sessionId frozen conn
  | .controlling conn rest => WellBound tenant sessionId frozen conn ∧
      Program.Calls (RespectsBinding tenant sessionId frozen) rest

section Sockets

open Program

variable {tenant sessionId frozen}

theorem opensWell_of_yields {p : Command Connection}
    (h : Yields (WellBound tenant sessionId frozen) p) (other : SessionId) :
    OpensWell tenant sessionId frozen other p := by
  cases p with
  | done r => exact h
  | call o next =>
      cases o with
      | configurationCurrent owner => exact fun r _ => h r
      | _ => exact h

theorem socketBound_ofOpening {other : SessionId} {rest : Command Connection}
    (h : OpensWell tenant sessionId frozen other rest)
    (hcalls : Calls (RespectsBinding tenant sessionId frozen) rest)
    (caller : AuthenticatedCaller) :
    SocketBound tenant sessionId frozen (.ofOpening caller other rest) := by
  match rest, h, hcalls with
  | .done (.ok conn), h, _ => exact h conn rfl
  | .done (.error _), _, _ => trivial
  | .call o next, h, hcalls => exact ⟨h, hcalls⟩

theorem socketBound_ofControl {conn : Connection} (h : WellBound tenant sessionId frozen conn)
    {rest : Command Bool} (hcalls : Calls (RespectsBinding tenant sessionId frozen) rest) :
    SocketBound tenant sessionId frozen (.ofControl conn rest) := by
  match rest, hcalls with
  | .done (.ok true), _ => exact h
  | .done (.ok false), _ => trivial
  | .done (.error _), _ => trivial
  | .call o next, hcalls => exact ⟨h, hcalls⟩

theorem calls_disconnected (conn : Connection) (now : Reading) :
    Calls (RespectsBinding tenant sessionId frozen) (Handler.disconnected conn now) :=
  calls_bind (calls_closeProcessingRun _ _ _) fun _ => calls_pure _

theorem wellBound_withStream {conn : Connection} (h : WellBound tenant sessionId frozen conn)
    (stream : Stream) : WellBound tenant sessionId frozen { conn with stream := stream } :=
  fun hs => ⟨(h hs).handler, (h hs).coordinator, (h hs).speech, (h hs).visual⟩

theorem socketBound_ofIngest {conn : Connection} (h : WellBound tenant sessionId frozen conn)
    (now : Reading) (outcome : Except Failure ChunkVerdict × Stream) :
    SocketBound tenant sessionId frozen (.ofIngest conn now outcome) := by
  unfold Socket.ofIngest
  split
  · exact wellBound_withStream h _
  · exact wellBound_withStream h _
  · split_ifs
    · exact socketBound_ofControl (wellBound_withStream h _) (calls_disconnected conn now)
    · trivial

theorem calls_control {conn : Connection} (h : WellBound tenant sessionId frozen conn)
    (type : ControlType) (now : Reading) :
    Calls (RespectsBinding tenant sessionId frozen) (Handler.control conn type now) := by
  cases type with
  | clientHeartbeat => exact calls_pure _
  | sessionConfigure => exact calls_pure _
  | capturePause => exact calls_bind (calls_captureControl _ _ _) fun _ => calls_pure _
  | captureResume => exact calls_bind (calls_captureControl _ _ _) fun _ => calls_pure _
  | sessionComplete =>
      have hconfiguration := fun howner hid => (h ⟨howner, hid⟩).handler
      exact calls_bind (calls_completeSession hconfiguration _ _ _) fun _ =>
        calls_bind (calls_closeProcessingRun _ _ _) fun _ => calls_pure _

theorem socketBound_handle {conn : Connection} (h : WellBound tenant sessionId frozen conn)
    (message : ClientMessage) (ports : StreamPorts) (now : Reading) :
    SocketBound tenant sessionId frozen (Deployment.handle conn message ports now) := by
  unfold Deployment.handle
  split
  · exact socketBound_ofIngest h now _
  · exact socketBound_ofControl h (calls_control h _ now)
  · exact h

/-- A stream that is given the bound snapshot runs under it. -/
theorem opensWell_start (engine : Engine) (o : Opening) :
    OpensWell tenant sessionId frozen o.sessionId (Handler.start engine o) := by
  intro r hr
  apply yields_ofExcept_bind
  intro configuration hc
  refine yields_bind fun _ => yields_bind fun _ => yields_pure fun hs => ?_
  cases hr hs.1 hs.2 configuration hc
  exact ⟨rfl, rfl, rfl, rfl⟩

theorem calls_start (engine : Engine) (o : Opening) :
    Calls (RespectsBinding tenant sessionId frozen) (Handler.start engine o) :=
  calls_bind (calls_port trivial) fun _ => calls_bind (calls_captureControl _ _ _) fun _ =>
    calls_bind (calls_openProcessingRun _ _ _ _ _) fun _ => calls_pure _

end Sockets

namespace Deployment

open Program

variable {ι κ : Type}

/-- The invariant of a deployment in which the session is bound to the snapshot. -/
structure AllBound (d : Deployment ι κ) : Prop where
  world : Bound tenant sessionId frozen d.world
  sockets : ∀ k, SocketBound tenant sessionId frozen (d.sockets k)
  requests : ∀ i, Calls (RespectsBinding tenant sessionId frozen) (d.shared.threads i).rest

/-- If the step lets the opening of a stream of the session ask for the current snapshot, the
bound one is current. -/
def OpensCurrent (d : Deployment ι κ) (h : Happening ι κ) : Prop :=
  ∀ k caller next, h = .proceed k none →
    d.sockets k = .opening caller sessionId (.call (.configurationCurrent tenant) next) →
    d.world.currentConfiguration tenant = frozen

variable {tenant sessionId frozen} {d : Deployment ι κ}

theorem bound_attempt {w : World} (h : Bound tenant sessionId frozen w) {o : Port}
    (ho : RespectsBinding tenant sessionId frozen o) (fault : Option Failure) :
    Bound tenant sessionId frozen (attempt inMemory fault o w).2 := by
  cases fault with
  | some e => exact h
  | none => exact bound_inMemory h ho

theorem allBound_setSocket [DecidableEq κ] (h : AllBound tenant sessionId frozen d) (k : κ)
    {socket : Socket} (hs : SocketBound tenant sessionId frozen socket) :
    AllBound tenant sessionId frozen (d.setSocket k socket) := by
  refine ⟨h.world, fun k' => ?_, h.requests⟩
  by_cases hk : k' = k
  · subst hk
    simpa [setSocket] using hs
  · simpa [setSocket, hk] using h.sockets k'

theorem allBound_setWorld (h : AllBound tenant sessionId frozen d) {w : World}
    (hw : Bound tenant sessionId frozen w) : AllBound tenant sessionId frozen (d.setWorld w) :=
  ⟨hw, h.sockets, h.requests⟩

theorem allBound_request [DecidableEq ι] (h : AllBound tenant sessionId frozen d)
    (choice : Interleaving.Choice Failure ι) :
    AllBound tenant sessionId frozen
      { d with shared := Interleaving.step inMemory d.shared choice } := by
  obtain ⟨i, fault⟩ := choice
  have hi := h.requests i
  cases hrest : (d.shared.threads i).rest with
  | done r =>
      rw [Interleaving.step_of_done inMemory (s := (i, fault)) hrest]
      exact h
  | call o next =>
      rw [hrest] at hi
      have hthreads : ∀ r j, Calls (RespectsBinding tenant sessionId frozen)
          (Function.update d.shared.threads i ((d.shared.threads i).resume o next r) j).rest := by
        intro r j
        by_cases hj : j = i
        · subst hj
          simpa [Interleaving.Thread.resume] using hi.2 r
        · simpa [hj] using h.requests j
      cases fault with
      | some e =>
          rw [Interleaving.step_of_fault inMemory hrest]
          exact ⟨h.world, h.sockets, hthreads _⟩
      | none =>
          rw [Interleaving.step_of_served inMemory hrest]
          exact ⟨bound_inMemory h.world hi.1, h.sockets, hthreads _⟩

theorem allBound_proceed_opening (h : AllBound tenant sessionId frozen d) {k : κ}
    {fault : Option Failure} (hopens : OpensCurrent tenant sessionId frozen d (.proceed k fault))
    {caller : AuthenticatedCaller} {other : SessionId} {o : Port}
    {next : Except Failure o.Answer → Command Connection}
    (hk : d.sockets k = .opening caller other (.call o next)) :
    SocketBound tenant sessionId frozen
      (.ofOpening caller other (next (attempt inMemory fault o d.world).1)) := by
  have hsocket := h.sockets k
  rw [hk] at hsocket
  obtain ⟨hopening, -, hcalls⟩ := hsocket
  refine socketBound_ofOpening (opensWell_of_yields ?_ other) (hcalls _) caller
  cases o with
  | configurationCurrent owner =>
      apply hopening
      intro howner hid snapshot hanswer
      subst howner hid
      cases fault with
      | some e => cases hanswer
      | none =>
          cases hanswer
          exact hopens k caller next rfl hk
  | _ => exact hopening _

variable [DecidableEq ι] [DecidableEq κ] (engine : Engine)

theorem allBound_step (h : AllBound tenant sessionId frozen d) {happening : Happening ι κ}
    (hopens : OpensCurrent tenant sessionId frozen d happening) :
    AllBound tenant sessionId frozen (d.step engine happening) := by
  cases happening with
  | request choice => exact allBound_request h choice
  | publish snapshot owner => exact allBound_setWorld h (bound_publish h.world snapshot owner)
  | connect k o =>
      simp only [step]
      split
      · exact allBound_setSocket h k
          (socketBound_ofOpening (opensWell_start engine o) (calls_start engine o) _)
      · exact h
  | receive k message ports now =>
      simp only [step]
      split
      case h_1 conn hk =>
        have hconn := h.sockets k
        rw [hk] at hconn
        exact allBound_setSocket h k (socketBound_handle hconn message ports now)
      case h_2 => exact h
  | proceed k fault =>
      simp only [step]
      split
      case h_1 caller other o next hk =>
        have hsocket := h.sockets k
        rw [hk] at hsocket
        exact allBound_setSocket (allBound_setWorld h (bound_attempt h.world hsocket.2.1 fault)) k
          (allBound_proceed_opening h hopens hk)
      case h_2 conn o next hk =>
        have hsocket := h.sockets k
        rw [hk] at hsocket
        exact allBound_setSocket (allBound_setWorld h (bound_attempt h.world hsocket.2.1 fault)) k
          (socketBound_ofControl hsocket.1 (hsocket.2.2 _))
      case h_3 => exact h
  | disconnect k now =>
      simp only [step]
      split
      case h_1 conn hk =>
        have hconn := h.sockets k
        rw [hk] at hconn
        exact allBound_setSocket h k (socketBound_ofControl hconn (calls_disconnected conn now))
      case h_2 => exact h
  | drop k => exact allBound_setSocket h k trivial

theorem allBound_run {hs : List (Happening ι κ)} (h : AllBound tenant sessionId frozen d)
    (hopens : EveryStep engine (OpensCurrent tenant sessionId frozen) d hs) :
    AllBound tenant sessionId frozen (d.run engine hs) := by
  induction hs generalizing d with
  | nil => exact h
  | cons happening hs ih => exact ih (allBound_step engine h hopens.1) hopens.2

variable (tenant sessionId frozen) in
/-- Every connection of the session analyses and completes under the snapshot the session is bound
to, and the document of the session names it. -/
structure UsesFrozen (d : Deployment ι κ) : Prop where
  listening : ∀ k conn, d.sockets k = .listening conn → WellBound tenant sessionId frozen conn
  controlling : ∀ k conn rest, d.sockets k = .controlling conn rest →
    WellBound tenant sessionId frozen conn
  bound : Bound tenant sessionId frozen d.world

/-- A deployment in which the session is bound and no stream of it was opened yet. -/
structure Created (tenant : TenantId) (sessionId : SessionId) (frozen : ConfigurationSnapshot)
    (d : Deployment ι κ) : Prop where
  bound : Bound tenant sessionId frozen d.world
  sockets : ∀ k, d.sockets k = .closed
  requests : ∀ i, ∃ r : RestRequest,
    r.generated? ≠ some sessionId ∧ (d.shared.threads i).rest = r.program

/-- From a created session on, if the bound snapshot is current whenever a stream of the session
is opened, every stream and the document of the session use it. -/
theorem usesFrozen_of_opensCurrent (hd : Created tenant sessionId frozen d)
    {hs : List (Happening ι κ)}
    (hopens : EveryStep engine (OpensCurrent tenant sessionId frozen) d hs) :
    UsesFrozen tenant sessionId frozen (d.run engine hs) := by
  have hstart : AllBound tenant sessionId frozen d := by
    refine ⟨hd.bound, fun k => ?_, fun i => ?_⟩
    · rw [hd.sockets k]
      trivial
    · obtain ⟨r, hr, hrest⟩ := hd.requests i
      rw [hrest]
      exact calls_program hr
  have hend := allBound_run engine hstart hopens
  refine ⟨fun k conn hk => ?_, fun k conn rest hk => ?_, hend.world⟩
  · have hsocket := hend.sockets k
    rwa [hk] at hsocket
  · have hsocket := hend.sockets k
    rw [hk] at hsocket
    exact hsocket.1

/-- A later version of the configuration, which tolerates longer silences. -/
def revisedConfiguration : ConfigurationSnapshot :=
  { defaultConfiguration with
    id := ⟨⟨"config-v2", by decide⟩⟩
    silenceThresholdMs := 900 }

def createdStudy : Deployment Empty Unit :=
  ⟨⟨((CreateSession.execute (fun _ => "token") operator (studyCommand none) studySessionId
      fun _ => 0).run inMemory Program.noFault 0 (.fresh defaultConfiguration)).2,
    Empty.elim⟩, fun _ => .closed⟩

def openStudy : List (Happening Empty Unit) :=
  .connect () ⟨operator, studySessionId, studyRunId, 0, 0⟩ :: List.replicate 5 (.proceed () none)

theorem created_createdStudy :
    Created studyTenant studySessionId defaultConfiguration createdStudy where
  bound := ⟨by rfl, fun document h => by cases h⟩
  sockets := fun _ => rfl
  requests := fun i => i.elim

/-- Opened right after creation, the stream runs under the frozen snapshot. -/
theorem usesFrozen_of_opened :
    UsesFrozen studyTenant studySessionId defaultConfiguration
      (createdStudy.run sampleEngine openStudy) := by
  apply usesFrozen_of_opensCurrent sampleEngine created_createdStudy
  exact ⟨fun _ _ _ _ _ => rfl, fun _ _ _ _ _ => rfl, fun _ _ _ _ _ => rfl, fun _ _ _ _ _ => rfl,
    fun _ _ _ _ _ => rfl, fun _ _ _ _ _ => rfl, trivial⟩

/-- Opened after another snapshot was published for the tenant, it runs under that one. -/
theorem not_usesFrozen_of_published :
    Created studyTenant studySessionId defaultConfiguration createdStudy ∧
      ¬UsesFrozen studyTenant studySessionId defaultConfiguration (createdStudy.run sampleEngine
        (.publish revisedConfiguration (some studyTenant) :: openStudy)) := by
  refine ⟨created_createdStudy, fun h => ?_⟩
  have hconn := h.listening () _ rfl ⟨rfl, rfl⟩
  exact absurd (congrArg ConfigurationSnapshot.silenceThresholdMs hconn.handler) (by decide)

end Deployment

end OratoriaEngine
