import OratoriaEngine.IngestFrames
import OratoriaEngine.ReconcileSteps
import OratoriaEngine.StreamHandler

/-!
# The course of a stream

What a stream may do depends on how far it has come: the socket, the lease, the run, the welcome
and what is stored of a completion. The handler keeps to this course whatever its calls are
answered and wherever they fail, so every stream of a deployment does.
-/

namespace OratoriaEngine

inductive SocketStage
  | waiting
  | accepted
  | closed
  deriving DecidableEq

inductive LeaseStage
  | untaken
  | held
  | released
  deriving DecidableEq

/-- How much of a completion is stored, from the bundle to the closed run, or the run that was
looked for and was not there. -/
inductive CompletionStage
  | nothing
  | bundled (bundle : EvidenceBundle)
  | documented (bundle : EvidenceBundle) (document : EvidenceDocument) (tenant : TenantId)
  | completed (bundle : EvidenceBundle) (document : EvidenceDocument) (tenant : TenantId)
      (session : AnalysisSession)
  | closed (bundle : EvidenceBundle) (document : EvidenceDocument) (tenant : TenantId)
      (session : AnalysisSession) (run : RunId ⊕ ProcessingRun)

/-- How far a stream has come. -/
structure Progress where
  socket : SocketStage
  lease : LeaseStage
  opened : Option RunId
  welcomed : Bool
  completion : CompletionStage
  announced : Bool
  /-- Every session and every run that was looked up was the one asked for. -/
  faithful : Bool

namespace Progress

def start : Progress := ⟨.waiting, .untaken, none, false, .nothing, false, true⟩

def afterPort (p : Progress) : (o : Port) → Except Failure o.Answer → Progress
  | .sessionsGet tenant sessionId, .ok (some session) =>
      { p with faithful := p.faithful && session.tenantId = tenant && session.id = sessionId }
  | .runsAdd run, .ok _ => { p with opened := some run.id }
  | .evidenceStore bundle, .ok _ => { p with completion := .bundled bundle }
  | .evidenceStoreDocument document tenant, .ok _ =>
      match p.completion with
      | .bundled bundle => { p with completion := .documented bundle document tenant }
      | _ => p
  | .sessionsSave session, .ok _ =>
      match p.completion with
      | .documented bundle document tenant =>
          { p with completion := .completed bundle document tenant session }
      | _ => p
  | .runsGet runId, .ok none =>
      match p.completion with
      | .completed bundle document tenant session =>
          { p with completion := .closed bundle document tenant session (.inl runId) }
      | _ => p
  | .runsGet runId, .ok (some run) => { p with faithful := p.faithful && run.id = runId }
  | .runsSave run, .ok _ =>
      match p.completion with
      | .completed bundle document tenant session =>
          { p with completion := .closed bundle document tenant session (.inr run) }
      | _ => p
  | _, _ => p

def after (p : Progress) : (o : StreamOp) → Except Failure o.Answer → Progress
  | .acceptSocket, .ok _ => { p with socket := .accepted }
  | .acquireLease _ _, .ok true => { p with lease := .held }
  | .releaseLease _, _ => { p with lease := .released }
  | .wire (.port o), r => p.afterPort o r
  | .wire (.sendAccepted _ _ _ _), .ok _ => { p with welcomed := true }
  | .wire (.sendCompleted _ _ _ _ _), _ => { p with announced := true }
  | .wire (.close _), _ => { p with socket := .closed }
  | _, _ => p

end Progress

namespace StreamHandler

variable (engine : StreamEngine) (request : StreamRequest)

/-- The token of the request stands for this grant, and for the session that was asked for. -/
def Granted (grant : StreamGrant) : Prop :=
  engine.verify request.token request.verifiedMs = .ok (some grant) ∧
    grant.sessionId.value = request.sessionId

/-- The operation concerns the session of the grant and the run of the stream. -/
def Within (grant : StreamGrant) : Port → Prop
  | .configurationCurrent tenant => tenant = grant.tenant
  | .sessionsGet tenant sessionId => tenant = grant.tenant ∧ sessionId = grant.sessionId
  | .sessionsSave session => session.tenantId = grant.tenant ∧ session.id = grant.sessionId
  | .runsAdd run => run.id = request.runId ∧ run.sessionId = grant.sessionId
  | .runsGet runId => runId = request.runId
  | .runsSave run => run.id = request.runId
  | .evidenceStore bundle => bundle.tenant = grant.tenant ∧ bundle.sessionId = grant.sessionId ∧
      bundle.runId = request.runId
  | .evidenceStoreDocument document tenant => tenant = grant.tenant ∧
      document.sessionId = grant.sessionId ∧ document.runId = request.runId
  | .auditRecord entry => entry.tenant = some grant.tenant ∧
      entry.resource = grant.sessionId.value ∧ entry.actor = grant.application.value
  | _ => False

def InOrder (p : Progress) : Port → Prop
  | .evidenceStore _ => p.welcomed = true ∧ p.completion = .nothing
  | .evidenceStoreDocument document _ =>
      ∃ bundle, p.completion = .bundled bundle ∧ bundle.runId = document.runId
  | .sessionsSave session => session.state = .completed →
      ∃ bundle document tenant, p.completion = .documented bundle document tenant
  | .runsSave run => run.state = .completed → ∃ bundle document tenant session,
      p.completion = .completed bundle document tenant session
  | _ => True

def Announces (p : Progress) (runId : String) (speechEvents visualEvents cooccurrences : ℕ) :
    Prop :=
  ∃ bundle document tenant session closed,
    p.completion = .closed bundle document tenant session closed ∧
    session.state = .completed ∧ (∀ run, closed = .inr run → run.state = .completed) ∧
    runId = document.runId.value ∧ speechEvents = document.speechEvents.length ∧
    visualEvents = document.visualEvents.length ∧ cooccurrences = document.cooccurrences.length

def Permits (p : Progress) : StreamOp → Prop
  | .acceptSocket => p.socket = .waiting ∧ p.lease = .untaken
  | .acquireLease sessionId ttlSeconds => p.socket = .accepted ∧ p.lease = .untaken ∧
      ttlSeconds = engine.streamLeaseTtlSeconds ∧
      ∃ grant, Granted engine request grant ∧ sessionId = grant.sessionId
  | .releaseLease sessionId => p.lease = .held ∧
      ∃ grant, Granted engine request grant ∧ sessionId = grant.sessionId
  | .receiveJson | .ingest _ => p.socket = .accepted ∧ p.lease = .held ∧ p.welcomed = true ∧
      p.completion = .nothing
  | .wire (.port o) => p.socket = .accepted ∧ p.lease = .held ∧ InOrder p o ∧
      (p.faithful = true → ∃ grant, Granted engine request grant ∧ Within request grant o)
  | .wire (.sendError _ _) => p.socket = .accepted ∧ p.announced = false
  | .wire (.sendAccepted runId _ _ _) => p.socket = .accepted ∧ p.lease = .held ∧
      p.welcomed = false ∧ ∃ opened, p.opened = some opened ∧ runId = opened.value
  | .wire (.sendCompleted runId speechEvents visualEvents cooccurrences _) =>
      p.socket = .accepted ∧ p.lease = .held ∧ p.welcomed = true ∧ p.announced = false ∧
      Announces p runId speechEvents visualEvents cooccurrences
  | .wire (.close _) => p.socket = .accepted

def course : Monitor StreamOp StreamOp.Answer Failure Progress where
  permits p o := Permits engine request p o
  after := Progress.after

/-- How a stream ends: the lease is not kept, and a stream that was welcomed, or that ends without
an exception, has its socket closed. -/
def Ended (r : Except Failure Unit) (p : Progress) : Prop :=
  p.lease ≠ .held ∧ (p.welcomed = true → p.socket = .closed) ∧ (r = .ok () → p.socket = .closed)

end StreamHandler

namespace Progress

/-- The stream has the lease, and its socket is open. -/
structure Busy (p : Progress) : Prop where
  socket : p.socket = .accepted
  lease : p.lease = .held

/-- The use cases do not touch the socket, the lease and what the client was told. -/
structure Framed (p p' : Progress) : Prop where
  socket : p'.socket = p.socket
  lease : p'.lease = p.lease
  welcomed : p'.welcomed = p.welcomed
  announced : p'.announced = p.announced

theorem Framed.refl (p : Progress) : p.Framed p := ⟨rfl, rfl, rfl, rfl⟩

theorem Framed.trans {p p' p'' : Progress} (h : p.Framed p') (h' : p'.Framed p'') :
    p.Framed p'' :=
  ⟨h'.socket.trans h.socket, h'.lease.trans h.lease, h'.welcomed.trans h.welcomed,
    h'.announced.trans h.announced⟩

theorem Framed.busy {p p' : Progress} (h : p.Framed p') (hp : p.Busy) : p'.Busy :=
  ⟨h.socket.trans hp.socket, h.lease.trans hp.lease⟩

structure Looked (p p' : Progress) : Prop extends p.Framed p' where
  opened : p'.opened = p.opened
  completion : p'.completion = p.completion

theorem Looked.refl (p : Progress) : p.Looked p := ⟨.refl p, rfl, rfl⟩

theorem Looked.trans {p p' p'' : Progress} (h : p.Looked p') (h' : p'.Looked p'') :
    p.Looked p'' :=
  ⟨h.toFramed.trans h'.toFramed, h'.opened.trans h.opened, h'.completion.trans h.completion⟩

theorem framed_afterPort (p : Progress) (o : Port) (r : Except Failure o.Answer) :
    p.Framed (p.afterPort o r) := by
  unfold afterPort
  split <;> first | exact ⟨rfl, rfl, rfl, rfl⟩ | (split <;> exact ⟨rfl, rfl, rfl, rfl⟩)

theorem afterPort_sessionsSave_of_nothing {p : Progress} (h : p.completion = .nothing)
    (session : AnalysisSession) : p.afterPort (.sessionsSave session) (.ok ()) = p := by
  simp only [afterPort, h]

end Progress

namespace StreamHandler

open Progress Monitor

abbrev useCaseCourse (engine : StreamEngine) (request : StreamRequest) :
    Monitor Port Port.Answer Failure Progress :=
  ((course engine request).pull StreamOp.wire).pull Wire.port

theorem follows_onWire {α : Type} {m : Monitor StreamOp StreamOp.Answer Failure Progress}
    {Q : Except Failure α → Progress → Prop} {w : WireProgram α} {p : Progress}
    (h : (m.pull StreamOp.wire).Follows Q w p) : m.Follows Q (onWire w) p := follows_via h

theorem follows_lift {α : Type} {m : Monitor Wire Wire.Answer Failure Progress}
    {Q : Except Failure α → Progress → Prop} {c : Command α} {p : Progress}
    (h : (m.pull Wire.port).Follows Q c p) : m.Follows Q (SocketHandler.lift c) p := by
  induction c generalizing p with
  | done r => exact h
  | call o next ih => exact ⟨h.1, fun r => ih r (h.2 r)⟩

section UseCases

variable {engine : StreamEngine} {request : StreamRequest} {grant : StreamGrant}
  {p : Progress} {α : Type} {Q : Except Failure α → Progress → Prop}

theorem follows_requireScope_bind {caller : AuthenticatedCaller} {scope : Scope} {purpose : String}
    {f : Unit → Command α} (h : (useCaseCourse engine request).Follows Q (f ()) p)
    (herror : ∀ e, Q (.error e) p) :
    (useCaseCourse engine request).Follows Q
      (Command.requireScope caller scope purpose >>= f) p := by
  unfold Command.requireScope
  split_ifs
  · exact h
  · exact herror _

/-- A session that is found is the one of the grant, as far as the lookups can be trusted. -/
theorem follows_resolve_bind (hgrant : Granted engine request grant) (hp : p.Busy)
    {f : AnalysisSession → Command α}
    (h : ∀ session p', p.Looked p' → (p'.faithful = true → session.tenantId = grant.tenant ∧
      session.id = grant.sessionId) → (useCaseCourse engine request).Follows Q (f session) p')
    (herror : ∀ e, Q (.error e) p) :
    (useCaseCourse engine request).Follows Q
      (Command.resolve (callerFrom grant) grant.sessionId >>= f) p := by
  unfold Command.resolve
  rw [Program.bind_assoc]
  refine follows_port_bind ⟨hp.socket, hp.lease, trivial, fun _ => ⟨grant, hgrant, rfl, rfl⟩⟩ ?_
    herror
  intro found
  cases found with
  | none => exact herror _
  | some session =>
      refine h session _ ⟨⟨rfl, rfl, rfl, rfl⟩, rfl, rfl⟩ fun hb => ?_
      have hfound : (p.faithful && decide (session.tenantId = grant.tenant) &&
        decide (session.id = grant.sessionId)) = true := hb
      simp only [Bool.and_eq_true, decide_eq_true_eq] at hfound
      exact ⟨hfound.1.2, hfound.2⟩

theorem follows_sessionsSave_bind (hgrant : Granted engine request grant) (hp : p.Busy)
    {session : AnalysisSession} (hwithin : p.faithful = true →
      session.tenantId = grant.tenant ∧ session.id = grant.sessionId)
    (horder : InOrder p (.sessionsSave session)) {f : Unit → Command α}
    (h : (useCaseCourse engine request).Follows Q (f ())
      (p.afterPort (.sessionsSave session) (.ok ())))
    (herror : ∀ e, Q (.error e) p) :
    (useCaseCourse engine request).Follows Q (Command.sessionsSave session >>= f) p :=
  follows_port_bind ⟨hp.socket, hp.lease, horder, fun hf => ⟨grant, hgrant, hwithin hf⟩⟩
    (fun _ => h) herror

/-- Capture control saves what it found in another state, and is no part of a completion. -/
theorem follows_capture (hgrant : Granted engine request grant) (hp : p.Busy)
    (hnothing : p.completion = .nothing) {purpose : String}
    {transition : AnalysisSession → Except Failure AnalysisSession}
    (htransition : ∀ s u, transition s = .ok u → u.state ≠ .completed ∧ s.SameIdentity u)
    {Q : Except Failure AnalysisSession → Progress → Prop}
    (hQ : ∀ r p', p.Looked p' → Q r p') :
    (useCaseCourse engine request).Follows Q (do
      Command.requireScope (callerFrom grant) .sessionsWrite purpose
      let session ← Command.resolve (callerFrom grant) grant.sessionId
      let updated ← Program.ofExcept (transition session)
      Command.sessionsSave updated
      return updated : Command AnalysisSession) p := by
  apply follows_requireScope_bind _ fun e => hQ _ p (.refl p)
  apply follows_resolve_bind hgrant hp _ fun e => hQ _ p (.refl p)
  intro session p' hlooked hfound
  refine follows_ofExcept_bind (fun updated hupdated => ?_) fun e _ => hQ _ p' hlooked
  obtain ⟨hstate, hsame⟩ := htransition session updated hupdated
  apply follows_sessionsSave_bind hgrant (hlooked.busy hp) _ _ _ fun e => hQ _ p' hlooked
  · exact fun hf => ⟨hsame.2.2.1.trans (hfound hf).1, hsame.1.trans (hfound hf).2⟩
  · exact fun hcompleted => absurd hcompleted hstate
  · rw [afterPort_sessionsSave_of_nothing (hlooked.completion.trans hnothing)]
    exact follows_pure (hQ _ p' hlooked)

theorem follows_begin (hgrant : Granted engine request grant) (hp : p.Busy)
    (hnothing : p.completion = .nothing) {wallMs : ℤ}
    {Q : Except Failure AnalysisSession → Progress → Prop}
    (hQ : ∀ r p', p.Looked p' → Q r p') :
    (useCaseCourse engine request).Follows Q
      (CaptureControl.begin (callerFrom grant) grant.sessionId wallMs) p :=
  follows_capture hgrant hp hnothing (fun s u h => by
    obtain ⟨hstate, -, hsame⟩ := AnalysisSession.beginCapture_eq_ok h
    exact ⟨by rw [hstate]; decide, hsame⟩) hQ

theorem follows_pause (hgrant : Granted engine request grant) (hp : p.Busy)
    (hnothing : p.completion = .nothing) {wallMs : ℤ}
    {Q : Except Failure AnalysisSession → Progress → Prop}
    (hQ : ∀ r p', p.Looked p' → Q r p') :
    (useCaseCourse engine request).Follows Q
      (CaptureControl.pause (callerFrom grant) grant.sessionId wallMs) p :=
  follows_capture hgrant hp hnothing (fun s u h => by
    obtain ⟨hstate, -, hsame⟩ := AnalysisSession.pauseCapture_eq_ok h
    exact ⟨by rw [hstate]; decide, hsame⟩) hQ

theorem follows_resume (hgrant : Granted engine request grant) (hp : p.Busy)
    (hnothing : p.completion = .nothing) {wallMs : ℤ}
    {Q : Except Failure AnalysisSession → Progress → Prop}
    (hQ : ∀ r p', p.Looked p' → Q r p') :
    (useCaseCourse engine request).Follows Q
      (CaptureControl.resume (callerFrom grant) grant.sessionId wallMs) p :=
  follows_begin hgrant hp hnothing hQ

theorem follows_openRun (hgrant : Granted engine request grant) (hp : p.Busy)
    {pipelineVersion : SemanticVersion} {epochMs : ℤ}
    {Q : Except Failure ProcessingRun → Progress → Prop}
    (hok : ∀ run p', p.Looked p' → run.id = request.runId →
      Q (.ok run) { p' with opened := some request.runId })
    (herror : ∀ e p', p.Looked p' → Q (.error e) p') :
    (useCaseCourse engine request).Follows Q (OpenProcessingRun.execute (callerFrom grant)
      grant.sessionId request.runId pipelineVersion epochMs) p := by
  apply follows_requireScope_bind _ fun e => herror e p (.refl p)
  apply follows_resolve_bind hgrant hp _ fun e => herror e p (.refl p)
  intro session p' hlooked _
  have hbusy := hlooked.busy hp
  exact follows_port_bind
    ⟨hbusy.socket, hbusy.lease, trivial, fun _ => ⟨grant, hgrant, rfl, rfl⟩⟩
    (fun _ => hok _ p' hlooked rfl) fun e => herror e p' hlooked

theorem follows_closeRun (hgrant : Granted engine request grant) (hp : p.Busy) {succeeded : Bool}
    (horder : succeeded = true → ∃ bundle document tenant session,
      p.completion = .completed bundle document tenant session) {epochMs : ℤ}
    {Q : Except Failure Unit → Progress → Prop}
    (hok : ∀ p', p.Framed p' → (∀ bundle document tenant session,
      p.completion = .completed bundle document tenant session → ∃ closed,
        p'.completion = .closed bundle document tenant session closed ∧
          ∀ run, closed = .inr run → run.state = if succeeded then .completed else .failed) →
      Q (.ok ()) p')
    (herror : ∀ e p', p.Framed p' → Q (.error e) p') :
    (useCaseCourse engine request).Follows Q
      (CloseProcessingRun.execute request.runId succeeded epochMs) p := by
  refine follows_port_bind ⟨hp.socket, hp.lease, trivial, fun _ => ⟨grant, hgrant, rfl⟩⟩ ?_
    fun e => herror e p (.refl p)
  intro found
  have hfound := framed_afterPort p (.runsGet request.runId) (.ok found)
  cases found with
  | none =>
      refine hok _ hfound fun bundle document tenant session hsession =>
        ⟨.inl request.runId, ?_, ?_⟩
      · change (p.afterPort (.runsGet request.runId) (.ok none)).completion = _
        simp only [afterPort, hsession]
      · rintro run ⟨⟩
  | some run =>
      set closed : ProcessingRun := { run with
        state := if succeeded then .completed else .failed
        completedAtMs := some epochMs } with hclosed
      have hbusy := hfound.busy hp
      refine follows_port ⟨hbusy.socket, hbusy.lease, fun hcompleted => ?_, fun hf => ?_⟩
        fun r => ?_
      · cases succeeded with
        | true => exact horder rfl
        | false => cases hcompleted
      · refine ⟨grant, hgrant, ?_⟩
        have hid : (p.faithful && decide (run.id = request.runId)) = true := hf
        have hrun : run.id = request.runId := of_decide_eq_true (Bool.and_eq_true_iff.1 hid).2
        exact hrun
      · have hframed := hfound.trans
          (framed_afterPort (p.afterPort (.runsGet request.runId) (.ok (some run)))
            (.runsSave closed) r)
        cases r with
        | error e => exact herror e _ hframed
        | ok _ =>
            refine hok _ hframed fun bundle document tenant session hsession =>
              ⟨.inr closed, ?_, ?_⟩
            · change ((p.afterPort (.runsGet request.runId) (.ok (some run))).afterPort
                (.runsSave closed) (.ok ())).completion = _
              simp only [afterPort, hsession]
            · rintro _ ⟨⟩
              rfl

theorem follows_complete (hgrant : Granted engine request grant) (hp : p.Busy)
    (hwelcomed : p.welcomed = true) (hnothing : p.completion = .nothing) {state : StreamingState}
    (hrun : state.runId = request.runId) {configuration : ConfigurationSnapshot}
    {wallMs nowMs : ℤ} {Q : Except Failure CompletedSession → Progress → Prop}
    (hok : ∀ completed p' bundle tenant session, p.Framed p' →
      p'.completion = .completed bundle completed.document tenant session →
      session.state = .completed → Q (.ok completed) p')
    (herror : ∀ e p', p.Framed p' → Q (.error e) p') :
    (useCaseCourse engine request).Follows Q (CompleteSession.execute (callerFrom grant)
      grant.sessionId state configuration wallMs nowMs) p := by
  apply follows_requireScope_bind _ fun e => herror e p (.refl p)
  apply follows_resolve_bind hgrant hp _ fun e => herror e p (.refl p)
  intro session p' hlooked hfound
  have hframed := hlooked.toFramed
  have hbusy := hframed.busy hp
  have hwelcomed' := hframed.welcomed.trans hwelcomed
  have hnothing' := hlooked.completion.trans hnothing
  refine follows_ofExcept_bind (fun completing hcompleting => ?_) fun e _ => herror e _ hframed
  obtain ⟨hstate, -, hsame⟩ := AnalysisSession.requestCompletion_eq_ok hcompleting
  have hown : p'.faithful = true → completing.tenantId = grant.tenant ∧
      completing.id = grant.sessionId :=
    fun h => ⟨hsame.2.2.1.trans (hfound h).1, hsame.1.trans (hfound h).2⟩
  apply follows_sessionsSave_bind hgrant hbusy hown _ _ fun e => herror e _ hframed
  · intro hcompleted
    rw [hstate] at hcompleted
    cases hcompleted
  rw [afterPort_sessionsSave_of_nothing hnothing']
  refine follows_ofExcept_bind (fun evidence hevidence => ?_) fun e _ => herror e _ hframed
  obtain ⟨bundle, document⟩ := evidence
  have hassembled := assembleEvidence_eq_ok hevidence
  refine follows_port_bind ⟨hbusy.socket, hbusy.lease, ⟨hwelcomed', hnothing'⟩, fun _ => ⟨grant,
    hgrant, hassembled.stored.2.1, hassembled.stored.1, hassembled.stored.2.2.trans hrun⟩⟩
    (fun _ => ?_) fun e => herror e _ hframed
  have hstored : p.Framed { p' with completion := .bundled bundle } :=
    ⟨hframed.socket, hframed.lease, hframed.welcomed, hframed.announced⟩
  refine follows_port_bind ⟨hbusy.socket, hbusy.lease, ⟨bundle, rfl,
      hassembled.stored.2.2.trans hassembled.published.2.symm⟩, fun _ => ⟨grant, hgrant, rfl,
        hassembled.published.1, hassembled.published.2.trans hrun⟩⟩
    (fun _ => ?_) fun e => herror e _ hstored
  have hdocument : p.Framed
      { p' with completion := .documented bundle document (callerFrom grant).tenant } :=
    ⟨hframed.socket, hframed.lease, hframed.welcomed, hframed.announced⟩
  refine follows_ofExcept_bind (fun completed hcompleted => ?_) fun e _ => herror e _ hdocument
  obtain ⟨hdone, -, hkept⟩ := AnalysisSession.markCompleted_eq_ok hcompleted
  apply follows_sessionsSave_bind hgrant (hdocument.busy hp) _ _ _ fun e => herror e _ hdocument
  · exact fun h => ⟨hkept.2.2.1.trans (hown h).1, hkept.1.trans (hown h).2⟩
  · exact fun _ => ⟨bundle, document, _, rfl⟩
  · have hsession : p.Framed { p' with
        completion := .completed bundle document (callerFrom grant).tenant completed } :=
      ⟨hframed.socket, hframed.lease, hframed.welcomed, hframed.announced⟩
    exact follows_port_bind
      ⟨hbusy.socket, hbusy.lease, trivial, fun _ => ⟨grant, hgrant, rfl, rfl, rfl⟩⟩
      (fun _ => hok _ _ bundle _ completed hsession rfl hdone) fun e => herror e _ hsession

end UseCases

/-- A connection that serves the stream of the request under the grant. -/
structure Serves (request : StreamRequest) (grant : StreamGrant) (conn : Connection) : Prop where
  caller : conn.caller = callerFrom grant
  sessionId : conn.sessionId = grant.sessionId
  runId : conn.stream.state.runId = request.runId

end StreamHandler

namespace Progress

/-- The stream is open, and the client may send. -/
structure Listening (p : Progress) : Prop extends p.Busy where
  welcomed : p.welcomed = true
  completion : p.completion = .nothing
  announced : p.announced = false

/-- The stream was welcomed, and its socket is still to be closed. -/
structure Welcomed (p : Progress) : Prop extends p.Busy where
  welcomed : p.welcomed = true

theorem Listening.toWelcomed {p : Progress} (h : p.Listening) : p.Welcomed := ⟨h.toBusy, h.welcomed⟩

theorem Looked.listening {p p' : Progress} (h : p.Looked p') (hp : p.Listening) : p'.Listening :=
  ⟨h.busy hp.toBusy, h.toFramed.welcomed.trans hp.welcomed, h.completion.trans hp.completion,
    h.toFramed.announced.trans hp.announced⟩

theorem Framed.welcomed_of {p p' : Progress} (h : p.Framed p') (hp : p.Welcomed) : p'.Welcomed :=
  ⟨h.busy hp.toBusy, h.welcomed.trans hp.welcomed⟩

end Progress

namespace Coordinator

theorem runId_after (c : Coordinator) (t : Stream) (r : Request) :
    (c.after t r).state.runId = t.state.runId := by
  have hblind : ∀ modality, BlindToRefusal (fun t : Stream => t.state.runId) modality :=
    fun _ => ⟨fun _ _ => rfl, fun _ _ _ => rfl⟩
  have hchunks : ∀ modality (t : Stream) l,
      (withChunks t modality l).state.runId = t.state.runId := by
    intro modality t l
    exact t.state.setLedgerFor_runId modality l
  obtain ⟨ports, call⟩ := r
  cases call with
  | audio sequence window =>
      refine view_ingest_eq c ports (.transcribe window) (ports.speech window)
        (absorbSpeech c ports) sequence (hblind .audio) (hchunks .audio) (fun _ => rfl) ?_ t
      intro result t
      obtain ⟨transcript, events, prosody, hstate, -⟩ :=
        state_exec_absorbSpeech c ports result t
      dsimp only
      rw [hstate]
  | video sequence frames =>
      refine view_ingest_eq c ports (.observe frames) (ports.vision frames)
        (absorbVisual c ports) sequence (hblind .video) (hchunks .video) (fun _ => rfl) ?_ t
      intro result t
      obtain ⟨events, quality, hstate, -⟩ := state_exec_absorbVisual c ports result t
      dsimp only
      rw [hstate]

end Coordinator

namespace StreamHandler

open Progress Monitor

variable {engine : StreamEngine} {request : StreamRequest} {grant : StreamGrant} {p : Progress}
  {conn : Connection}

theorem follows_ingest (hp : p.Listening) (hconn : Serves request grant conn)
    (call : Coordinator.IngestCall) {Q : Except Failure Connection → Progress → Prop}
    (hok : ∀ conn', Serves request grant conn' → Q (.ok conn') p) (herror : ∀ e, Q (.error e) p) :
    (course engine request).Follows Q (ingest conn call) p := by
  refine follows_port_bind ⟨hp.socket, hp.lease, hp.welcomed, hp.completion⟩ (fun ports => ?_)
    herror
  have hrun := conn.coordinator.runId_after conn.stream ⟨ports, call⟩
  unfold Coordinator.after at hrun
  rcases hexec : Stateful.exec (conn.coordinator.serve ⟨ports, call⟩) conn.stream with ⟨r, stream⟩
  rw [hexec] at hrun
  have hserves : Serves request grant { conn with stream := stream } :=
    ⟨hconn.caller, hconn.sessionId, hrun.trans hconn.runId⟩
  cases r with
  | ok verdict => exact hok _ hserves
  | error failure =>
      cases failure with
      | backpressureRequired message depth => exact hok _ hserves
      | _ => exact herror _

def Controlled (r : Except Failure Bool) (p : Progress) : Prop :=
  p.Welcomed ∧ (r = .ok true → p.Listening)

theorem follows_control (hgrant : Granted engine request grant) (hp : p.Listening)
    (hconn : Serves request grant conn) (type : ControlType) (now : Reading) :
    ((course engine request).pull StreamOp.wire).Follows Controlled
      (SocketHandler.control conn type now) p := by
  obtain ⟨hcaller, hsession, hrun⟩ := hconn
  have hstill : ∀ r p', p.Looked p' → Controlled r p' :=
    fun r p' h => ⟨(h.listening hp).toWelcomed, fun _ => h.listening hp⟩
  have hcapture : ∀ {c : Command AnalysisSession},
      (useCaseCourse engine request).Follows (fun _ p' => p.Looked p') c p →
      ((course engine request).pull StreamOp.wire).Follows Controlled
        (do let _ ← SocketHandler.lift c; return true) p :=
    fun hc => follows_bind (follows_lift hc) (fun _ p' h => hstill (.ok true) p' h)
      fun e p' h => hstill (.error e) p' h
  unfold SocketHandler.control
  rw [hcaller, hsession]
  cases type with
  | clientHeartbeat | sessionConfigure => exact follows_pure ⟨hp.toWelcomed, fun _ => hp⟩
  | capturePause => exact hcapture (follows_pause hgrant hp.toBusy hp.completion fun _ _ h => h)
  | captureResume => exact hcapture (follows_resume hgrant hp.toBusy hp.completion fun _ _ h => h)
  | sessionComplete =>
      have hframed : ∀ {r : Except Failure Bool} {p'}, r ≠ .ok true → p.Framed p' →
          Controlled r p' :=
        fun hr h => ⟨h.welcomed_of hp.toWelcomed, fun htrue => absurd htrue hr⟩
      rw [hrun]
      refine follows_bind (P := fun r p' => p.Framed p' ∧ ∀ completed, r = .ok completed →
          ∃ bundle tenant session,
            p'.completion = .completed bundle completed.document tenant session ∧
              session.state = .completed) (follows_lift ?_) ?_
        fun e p' h => hframed (by rintro ⟨⟩) h.1
      · refine follows_complete hgrant hp.toBusy hp.welcomed hp.completion hrun ?_
          fun e p' h => ⟨h, by rintro _ ⟨⟩⟩
        rintro completed p' bundle tenant session h hcompletion hstate
        refine ⟨h, ?_⟩
        rintro _ ⟨⟩
        exact ⟨bundle, tenant, session, hcompletion, hstate⟩
      · rintro completed p₁ ⟨h₁, hcompletion⟩
        obtain ⟨bundle, tenant, session, hsession', hdone⟩ := hcompletion completed rfl
        refine follows_bind (P := fun r p' => p.Framed p' ∧ (r = .ok () → Announces p'
            completed.document.runId.value completed.document.speechEvents.length
            completed.document.visualEvents.length completed.document.cooccurrences.length))
          (follows_lift ?_) ?_ fun e p' h => hframed (by rintro ⟨⟩) h.1
        · refine follows_closeRun hgrant (h₁.busy hp.toBusy)
            (fun _ => ⟨_, _, _, _, hsession'⟩) ?_ fun e p' h => ⟨h₁.trans h, by rintro ⟨⟩⟩
          intro p' h hclosed
          refine ⟨h₁.trans h, fun _ => ?_⟩
          obtain ⟨closed, hrunStage, hstate⟩ := hclosed _ _ _ _ hsession'
          exact ⟨_, _, _, _, closed, hrunStage, hdone, hstate, rfl, rfl, rfl, rfl⟩
        · rintro ⟨⟩ p₂ ⟨h₂, hannounces⟩
          have hbusy := h₂.busy hp.toBusy
          have hwelcomed := h₂.welcomed_of hp.toWelcomed
          have hafter : Welcomed { p₂ with announced := true } :=
            ⟨⟨hwelcomed.socket, hwelcomed.lease⟩, hwelcomed.welcomed⟩
          exact follows_port_bind ⟨hbusy.socket, hbusy.lease, hwelcomed.welcomed,
            h₂.announced.trans hp.announced, hannounces rfl⟩
            (fun _ => ⟨hafter, by rintro ⟨⟩⟩) fun e => ⟨hafter, by rintro ⟨⟩⟩

theorem follows_dispatch (hgrant : Granted engine request grant) (hp : p.Listening)
    (hconn : Serves request grant conn) (raw : Dict String Json) (now : Reading)
    {Q : Except Failure (Bool × Connection) → Progress → Prop}
    (hopen : ∀ conn' p', p'.Listening → Serves request grant conn' → Q (.ok (true, conn')) p')
    (hclosed : ∀ conn' p', p'.Welcomed → Q (.ok (false, conn')) p')
    (herror : ∀ e p', p'.Welcomed → Q (.error e) p') :
    (course engine request).Follows Q (dispatch engine conn raw now) p := by
  have hingest : ∀ call, (course engine request).Follows Q
      (do let conn ← ingest conn call; return (true, conn)) p := fun call =>
    follows_bind
      (follows_ingest (Q := fun r p' => p'.Listening ∧ ∀ c, r = .ok c → Serves request grant c) hp
        hconn call (fun c hc => ⟨hp, by rintro _ ⟨⟩; exact hc⟩) fun e => ⟨hp, by rintro _ ⟨⟩⟩)
      (fun c p' h => hopen c p' h.1 (h.2 c rfl)) fun e p' h => herror e p' h.1.toWelcomed
  unfold dispatch
  cases Protocol.parseClientMessage engine.protocol raw with
  | error failure =>
      cases failure with
      | protocolError message =>
          exact follows_port_bind ⟨hp.socket, hp.announced⟩ (fun _ => hopen conn p hp hconn)
            fun e => herror e p hp.toWelcomed
      | _ => exact herror _ p hp.toWelcomed
  | ok message =>
      cases message with
      | unknown message => exact hopen conn p hp hconn
      | audioChunk chunk => exact hingest (audioCall chunk)
      | videoFrame frame => exact hingest (videoCall frame)
      | control message =>
          refine follows_bind (follows_onWire (follows_control hgrant hp hconn _ now)) ?_
            fun e p' h => herror e p' h.1
          intro keepOpen p' h
          cases keepOpen with
          | true => exact hopen conn p' (h.2 rfl) hconn
          | false => exact hclosed conn p' h.1

theorem follows_listen (hgrant : Granted engine request grant) (messages : ℕ) (hp : p.Listening)
    (hconn : Serves request grant conn) :
    (course engine request).Follows (fun _ p' => p'.Welcomed) (listen engine conn messages) p := by
  induction messages generalizing p conn with
  | zero => exact hp.toWelcomed
  | succ messages ih =>
      refine follows_port_bind ⟨hp.socket, hp.lease, hp.welcomed, hp.completion⟩ ?_
        fun e => hp.toWelcomed
      rintro ⟨raw, now⟩
      refine follows_bind (P := fun r p' => p'.Welcomed ∧ ∀ conn', r = .ok (true, conn') →
          p'.Listening ∧ Serves request grant conn') ?_ ?_ fun e p' h => h.1
      · refine follows_dispatch hgrant hp hconn raw now ?_ ?_ fun e p' h => ⟨h, by rintro _ ⟨⟩⟩
        · intro conn' p' h hconn'
          refine ⟨h.toWelcomed, ?_⟩
          rintro _ ⟨⟩
          exact ⟨h, hconn'⟩
        · exact fun conn' p' h => ⟨h, by rintro _ ⟨⟩⟩
      · rintro ⟨keepOpen, conn'⟩ p' ⟨hwelcomed, hopen⟩
        cases keepOpen with
        | true => exact ih (hopen conn' rfl).1 (hopen conn' rfl).2
        | false => exact hwelcomed

theorem follows_serve (hgrant : Granted engine request grant) (hp : p.Listening)
    (hconn : Serves request grant conn) :
    (course engine request).Follows (fun _ p' => p'.lease = .held ∧ p'.socket = .closed)
      (serve engine request conn) p := by
  refine follows_ensuring (P := fun _ p' => p'.Welcomed) ?_ ?_
  · refine follows_rescue (follows_listen hgrant request.messages hp hconn) (fun _ _ h => h) ?_
      fun _ _ h _ => h
    intro e q p' h hq
    unfold disconnected at hq
    split_ifs at hq
    cases hq
    rw [hconn.runId]
    exact follows_onWire (follows_lift (follows_closeRun hgrant h.toBusy (by rintro ⟨⟩)
      (fun p'' hframed _ => hframed.welcomed_of h) fun e p'' hframed => hframed.welcomed_of h))
  · intro r p' h
    refine follows_rescue (P := fun _ p'' => p''.lease = .held ∧ p''.socket = .closed)
      (follows_port h.socket fun _ => ⟨h.lease, rfl⟩) (fun _ _ h => h) ?_ fun _ _ h _ => h
    intro e q p'' h'' hq
    split_ifs at hq
    cases hq
    exact h''

/-- Opening a stream welcomes the client, or refuses it and closes the socket, or fails before
the welcome. -/
theorem follows_accept (hgrant : Granted engine request grant) (hp : p.Busy)
    (hnothing : p.completion = .nothing) (hwelcomed : p.welcomed = false)
    (hannounced : p.announced = false) :
    ((course engine request).pull StreamOp.wire).Follows
      (fun r p' => p'.lease = .held ∧ match r with
        | .ok (some conn) => p'.Listening ∧ Serves request grant conn
        | .ok none => p'.socket = .closed
        | .error _ => p'.welcomed = false)
      (SocketHandler.accept engine.toEngine (opening request grant)) p := by
  refine follows_port_bind ⟨hp.socket, hp.lease, trivial, fun _ => ⟨grant, hgrant, rfl⟩⟩ ?_
    fun e => ⟨hp.lease, hwelcomed⟩
  intro configuration
  have hopened : (useCaseCourse engine request).Follows
      (fun r p' => p.Framed p' ∧ p'.completion = .nothing ∧
        ∀ run, r = .ok run → run.id = request.runId ∧ p'.opened = some request.runId)
      (do
        let _ ← CaptureControl.begin (callerFrom grant) grant.sessionId request.wallMs
        OpenProcessingRun.execute (callerFrom grant) grant.sessionId request.runId
          engine.pipelineVersion request.epochMs) p := by
    refine follows_bind (follows_begin hgrant hp hnothing fun _ _ h => h) ?_ ?_
    · intro _ p₁ h₁
      refine follows_openRun hgrant (h₁.busy hp) ?_ ?_
      · intro run p₂ h₂ hrun
        have hlooked := h₁.trans h₂
        refine ⟨⟨hlooked.socket, hlooked.lease, hlooked.toFramed.welcomed, hlooked.announced⟩,
          hlooked.completion.trans hnothing, ?_⟩
        rintro _ ⟨⟩
        exact ⟨hrun, rfl⟩
      · intro e p₂ h₂
        exact ⟨(h₁.trans h₂).toFramed, (h₁.trans h₂).completion.trans hnothing, by rintro _ ⟨⟩⟩
    · exact fun e p₁ h₁ => ⟨h₁.toFramed, h₁.completion.trans hnothing, by rintro _ ⟨⟩⟩
  refine follows_bind (P := fun r p' => p'.lease = .held ∧ p'.welcomed = false ∧ match r with
      | .ok (some run) => p.Framed p' ∧ p'.completion = .nothing ∧ run.id = request.runId ∧
          p'.opened = some request.runId
      | .ok none => p'.socket = .closed
      | .error _ => True) ?_ ?_ fun e p' h => ⟨h.1, h.2.1⟩
  · refine follows_rescue (P := fun r p' => p.Framed p' ∧ p'.completion = .nothing ∧
        ∀ opened, r = .ok opened → ∃ run, opened = some run ∧ run.id = request.runId ∧
          p'.opened = some request.runId)
      (follows_bind (follows_lift hopened) ?_ ?_) ?_ ?_ ?_
    · rintro run p' ⟨hframed, hcompletion, hrun⟩
      exact ⟨hframed, hcompletion, by rintro _ ⟨⟩; exact ⟨run, rfl, hrun run rfl⟩⟩
    · rintro e p' ⟨hframed, hcompletion, -⟩
      exact ⟨hframed, hcompletion, by rintro _ ⟨⟩⟩
    · rintro opened p' ⟨hframed, hcompletion, hrun⟩
      obtain ⟨run, rfl, hid⟩ := hrun opened rfl
      exact ⟨hframed.lease.trans hp.lease, hframed.welcomed.trans hwelcomed, hframed, hcompletion,
        hid⟩
    · rintro e q p' ⟨hframed, hcompletion, -⟩ hq
      have hlease := hframed.lease.trans hp.lease
      have hunwelcomed := hframed.welcomed.trans hwelcomed
      unfold SocketHandler.refuse at hq
      split_ifs at hq
      cases hq
      exact follows_port_bind
        ⟨hframed.socket.trans hp.socket, hframed.announced.trans hannounced⟩
        (fun _ => follows_port_bind (hframed.socket.trans hp.socket)
          (fun _ => ⟨hlease, hunwelcomed, rfl⟩) fun e => ⟨hlease, hunwelcomed, trivial⟩)
        fun e => ⟨hlease, hunwelcomed, trivial⟩
    · rintro e p' ⟨hframed, hcompletion, -⟩ -
      exact ⟨hframed.lease.trans hp.lease, hframed.welcomed.trans hwelcomed, trivial⟩
  · rintro (_ | run) p' ⟨hlease, hunwelcomed, hopened⟩
    · exact ⟨hlease, hopened⟩
    · obtain ⟨hframed, hcompletion, hrun, hrecorded⟩ := hopened
      have hbusy := hframed.busy hp
      refine follows_port_bind ⟨hbusy.socket, hlease, hunwelcomed, request.runId, hrecorded,
        congrArg (fun i : RunId => i.value) hrun⟩ (fun _ => ⟨hlease, ?_, rfl, rfl, hrun⟩)
        fun e => ⟨hlease, hunwelcomed⟩
      exact ⟨⟨hbusy.socket, hlease⟩, rfl, hcompletion, hframed.announced.trans hannounced⟩

theorem follows_run (hgrant : Granted engine request grant) (hp : p.Busy)
    (hnothing : p.completion = .nothing) (hwelcomed : p.welcomed = false)
    (hannounced : p.announced = false) :
    (course engine request).Follows (fun r p' => p'.lease = .held ∧
        (p'.welcomed = true → p'.socket = .closed) ∧ (r = .ok () → p'.socket = .closed))
      (run engine request grant) p := by
  refine follows_bind (follows_onWire (follows_accept hgrant hp hnothing hwelcomed hannounced))
    ?_ ?_
  · rintro (_ | conn) p' ⟨hlease, hopened⟩
    · exact ⟨hlease, fun _ => hopened, fun _ => hopened⟩
    · exact (follows_serve hgrant hopened.1 hopened.2).mono fun _ _ h =>
        ⟨h.1, fun _ => h.2, fun _ => h.2⟩
  · rintro e p' ⟨hlease, hunwelcomed⟩
    refine ⟨hlease, fun h => ?_, by rintro ⟨⟩⟩
    rw [hunwelcomed] at h
    cases h

theorem ended_of_untaken (hlease : p.lease = .untaken) (hwelcomed : p.welcomed = false)
    (e : Failure) : Ended (.error e) p := by
  refine ⟨by rw [hlease]; decide, fun h => ?_, by rintro ⟨⟩⟩
  rw [hwelcomed] at h
  cases h

theorem follows_refusal (code message : String) {socketCode : ℤ} (hsocket : p.socket = .accepted)
    (hlease : p.lease = .untaken) (hwelcomed : p.welcomed = false)
    (hannounced : p.announced = false) :
    (course engine request).Follows Ended
      (do sendError code message; close socketCode) p := by
  have hkept : p.lease ≠ .held := by rw [hlease]; decide
  refine follows_port_bind ⟨hsocket, hannounced⟩ (fun _ => ?_)
    fun e => ended_of_untaken hlease hwelcomed e
  exact follows_port hsocket fun r => ⟨hkept, fun _ => rfl, fun _ => rfl⟩

theorem follows_admitted (hgrant : Granted engine request grant) :
    (course engine request).Follows Ended (admitted engine request grant)
      { Progress.start with socket := .accepted } := by
  refine follows_port_bind ⟨rfl, rfl, rfl, grant, hgrant, rfl⟩ ?_
    fun e => ended_of_untaken rfl rfl e
  intro acquired
  cases acquired with
  | false => exact follows_refusal _ _ rfl rfl rfl rfl
  | true =>
      refine follows_ensuring (follows_run hgrant ⟨rfl, rfl⟩ rfl rfl rfl) ?_
      rintro r p ⟨hlease, hwelcomed, hreturned⟩
      refine follows_port ⟨hlease, grant, hgrant, rfl⟩ fun c => ?_
      cases c with
      | ok _ => exact ⟨by rintro ⟨⟩, hwelcomed, hreturned⟩
      | error e => exact ⟨by rintro ⟨⟩, hwelcomed, by rintro ⟨⟩⟩

/-- The handler keeps to the course of its request, whatever its calls are answered and wherever
they fail. -/
theorem follows_stream (engine : StreamEngine) (request : StreamRequest) :
    (course engine request).Follows Ended (stream engine request) .start := by
  have hrefused : (course engine request).Follows Ended (refuseToken request)
      { Progress.start with socket := .accepted } :=
    follows_ofExcept_bind (fun _ _ => follows_refusal _ _ rfl rfl rfl rfl)
      fun e _ => ended_of_untaken rfl rfl e
  refine follows_port_bind ⟨rfl, rfl⟩ (fun _ => ?_)
    fun e => ended_of_untaken rfl rfl e
  refine follows_ofExcept_bind (fun verified hverified => ?_)
    fun e _ => ended_of_untaken rfl rfl e
  cases verified with
  | none => exact hrefused
  | some grant =>
      dsimp only
      split_ifs with hsession
      · exact follows_admitted ⟨hverified, hsession⟩
      · exact hrefused

end StreamHandler

end OratoriaEngine
