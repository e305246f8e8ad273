import OratoriaEngine.Handler
import OratoriaEngine.Lib.Served

/-!
# What the client of a socket is told

The handler calls the use cases and sends messages to the client. Opening a stream answers the
refusals of the application with an error message; what the domain refuses, and everything that
is refused to a control message, leaves the handler as an exception.
-/

namespace OratoriaEngine

/-- What the handler asks for: a port of the use cases, a message to the client, the end. -/
inductive Wire
  | port (o : Port)
  | sendError (code message : String)
  | sendAccepted (runId configurationId taxonomyVersion : String) (maxQueueDepth : ℤ)
  | sendCompleted (runId : String) (speechEvents visualEvents cooccurrences : ℕ)
      (rankingAuthority : String)
  | close (code : ℤ)

def Wire.Answer : Wire → Type
  | .port o => o.Answer
  | _ => Unit

abbrev WireProgram (α : Type) := Program Wire Wire.Answer Failure α

def Failure.isApplicationError : Failure → Bool
  | .notAuthorized _ | .sessionNotFound _ | .resultNotReady _ | .quotaExceeded _ _ |
    .sessionBusy _ | .backpressureRequired _ _ => true
  | _ => false

def Failure.applicationText : Failure → String
  | .notAuthorized message | .sessionNotFound message | .resultNotReady message |
    .quotaExceeded message _ | .sessionBusy message | .backpressureRequired message _ => message
  | _ => ""

def closePolicyViolation : ℤ := 1008

namespace SocketHandler

def lift {α : Type} : Command α → WireProgram α
  | .done r => .done r
  | .call o next => .call (.port o) fun r => lift (next r)

abbrev sendError (code message : String) : WireProgram Unit :=
  Program.port (Wire.sendError code message)

abbrev close (code : ℤ) : WireProgram Unit := Program.port (Wire.close code)

def refuse (failure : Failure) : Option (WireProgram (Option ProcessingRun)) :=
  if failure.isApplicationError then
    some do
      sendError "cannot_begin_capture" failure.applicationText
      close closePolicyViolation
      return none
  else none

/-- The handler up to its first message; nothing, if it refused the stream and closed it. -/
def accept (engine : Engine) (o : Opening) : WireProgram (Option Connection) := do
  let configuration ← lift (Command.configurationCurrent o.caller.tenant)
  let opened ← Program.rescue refuse <| some <$> lift do
    let _ ← CaptureControl.begin o.caller o.sessionId o.wallMs
    OpenProcessingRun.execute o.caller o.sessionId o.runId engine.pipelineVersion o.epochMs
  match opened with
  | none => return none
  | some run =>
      Program.port (Wire.sendAccepted run.id.value configuration.id.value
        (toString configuration.taxonomyVersion) engine.maxQueueDepth)
      return some (Handler.connection engine o configuration run.id)

/-- One control message; whether the socket stays open. -/
def control (conn : Connection) (type : ControlType) (now : Reading) : WireProgram Bool :=
  match type with
  | .clientHeartbeat | .sessionConfigure => return true
  | .capturePause => do
      let _ ← lift (CaptureControl.pause conn.caller conn.sessionId now.wallMs)
      return true
  | .captureResume => do
      let _ ← lift (CaptureControl.resume conn.caller conn.sessionId now.wallMs)
      return true
  | .sessionComplete => do
      let completed ← lift (CompleteSession.execute conn.caller conn.sessionId conn.stream.state
        conn.configuration now.wallMs now.epochMs)
      lift (CloseProcessingRun.execute conn.stream.state.runId true now.closedMs)
      Program.port (Wire.sendCompleted completed.document.runId.value
        completed.document.speechEvents.length completed.document.visualEvents.length
        completed.document.cooccurrences.length "none")
      return false

variable {W : Type}

/-- The handler returns, and if the use case behind it refuses, an error message is sent. -/
structure AnswersRefusals {α β : Type} (answers : Program.Answers Wire Wire.Answer W) (w : W)
    (useCase : Command β) (handler : WireProgram α) : Prop where
  returns : ∃ a, handler.result answers w = .ok a
  answered : ∀ e, (lift useCase).result answers w = .error e →
    ∃ code message, .sendError code message ∈ handler.asked answers w

def consents (session : AnalysisSession) : Bool := session.consent.any (·.isActive)

/-- A caller that may write a session that is there can begin its capture. -/
def MayBegin (caller : AuthenticatedCaller) (found : Option AnalysisSession) : Prop :=
  caller.allows .sessionsWrite = true → ∀ session, found = some session →
    consents session = true ∧ session.state.canTransition .capturing = true

/-- The caller may write, the session is there, and what the message asks of it is legal. -/
def MayControl (conn : Connection) (found : Option AnalysisSession) : ControlType → Prop
  | .clientHeartbeat | .sessionConfigure => True
  | .capturePause => conn.caller.allows .sessionsWrite = true ∧ ∃ session, found = some session ∧
      session.state.canTransition .paused = true
  | .captureResume => conn.caller.allows .sessionsWrite = true ∧ ∃ session, found = some session ∧
      consents session = true ∧ session.state.canTransition .capturing = true
  | .sessionComplete => conn.caller.allows .sessionsWrite = true ∧ ∃ session,
      found = some session ∧ session.state.canTransition .completing = true ∧
      conn.configuration.taxonomyVersion = taxonomyVersion

section Domain

variable {session : AnalysisSession} {wallMs : ℤ}

theorem requireConsentForMedia_eq_ok_iff :
    session.requireConsentForMedia = .ok () ↔ consents session = true := by
  unfold AnalysisSession.requireConsentForMedia consents
  cases session.consent with
  | none => simp
  | some receipt =>
      by_cases hactive : receipt.isActive = true
      · simp [ConsentReceipt.requireActive, hactive]
      · simp [ConsentReceipt.requireActive, hactive]

theorem beginCapture_isOk_iff : (∃ updated, session.beginCapture wallMs = .ok updated) ↔
    consents session = true ∧ session.state.canTransition .capturing = true := by
  rw [← requireConsentForMedia_eq_ok_iff]
  constructor
  · rintro ⟨updated, h⟩
    obtain ⟨_, hconsent, -⟩ := Except.bind_eq_ok.1 h
    exact ⟨hconsent, (AnalysisSession.beginCapture_eq_ok h).2.1⟩
  · rintro ⟨hconsent, hlegal⟩
    unfold AnalysisSession.beginCapture SessionState.requireTransition
    rw [hconsent, if_pos hlegal]
    exact ⟨_, rfl⟩

theorem pauseCapture_isOk_iff : (∃ updated, session.pauseCapture wallMs = .ok updated) ↔
    session.state.canTransition .paused = true := by
  constructor
  · rintro ⟨updated, h⟩
    exact (AnalysisSession.pauseCapture_eq_ok h).2.1
  · intro hlegal
    unfold AnalysisSession.pauseCapture SessionState.requireTransition
    rw [if_pos hlegal]
    exact ⟨_, rfl⟩

theorem beginCapture_eq_error {e : Failure} (h : session.beginCapture wallMs = .error e) :
    e.isApplicationError = false := by
  unfold AnalysisSession.beginCapture AnalysisSession.requireConsentForMedia
    ConsentReceipt.requireActive SessionState.requireTransition at h
  cases hconsent : session.consent with
  | none =>
      rw [hconsent] at h
      cases h
      rfl
  | some receipt =>
      simp only [hconsent] at h
      split_ifs at h <;> cases h <;> rfl

end Domain

/-- How the ports of the use cases are answered. -/
def portAnswers (answers : Program.Answers Wire Wire.Answer W) :
    Program.Answers Port Port.Answer W := fun o => answers (.port o)

section UseCases

variable {answers : Program.Answers Wire Wire.Answer W} {w : W}

theorem result_lift {α : Type} (p : Command α) (w : W) :
    (lift p).result answers w = p.result (portAnswers answers) w := by
  induction p generalizing w with
  | done r => rfl
  | call o next ih => exact ih _ _

variable {ports : Program.Answers Port Port.Answer W} {caller : AuthenticatedCaller}
  {sessionId : SessionId}

/-- The session that a lookup finds. -/
def found (ports : Program.Answers Port Port.Answer W) (caller : AuthenticatedCaller)
    (sessionId : SessionId) (w : W) : Option AnalysisSession :=
  (ports (.sessionsGet caller.tenant sessionId) w).1

/-- A use case that writes a session goes on with the session it finds, if the caller may. -/
theorem result_resolved {α : Type} (purpose : String) (f : AnalysisSession → Command α) :
    (do
      Command.requireScope caller .sessionsWrite purpose
      let session ← Command.resolve caller sessionId
      f session : Command α).result ports w =
    if caller.allows .sessionsWrite = true then
      match found ports caller sessionId w with
      | some session =>
          (f session).result ports (ports (.sessionsGet caller.tenant sessionId) w).2
      | none => .error (.sessionNotFound s!"session {sessionId.value} not found")
    else .error (.notAuthorized s!"{purpose} requires {Scope.sessionsWrite.value}") := by
  unfold Command.requireScope
  split_ifs with hscope
  · unfold Command.resolve found
    rw [Program.pure_eq, Program.done_ok_bind, Program.bind_assoc, Program.result_port_bind]
    cases (ports (.sessionsGet caller.tenant sessionId) w).1 with
    | some session => rfl
    | none => rfl
  · rfl

/-- Capture control returns exactly when the caller may write a session that is there and makes
the transition. -/
theorem result_capture_isOk_iff (purpose : String)
    (transition : AnalysisSession → Except Failure AnalysisSession) :
    (∃ updated, (do
      Command.requireScope caller .sessionsWrite purpose
      let session ← Command.resolve caller sessionId
      let updated ← Program.ofExcept (transition session)
      Command.sessionsSave updated
      return updated : Command AnalysisSession).result ports w = .ok updated) ↔
    caller.allows .sessionsWrite = true ∧ ∃ session, found ports caller sessionId w = some session ∧
      ∃ updated, transition session = .ok updated := by
  rw [result_resolved]
  split_ifs with hscope
  · rw [and_iff_right hscope]
    cases hfound : found ports caller sessionId w with
    | none => simp
    | some session =>
        simp only [Option.some.injEq, exists_eq_left']
        cases transition session with
        | error e => exact Iff.rfl
        | ok updated => exact iff_of_true ⟨updated, rfl⟩ ⟨updated, rfl⟩
  · simp [hscope]

theorem result_complete_isOk_iff (state : StreamingState) (configuration : ConfigurationSnapshot)
    (wallMs nowMs : ℤ) :
    (∃ completed, (CompleteSession.execute caller sessionId state configuration wallMs nowMs).result
      ports w = .ok completed) ↔
    caller.allows .sessionsWrite = true ∧ ∃ session, found ports caller sessionId w = some session ∧
      session.state.canTransition .completing = true ∧
      configuration.taxonomyVersion = taxonomyVersion := by
  unfold CompleteSession.execute
  rw [result_resolved]
  split_ifs with hscope
  · rw [and_iff_right hscope]
    cases hfound : found ports caller sessionId w with
    | none => simp
    | some session =>
        simp only [Option.some.injEq, exists_eq_left']
        cases hrequest : session.requestCompletion wallMs with
        | error e =>
            refine iff_of_false (fun ⟨_, h⟩ => by cases h) fun ⟨hlegal, _⟩ => ?_
            obtain ⟨completing, hok⟩ := AnalysisSession.requestCompletion_isOk wallMs hlegal
            rw [hrequest] at hok
            cases hok
        | ok completing =>
            obtain ⟨hstate, hlegal, -⟩ := AnalysisSession.requestCompletion_eq_ok hrequest
            rw [and_iff_right hlegal,
              ← assembleEvidence_isOk_iff state completing configuration caller.tenant sessionId
                wallMs]
            obtain ⟨completed, hcompleted⟩ := AnalysisSession.markCompleted_isOk nowMs hstate
            cases hevidence : assembleEvidence state completing configuration caller.tenant
                sessionId wallMs with
            | error e =>
                simp only [Program.ofExcept, Program.done_ok_bind, Program.result_port_bind,
                  hevidence]
                exact iff_of_false (fun ⟨_, h⟩ => by cases h) fun ⟨_, h⟩ => by cases h
            | ok evidence =>
                simp only [Program.ofExcept, Program.done_ok_bind, Program.result_port_bind,
                  hevidence, hcompleted]
                exact iff_of_true ⟨_, rfl⟩ ⟨evidence, rfl⟩
  · simp [hscope]

theorem openRun_eq_error {runId : RunId} {pipelineVersion : SemanticVersion} {epochMs : ℤ}
    {e : Failure} (h : (OpenProcessingRun.execute caller sessionId runId pipelineVersion
      epochMs).result ports w = .error e) : e.isApplicationError = true := by
  unfold OpenProcessingRun.execute at h
  rw [result_resolved] at h
  split_ifs at h
  · cases hfound : found ports caller sessionId w with
    | none =>
        rw [hfound] at h
        cases h
        rfl
    | some session =>
        rw [hfound] at h
        cases h
  · cases h
    rfl

/-- The begin and the run of an opening fail for the domain's sake exactly when the session may not
begin its capture. -/
theorem result_opening (wallMs epochMs : ℤ) (runId : RunId) (pipelineVersion : SemanticVersion) :
    (∀ e, (do
      let _ ← CaptureControl.begin caller sessionId wallMs
      OpenProcessingRun.execute caller sessionId runId pipelineVersion epochMs :
        Command ProcessingRun).result ports w = .error e → e.isApplicationError = true) ↔
    MayBegin caller (found ports caller sessionId w) := by
  have hshape : (do
      let _ ← CaptureControl.begin caller sessionId wallMs
      OpenProcessingRun.execute caller sessionId runId pipelineVersion epochMs :
        Command ProcessingRun) = (do
      Command.requireScope caller .sessionsWrite "capture control"
      let session ← Command.resolve caller sessionId
      let updated ← Program.ofExcept (session.beginCapture wallMs)
      Command.sessionsSave updated
      OpenProcessingRun.execute caller sessionId runId pipelineVersion epochMs :
        Command ProcessingRun) := by
    simp only [CaptureControl.begin, Program.bind_assoc, Program.pure_eq, Program.done_ok_bind]
  rw [hshape, result_resolved]
  unfold MayBegin
  split_ifs with hscope
  · simp only [hscope, true_implies]
    cases hfound : found ports caller sessionId w with
    | none => exact iff_of_true (fun e he => by cases he; rfl) fun _ h => by cases h
    | some session =>
        simp only [Option.some.injEq, forall_eq']
        rw [← beginCapture_isOk_iff ]
        cases hbegin : session.beginCapture wallMs with
        | error e =>
            refine iff_of_false (fun h => ?_) fun ⟨_, h⟩ => by cases h
            exact absurd (h e rfl) (by simp [beginCapture_eq_error hbegin])
        | ok updated =>
            refine iff_of_true (fun e he => ?_) ⟨updated, rfl⟩
            exact openRun_eq_error he
  · exact iff_of_true (fun e he => by cases he; rfl) fun h => absurd h hscope

end UseCases

section Handler

variable {answers : Program.Answers Wire Wire.Answer W} {w : W}

theorem answersRefusals_bind_iff {α β γ : Type} {useCase : Command α} {rest : α → WireProgram β}
    {after : α → Command γ} (hrest : ∀ a w, ∃ b, (rest a).result answers w = .ok b)
    (hafter : ∀ a w, ∃ c, (after a).result (portAnswers answers) w = .ok c) :
    AnswersRefusals answers w (useCase >>= after) (lift useCase >>= rest) ↔
      ∃ a, useCase.result (portAnswers answers) w = .ok a := by
  cases huse : useCase.result (portAnswers answers) w with
  | error e =>
      refine iff_of_false (fun h => ?_) fun ⟨_, h⟩ => by cases h
      obtain ⟨b, hb⟩ := h.returns
      rw [Program.result_bind_of_error ((result_lift useCase w).trans huse)] at hb
      cases hb
  | ok a =>
      refine iff_of_true ⟨?_, fun e he => ?_⟩ ⟨a, rfl⟩
      · obtain ⟨w', hw'⟩ := Program.exists_result_bind ((result_lift useCase w).trans huse) rest
        rw [hw']
        exact hrest a w'
      · obtain ⟨w', hw'⟩ := Program.exists_result_bind huse after
        obtain ⟨c, hc⟩ := hafter a w'
        rw [result_lift, hw', hc] at he
        cases he

theorem answersRefusals_rescue_iff {β γ : Type} {useCase : Command ProcessingRun}
    {rest : Option ProcessingRun → WireProgram β} {after : ProcessingRun → Command γ}
    (hrest : ∀ opened w, ∃ b, (rest opened).result answers w = .ok b)
    (hafter : ∀ run w, ∃ c, (after run).result (portAnswers answers) w = .ok c) :
    AnswersRefusals answers w (useCase >>= after)
        (Program.rescue refuse (some <$> lift useCase) >>= rest) ↔
      ∀ e, useCase.result (portAnswers answers) w = .error e → e.isApplicationError = true := by
  cases huse : useCase.result (portAnswers answers) w with
  | ok run =>
      obtain ⟨_, hopened⟩ := Program.exists_result_bind ((result_lift useCase w).trans huse)
        fun run => return some run
      obtain ⟨w', hreturns⟩ := Program.exists_result_bind (Program.result_rescue_of_ok hopened) rest
      refine iff_of_true ⟨?_, fun e he => ?_⟩ fun e he => by cases he
      · obtain ⟨b, hb⟩ := hrest (some run) w'
        exact ⟨b, hreturns.trans hb⟩
      · obtain ⟨w'', hw''⟩ := Program.exists_result_bind huse after
        obtain ⟨c, hc⟩ := hafter run w''
        rw [result_lift, hw'', hc] at he
        cases he
  | error e =>
      have hopened : (some <$> lift useCase : WireProgram (Option ProcessingRun)).result answers
          w = .error e :=
        Program.result_bind_of_error ((result_lift useCase w).trans huse) _
      cases happlication : e.isApplicationError with
      | true =>
          have hrefuse : refuse e = some (do
            sendError "cannot_begin_capture" e.applicationText
            close closePolicyViolation
            return none) := if_pos happlication
          obtain ⟨_, hrescued, hsent⟩ := Program.exists_result_rescue hopened hrefuse
          obtain ⟨w', hreturns⟩ := Program.exists_result_bind hrescued rest
          refine iff_of_true ⟨?_, fun _ _ => ?_⟩ fun e' he' => ?_
          · obtain ⟨b, hb⟩ := hrest none w'
            exact ⟨b, hreturns.trans hb⟩
          · exact ⟨"cannot_begin_capture", e.applicationText,
              Program.mem_asked_bind (hsent _ (List.mem_cons_self ..)) rest⟩
          · cases he'
            exact happlication
      | false =>
          have hrefuse : refuse e = none := if_neg (by rw [happlication]; exact Bool.false_ne_true)
          refine iff_of_false (fun h => ?_) fun h => ?_
          · obtain ⟨b, hb⟩ := h.returns
            rw [Program.result_bind_of_error
              (Program.result_rescue_of_unhandled hopened hrefuse)] at hb
            cases hb
          · rw [h e rfl] at happlication
            cases happlication

theorem answersRefusals_port_bind_iff {α β : Type} {o : Port} {useCase : o.Answer → Command β}
    {handler : o.Answer → WireProgram α} :
    AnswersRefusals answers w (Program.port o >>= useCase)
        (Program.port (Wire.port o) >>= handler) ↔
      AnswersRefusals answers (answers (.port o) w).2 (useCase (answers (.port o) w).1)
        (handler (answers (.port o) w).1) := by
  constructor
  · intro h
    refine ⟨h.returns, fun e he => ?_⟩
    obtain ⟨code, message, hsent⟩ := h.answered e he
    exact ⟨code, message, (List.mem_cons.1 hsent).resolve_left (by rintro ⟨⟩)⟩
  · intro h
    refine ⟨h.returns, fun e he => ?_⟩
    obtain ⟨code, message, hsent⟩ := h.answered e he
    exact ⟨code, message, List.mem_cons_of_mem _ hsent⟩

theorem closeRun_isOk {ports : Program.Answers Port Port.Answer W} (runId : RunId)
    (succeeded : Bool) (epochMs : ℤ) (w : W) :
    (CloseProcessingRun.execute runId succeeded epochMs).result ports w = .ok () := by
  unfold CloseProcessingRun.execute
  rw [Program.result_port_bind]
  cases (ports (.runsGet runId) w).1 with
  | none => rfl
  | some run => rfl

theorem control_answersRefusals_iff (conn : Connection) (type : ControlType) (now : Reading) :
    AnswersRefusals answers w (Handler.control conn type now) (control conn type now) ↔
      MayControl conn (found (portAnswers answers) conn.caller conn.sessionId w) type := by
  have hreturn : ∀ (b : Bool) (a : AnalysisSession) (w : W),
      ∃ c, ((return b : WireProgram Bool)).result answers w = .ok c := fun b _ _ => ⟨b, rfl⟩
  cases type with
  | clientHeartbeat => exact iff_of_true ⟨⟨true, rfl⟩, fun e he => by cases he⟩ trivial
  | sessionConfigure => exact iff_of_true ⟨⟨true, rfl⟩, fun e he => by cases he⟩ trivial
  | capturePause =>
      refine (answersRefusals_bind_iff (hreturn true) fun _ _ => ⟨true, rfl⟩).trans ?_
      refine (result_capture_isOk_iff "capture control" (·.pauseCapture now.wallMs)).trans ?_
      simp only [pauseCapture_isOk_iff, MayControl]
  | captureResume =>
      refine (answersRefusals_bind_iff (hreturn true) fun _ _ => ⟨true, rfl⟩).trans ?_
      refine (result_capture_isOk_iff "capture control" (·.resumeCapture now.wallMs)).trans ?_
      have hdomain : ∀ session : AnalysisSession,
          (∃ updated, session.resumeCapture now.wallMs = .ok updated) ↔
            consents session = true ∧ session.state.canTransition .capturing = true :=
        fun _ => beginCapture_isOk_iff
      simp only [hdomain, MayControl]
  | sessionComplete =>
      refine (answersRefusals_bind_iff (fun completed w => ?_) fun _ w => ?_).trans ?_
      · obtain ⟨w', hw'⟩ := Program.exists_result_bind ((result_lift _ w).trans
          (closeRun_isOk conn.stream.state.runId true now.closedMs w)) _
        exact ⟨false, hw'⟩
      · obtain ⟨w', hw'⟩ := Program.exists_result_bind
          (closeRun_isOk conn.stream.state.runId true now.closedMs w) _
        exact ⟨false, hw'⟩
      · exact result_complete_isOk_iff _ _ _ _

/-- The stream of an opening is answered as it should be exactly when the domain refuses nothing:
the caller may not write, there is no session, or its capture may begin. -/
theorem accept_answersRefusals_iff (engine : Engine) (o : Opening) :
    AnswersRefusals answers w (Handler.start engine o) (accept engine o) ↔
      MayBegin o.caller (found (portAnswers answers) o.caller o.sessionId
        (answers (.port (.configurationCurrent o.caller.tenant)) w).2) := by
  have hstart : Handler.start engine o =
      Program.port (.configurationCurrent o.caller.tenant) >>= fun configuration =>
        (do
          let _ ← CaptureControl.begin o.caller o.sessionId o.wallMs
          OpenProcessingRun.execute o.caller o.sessionId o.runId engine.pipelineVersion o.epochMs)
            >>= fun run => return Handler.connection engine o configuration run.id := by
    simp only [Program.bind_assoc]
    rfl
  rw [hstart]
  refine answersRefusals_port_bind_iff.trans ((answersRefusals_rescue_iff (fun opened _ => ?_)
    fun run _ => ?_).trans (result_opening o.wallMs o.epochMs o.runId engine.pipelineVersion))
  · cases opened with
    | none => exact ⟨none, rfl⟩
    | some run => exact ⟨_, rfl⟩
  · exact ⟨_, rfl⟩

end Handler

end SocketHandler

/-- A handler answers what is refused to a control message, and to an opening, with an error
message and returns, exactly when nothing refuses the message, and when the domain does not
refuse the opening; whatever the session, the stream and the requests in between. -/
theorem answersRefusals_iff_notRefused {W : Type} (answers : Program.Answers Wire Wire.Answer W)
    (w : W) (engine : Engine) (o : Opening) (conn : Connection) (type : ControlType)
    (now : Reading) :
    (SocketHandler.AnswersRefusals answers w (Handler.control conn type now)
        (SocketHandler.control conn type now) ↔
      SocketHandler.MayControl conn (SocketHandler.found (SocketHandler.portAnswers answers)
        conn.caller conn.sessionId w) type) ∧
    (SocketHandler.AnswersRefusals answers w (Handler.start engine o)
        (SocketHandler.accept engine o) ↔
      SocketHandler.MayBegin o.caller (SocketHandler.found (SocketHandler.portAnswers answers)
        o.caller o.sessionId (answers (.port (.configurationCurrent o.caller.tenant)) w).2)) :=
  ⟨SocketHandler.control_answersRefusals_iff conn type now,
    SocketHandler.accept_answersRefusals_iff engine o⟩

theorem inMemory_isOk (o : Port) (w : World) : ∃ a, (inMemory o w).1 = .ok a := by
  cases o with
  | claimIdempotencyKey application key sessionId =>
      simp only [inMemory, World.claimIdempotencyKey]
      split_ifs <;> exact ⟨_, rfl⟩
  | _ => exact ⟨_, rfl⟩

def memoryAnswers : Program.Answers Wire Wire.Answer World
  | .port o, w =>
      match h : (inMemory o w).1 with
      | .ok a => (a, (inMemory o w).2)
      | .error e => False.elim (by
          obtain ⟨a, ha⟩ := inMemory_isOk o w
          rw [h] at ha
          cases ha)
  | .sendError _ _, w | .sendAccepted _ _ _ _, w | .sendCompleted _ _ _ _ _, w | .close _, w =>
      ((), w)

def studyOpening : Opening where
  caller := operator
  sessionId := studySessionId
  runId := studyRunId
  wallMs := 0
  epochMs := 0

/-- Two pauses in a row, and a second stream for a session that is capturing, end in an exception
and nothing tells the client. -/
theorem not_answersRefusals_study :
    ¬SocketHandler.AnswersRefusals memoryAnswers (study .paused)
        (Handler.control (Handler.connection Deployment.sampleEngine studyOpening
          defaultConfiguration studyRunId) .capturePause ⟨0, 0, 0⟩)
        (SocketHandler.control (Handler.connection Deployment.sampleEngine studyOpening
          defaultConfiguration studyRunId) .capturePause ⟨0, 0, 0⟩) ∧
      ¬SocketHandler.AnswersRefusals memoryAnswers (study .capturing)
        (Handler.start Deployment.sampleEngine studyOpening)
        (SocketHandler.accept Deployment.sampleEngine studyOpening) := by
  constructor
  · rw [SocketHandler.control_answersRefusals_iff]
    rintro ⟨-, session, hfound, hlegal⟩
    have hstored : some (studySession .paused) = some session := hfound
    rw [← Option.some.inj hstored] at hlegal
    exact absurd hlegal (by decide)
  · rw [SocketHandler.accept_answersRefusals_iff]
    intro h
    have hlegal := (h (by decide +kernel) (studySession .capturing) rfl).2
    exact absurd hlegal (by decide)

end OratoriaEngine
