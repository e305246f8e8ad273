import OratoriaEngine.TenantParts

/-!
# Tenants cannot see each other

Calls of any number of tenants are served one after the other. What the callers of one tenant
are answered, and what is stored for it, is what they would have been answered and what would
have been stored if only they had called.
-/

namespace OratoriaEngine

namespace Tenancy

inductive UseCase
  | createSession (mint : StreamGrant → String) (command : CreateSessionCommand)
      (generated : SessionId) (epochMs : ℕ → ℤ)
  | beginCapture (sessionId : SessionId) (wallMs : ℤ)
  | pauseCapture (sessionId : SessionId) (wallMs : ℤ)
  | resumeCapture (sessionId : SessionId) (wallMs : ℤ)
  | completeSession (sessionId : SessionId) (state : StreamingState)
      (configuration : ConfigurationSnapshot) (wallMs nowMs : ℤ)
  | deleteEvidence (sessionId : SessionId) (nowMs : ℤ)
  | readSession (sessionId : SessionId)
  | readResult (sessionId : SessionId)

inductive Reply
  | created (result : CreatedSession)
  | session (result : AnalysisSession)
  | completed (result : CompletedSession)
  | deleted (result : DeletionReceipt)
  | document (result : EvidenceDocument)

structure Call where
  caller : AuthenticatedCaller
  useCase : UseCase

namespace UseCase

variable (caller : AuthenticatedCaller)

/-- The use case as a command or as a query. -/
def program : UseCase → Command Reply ⊕ Query Reply
  | createSession mint command generated epochMs =>
      .inl (Reply.created <$> CreateSession.execute mint caller command generated epochMs)
  | beginCapture sessionId wallMs =>
      .inl (Reply.session <$> CaptureControl.begin caller sessionId wallMs)
  | pauseCapture sessionId wallMs =>
      .inl (Reply.session <$> CaptureControl.pause caller sessionId wallMs)
  | resumeCapture sessionId wallMs =>
      .inl (Reply.session <$> CaptureControl.resume caller sessionId wallMs)
  | completeSession sessionId state configuration wallMs nowMs =>
      .inl (Reply.completed <$>
        CompleteSession.execute caller sessionId state configuration wallMs nowMs)
  | deleteEvidence sessionId nowMs =>
      .inl (Reply.deleted <$> DeleteEvidence.execute caller sessionId nowMs)
  | readSession sessionId => .inr (Reply.session <$> ReadSession.execute caller sessionId)
  | readResult sessionId => .inr (Reply.document <$> ReadResult.execute caller sessionId)

/-- The identifier a creation would give its session. -/
def generated? : UseCase → Option SessionId
  | createSession _ _ generated _ => some generated
  | _ => none

def names? : UseCase → Option SessionId
  | createSession _ _ _ _ => none
  | beginCapture sessionId _ | pauseCapture sessionId _ | resumeCapture sessionId _
  | completeSession sessionId _ _ _ _ | deleteEvidence sessionId _ | readSession sessionId
  | readResult sessionId => some sessionId

end UseCase

def Call.tenant (c : Call) : TenantId := c.caller.tenant

/-- What the call returns or raises, and the contents of the adapters after it. -/
def Call.serve (c : Call) (w : World) : Except Failure Reply × World :=
  match c.useCase.program c.caller with
  | .inl command => command.run inMemory Program.noFault 0 w
  | .inr query => query.run inMemoryQueries Program.noFault 0 w

/-- Serve the calls in turn; every answer is kept with the tenant it went to. -/
def serveAll : List Call → World → List (TenantId × Except Failure Reply) × World
  | [], w => ([], w)
  | c :: rest, w =>
      let served := c.serve w
      let later := serveAll rest served.2
      ((c.tenant, served.1) :: later.1, later.2)

def answersTo (tenant : TenantId) (answers : List (TenantId × Except Failure Reply)) :
    List (Except Failure Reply) := (answers.filter fun a => a.1 = tenant).map Prod.snd

def callsOf (tenant : TenantId) (calls : List Call) : List Call :=
  calls.filter fun c => c.tenant = tenant

section Confined

open Program Command

variable {τ : Tenancy} {caller : AuthenticatedCaller} {α : Type}

/-- The command keeps to what its caller's tenant may do. -/
abbrev Within (τ : Tenancy) (caller : AuthenticatedCaller) (command : Command α) : Prop :=
  Confined (τ.Allows caller.tenant) (τ.Trusts caller.tenant) command

theorem within_map {command : Command α} (h : Within τ caller command) (f : α → Reply) :
    Within τ caller (f <$> command) := confined_bind h fun _ => confined_pure _

theorem within_requireScope_bind {scope : Scope} {purpose : String} {f : Unit → Command α}
    (h : Within τ caller (f ())) : Within τ caller (requireScope caller scope purpose >>= f) := by
  unfold requireScope
  split_ifs
  · exact h
  · exact confined_raise _

theorem within_resolve_bind {sessionId : SessionId} {f : AnalysisSession → Command α}
    (h : ∀ s : AnalysisSession, s.tenantId = caller.tenant → s.id = sessionId →
      τ.owner s.applicationId.value = caller.tenant → τ.holder s.id.value = caller.tenant →
        Within τ caller (f s)) :
    Within τ caller (resolve caller sessionId >>= f) := by
  unfold resolve
  rw [bind_assoc]
  refine confined_port_bind rfl fun found hfound => ?_
  cases found with
  | none => exact confined_raise _
  | some s =>
      obtain ⟨htenant, hid, howner, hholder⟩ := hfound s rfl
      exact h s htenant hid howner hholder

theorem allows_save {s t : AnalysisSession} (h : s.SameIdentity t)
    (htenant : s.tenantId = caller.tenant) (howner : τ.owner s.applicationId.value = caller.tenant)
    (hholder : τ.holder s.id.value = caller.tenant) :
    τ.Allows caller.tenant (.sessionsSave t) := by
  obtain ⟨hid, happlication, htenant', -⟩ := h
  exact ⟨htenant'.trans htenant, by rw [happlication, howner], by rw [hid, hholder]⟩

theorem within_captureControl {transition : AnalysisSession → Except Failure AnalysisSession}
    (ht : ∀ s t, transition s = .ok t → s.SameIdentity t) (sessionId : SessionId) :
    Within τ caller (do
      requireScope caller .sessionsWrite "capture control"
      let session ← resolve caller sessionId
      let updated ← Program.ofExcept (transition session)
      sessionsSave updated
      return updated) := by
  refine within_requireScope_bind (within_resolve_bind fun s htenant hid howner hholder => ?_)
  apply confined_ofExcept_bind
  intro t hs
  exact confined_port_bind (allows_save (ht s t hs) htenant howner hholder) fun _ _ =>
    confined_pure _

theorem within_deleteEvidence (sessionId : SessionId) (nowMs : ℤ) :
    Within τ caller (DeleteEvidence.execute caller sessionId nowMs) := by
  refine within_requireScope_bind (within_resolve_bind fun s htenant hid howner hholder => ?_)
  split_ifs
  · exact confined_pure _
  · have hheld : τ.holder sessionId.value = caller.tenant := by rw [← hid, hholder]
    refine confined_port_bind hheld fun _ _ => ?_
    refine confined_port_bind rfl fun _ _ => ?_
    refine confined_port_bind rfl fun _ _ => ?_
    refine confined_port_bind hheld fun _ _ => ?_
    apply confined_ofExcept_bind
    intro t ht
    have hsame := (AnalysisSession.markEvidenceDeleted_eq_ok ht).2.2
    refine confined_port_bind (allows_save hsame htenant howner hholder) fun _ _ => ?_
    exact confined_port_bind ⟨rfl, hheld⟩ fun _ _ => confined_pure _

theorem within_completeSession (sessionId : SessionId) (state : StreamingState)
    (configuration : ConfigurationSnapshot) (wallMs nowMs : ℤ) :
    Within τ caller
      (CompleteSession.execute caller sessionId state configuration wallMs nowMs) := by
  refine within_requireScope_bind (within_resolve_bind fun s htenant hid howner hholder => ?_)
  apply confined_ofExcept_bind
  intro completing hcompleting
  have hsame := (AnalysisSession.requestCompletion_eq_ok hcompleting).2.2
  refine confined_port_bind (allows_save hsame htenant howner hholder) fun _ _ => ?_
  apply confined_ofExcept_bind
  intro evidence hevidence
  have hassembled := assembleEvidence_eq_ok hevidence
  refine confined_port_bind hassembled.stored.2.1 fun _ _ => confined_port_bind rfl fun _ _ => ?_
  apply confined_ofExcept_bind
  intro completed hcompleted
  have hsame' := hsame.trans (AnalysisSession.markCompleted_eq_ok hcompleted).2.2
  refine confined_port_bind (allows_save hsame' htenant howner hholder) fun _ _ => ?_
  have hheld : τ.holder sessionId.value = caller.tenant := by rw [← hid, hholder]
  exact confined_port_bind ⟨rfl, hheld⟩ fun _ _ => confined_pure _

section Create

variable (mint : StreamGrant → String) {command : CreateSessionCommand}
  (hcaller : τ.owner caller.application.value = caller.tenant)

include hcaller

theorem within_replay (epochMs : ℤ) :
    Within τ caller (CreateSession.replay mint caller command epochMs) := by
  unfold CreateSession.replay
  cases command.idempotencyKey with
  | none => exact confined_pure _
  | some key => exact confined_port_bind hcaller fun _ _ => confined_pure _

theorem within_claim (sessionId : SessionId) (epochMs : ℤ) :
    Within τ caller (CreateSession.claim mint caller command sessionId epochMs) := by
  unfold CreateSession.claim
  cases command.idempotencyKey with
  | none => exact confined_pure _
  | some key =>
      refine confined_port_bind hcaller fun claimed _ => ?_
      cases claimed
      · exact within_replay mint hcaller epochMs
      · exact confined_pure _

theorem within_createSession {generated : SessionId}
    (hgenerated : τ.holder generated.value = caller.tenant) (epochMs : ℕ → ℤ) :
    Within τ caller (CreateSession.execute mint caller command generated epochMs) := by
  refine within_requireScope_bind (confined_bind (within_replay mint hcaller _) fun existing => ?_)
  cases existing with
  | some existing => exact confined_pure _
  | none =>
      refine confined_port_bind hcaller fun decision _ => ?_
      by_cases hallowed : decision.allowed = true
      · rw [if_pos hallowed]
        apply confined_ofExcept_bind
        intro capabilities _
        refine confined_port_bind rfl fun snapshot hsnapshot => ?_
        apply confined_ofExcept_bind
        intro session hsession
        obtain ⟨hid, happlication, htenant⟩ := CreateSession.newSession_eq_ok hsession
        have hheld : τ.holder session.id.value = caller.tenant := by rw [hid, hgenerated]
        apply confined_bind (within_claim mint hcaller _ _)
        intro replayed
        cases replayed with
        | some replayed => exact confined_pure _
        | none =>
            refine confined_port_bind ⟨htenant, by rw [happlication, hcaller], hheld⟩ fun _ _ => ?_
            refine confined_port_bind ⟨hsnapshot, hheld⟩ fun _ _ => ?_
            refine confined_port_bind ⟨rfl, hheld⟩ fun _ _ => ?_
            exact confined_port_bind hcaller fun _ _ => confined_pure _
      · rw [if_neg hallowed]
        exact confined_raise _

end Create

/-- A query reads what is stored under its caller's tenant. -/
abbrev Reads (caller : AuthenticatedCaller) (query : Query α) : Prop :=
  Confined (fun o => match o with
    | .sessionsGet t _ | .evidenceLoadDocument t _ => t = caller.tenant) (fun _ _ => True) query

theorem reads_map {query : Query α} (h : Reads caller query) (f : α → Reply) :
    Reads caller (f <$> query) := confined_bind h fun _ => confined_pure _

theorem reads_resolve (sessionId : SessionId) : Reads caller (Query.resolve caller sessionId) := by
  refine confined_port_bind rfl fun found _ => ?_
  cases found with
  | none => exact confined_raise _
  | some s => exact confined_pure _

theorem reads_readSession (sessionId : SessionId) :
    Reads caller (ReadSession.execute caller sessionId) := by
  unfold ReadSession.execute
  split_ifs
  · exact reads_resolve sessionId
  · exact confined_raise _

theorem reads_readResult (sessionId : SessionId) :
    Reads caller (ReadResult.execute caller sessionId) := by
  unfold ReadResult.execute
  split_ifs
  · apply confined_bind (reads_resolve sessionId)
    intro session
    unfold ReadResult.document
    split_ifs
    · exact confined_raise _
    · exact confined_raise _
    · refine confined_port_bind rfl fun found _ => ?_
      cases found with
      | none => exact confined_raise _
      | some document => exact confined_pure _
  · exact confined_raise _

end Confined

section Serve

variable {τ : Tenancy} {tenant : TenantId} {caller : AuthenticatedCaller} {w : World} {c : Call}

theorem run_part {command : Command Reply} (hcommand : Within τ caller command) (hw : τ.Keeps w) :
    command.run inMemory Program.noFault 0 (τ.part caller.tenant w) =
      ((command.run inMemory Program.noFault 0 w).1,
        τ.part caller.tenant (command.run inMemory Program.noFault 0 w).2) := by
  obtain ⟨hanswer, -, hpart⟩ := hcommand.run_related inMemory
    (fun w w' => τ.Keeps w ∧ w' = τ.part caller.tenant w) (fun o w w' ho h => by
      obtain ⟨hkeeps, rfl⟩ := h
      rw [inMemory_part hkeeps ho]
      exact ⟨rfl, ⟨keeps_inMemory hkeeps ho, rfl⟩, fun a ha => trusts_inMemory hkeeps ho ha⟩)
    0 ⟨hw, rfl⟩
  exact Prod.ext hanswer.symm hpart

theorem keeps_run {command : Command Reply} (hcommand : Within τ caller command)
    (hw : τ.Keeps w) : τ.Keeps (command.run inMemory Program.noFault 0 w).2 :=
  hcommand.run_keeps inMemory τ.Keeps
    (fun _ _ ho h => ⟨keeps_inMemory h ho, fun _ ha => trusts_inMemory h ho ha⟩) 0 hw

theorem part_run_of_ne {command : Command Reply} (hcommand : Within τ caller command)
    (hw : τ.Keeps w) (hne : caller.tenant ≠ tenant) :
    τ.part tenant (command.run inMemory Program.noFault 0 w).2 = τ.part tenant w := by
  refine (hcommand.run_keeps inMemory
    (fun w' => τ.Keeps w' ∧ τ.part tenant w' = τ.part tenant w) (fun o w' ho h => ?_) 0
    ⟨hw, rfl⟩).2
  refine ⟨⟨keeps_inMemory h.1 ho, ?_⟩, fun a ha => trusts_inMemory h.1 ho ha⟩
  rw [part_inMemory_of_ne h.1 ho hne, h.2]

theorem queryRun_part {query : Query Reply} (hquery : Reads caller query) :
    (query.run inMemoryQueries Program.noFault 0 (τ.part caller.tenant w)).1 =
      (query.run inMemoryQueries Program.noFault 0 w).1 := by
  refine (hquery.run_related inMemoryQueries (fun w w' => w' = τ.part caller.tenant w)
    (fun o w w' ho h => ?_) 0 rfl).1.symm
  subst h
  cases o with
  | sessionsGet t sessionId | evidenceLoadDocument t sessionId =>
      cases ho
      exact ⟨congrArg Except.ok (get?_ofTenant _ _).symm, rfl, fun _ _ => trivial⟩

/-- The caller's application is its tenant's, and so is the identifier a creation generates. -/
structure Admits (τ : Tenancy) (c : Call) : Prop where
  caller : τ.owner c.caller.application.value = c.tenant
  generated : ∀ sessionId, c.useCase.generated? = some sessionId →
    τ.holder sessionId.value = c.tenant

theorem Admits.within (hc : τ.Admits c) {command : Command Reply}
    (h : c.useCase.program c.caller = .inl command) : Within τ c.caller command := by
  obtain ⟨caller, useCase⟩ := c
  cases useCase with
  | createSession mint create generated epochMs =>
      cases h
      exact within_map (within_createSession mint hc.caller (hc.generated _ rfl) epochMs) _
  | beginCapture sessionId wallMs =>
      cases h
      exact within_map (within_captureControl
        (fun s t ht => (AnalysisSession.beginCapture_eq_ok ht).2.2) sessionId) _
  | pauseCapture sessionId wallMs =>
      cases h
      exact within_map (within_captureControl
        (fun s t ht => (AnalysisSession.pauseCapture_eq_ok ht).2.2) sessionId) _
  | resumeCapture sessionId wallMs =>
      cases h
      exact within_map (within_captureControl
        (fun s t ht => (AnalysisSession.resumeCapture_eq_ok ht).2.2) sessionId) _
  | completeSession sessionId state configuration wallMs nowMs =>
      cases h
      exact within_map (within_completeSession sessionId state configuration wallMs nowMs) _
  | deleteEvidence sessionId nowMs =>
      cases h
      exact within_map (within_deleteEvidence sessionId nowMs) _
  | readSession sessionId => cases h
  | readResult sessionId => cases h

theorem reads_program {query : Query Reply} (h : c.useCase.program c.caller = .inr query) :
    Reads c.caller query := by
  obtain ⟨caller, useCase⟩ := c
  cases useCase with
  | readSession sessionId =>
      cases h
      exact reads_map (reads_readSession sessionId) _
  | readResult sessionId =>
      cases h
      exact reads_map (reads_readResult sessionId) _
  | _ => cases h

theorem serve_part (hc : τ.Admits c) (hw : τ.Keeps w) :
    c.serve (τ.part c.tenant w) = ((c.serve w).1, τ.part c.tenant (c.serve w).2) := by
  unfold Call.serve
  cases h : c.useCase.program c.caller with
  | inl command => exact run_part (hc.within h) hw
  | inr query =>
      simp only [Query.run_snd]
      exact Prod.ext (queryRun_part (reads_program h)) (Query.run_snd _ _ _ _)

theorem keeps_serve (hc : τ.Admits c) (hw : τ.Keeps w) : τ.Keeps (c.serve w).2 := by
  unfold Call.serve
  cases h : c.useCase.program c.caller with
  | inl command => exact keeps_run (hc.within h) hw
  | inr query => simpa only [Query.run_snd] using hw

theorem part_serve_of_ne (hc : τ.Admits c) (hw : τ.Keeps w) (hne : c.tenant ≠ tenant) :
    τ.part tenant (c.serve w).2 = τ.part tenant w := by
  unfold Call.serve
  cases h : c.useCase.program c.caller with
  | inl command => exact part_run_of_ne (hc.within h) hw hne
  | inr query => simp only [Query.run_snd]

end Serve

section Sequence

variable {τ : Tenancy} {tenant : TenantId} {w : World} {calls : List Call}

theorem keeps_serveAll (hcalls : ∀ c ∈ calls, τ.Admits c) (hw : τ.Keeps w) :
    τ.Keeps (serveAll calls w).2 := by
  induction calls generalizing w with
  | nil => exact hw
  | cons c rest ih =>
      have hc := hcalls c List.mem_cons_self
      exact ih (fun c' hc' => hcalls c' (List.mem_cons_of_mem _ hc')) (keeps_serve hc hw)

/-- The tenant's own calls, served from its part alone, are answered as in the whole sequence
and leave the part as the whole sequence does. -/
theorem serveAll_part (tenant : TenantId) (hcalls : ∀ c ∈ calls, τ.Admits c) (hw : τ.Keeps w) :
    answersTo tenant (serveAll calls w).1 =
        answersTo tenant (serveAll (callsOf tenant calls) (τ.part tenant w)).1 ∧
      τ.part tenant (serveAll calls w).2 =
        (serveAll (callsOf tenant calls) (τ.part tenant w)).2 := by
  induction calls generalizing w with
  | nil => exact ⟨rfl, rfl⟩
  | cons c rest ih =>
      have hc := hcalls c List.mem_cons_self
      obtain ⟨hanswers, hpart⟩ :=
        ih (fun c' hc' => hcalls c' (List.mem_cons_of_mem _ hc')) (keeps_serve hc hw)
      by_cases htenant : c.tenant = tenant
      · subst htenant
        have hown : callsOf c.tenant (c :: rest) = c :: callsOf c.tenant rest :=
          List.filter_cons_of_pos (by simp)
        have hserved := serve_part hc hw
        simp only [hown, serveAll, hserved]
        refine ⟨?_, hpart⟩
        simp only [answersTo, List.filter_cons, decide_true, if_true, List.map_cons] at hanswers ⊢
        rw [hanswers]
      · have hothers : callsOf tenant (c :: rest) = callsOf tenant rest :=
          List.filter_cons_of_neg (by simp [htenant])
        rw [part_serve_of_ne hc hw htenant] at hanswers hpart
        rw [hothers]
        refine ⟨?_, hpart⟩
        rw [← hanswers]
        simp [serveAll, answersTo, htenant]

theorem callsOf_callsOf (tenant : TenantId) (calls : List Call) :
    callsOf tenant (callsOf tenant calls) = callsOf tenant calls := by
  simp [callsOf, List.filter_filter]

theorem serveAll_callsOf (tenant : TenantId) (hcalls : ∀ c ∈ calls, τ.Admits c) (hw : τ.Keeps w) :
    answersTo tenant (serveAll calls w).1 =
        answersTo tenant (serveAll (callsOf tenant calls) w).1 ∧
      τ.part tenant (serveAll calls w).2 =
        τ.part tenant (serveAll (callsOf tenant calls) w).2 := by
  have hall := serveAll_part tenant hcalls hw
  have hown := serveAll_part tenant
    (fun c hc => hcalls c (List.mem_filter.1 hc).1 : ∀ c ∈ callsOf tenant calls, τ.Admits c) hw
  rw [callsOf_callsOf] at hown
  exact ⟨hall.1.trans hown.1.symm, hall.2.trans hown.2.symm⟩

end Sequence

section Foreign

open Program Command

variable {τ : Tenancy} {caller : AuthenticatedCaller} {w : World} {c : Call} {α : Type}

/-- How a call that names a session its tenant does not have is refused. -/
def refusal (caller : AuthenticatedCaller) (scope : Scope) (purpose : String)
    (sessionId : SessionId) : Failure :=
  if caller.allows scope then .sessionNotFound s!"session {sessionId.value} not found"
  else .notAuthorized s!"{purpose} requires {scope.value}"

theorem run_resolve_of_unowned {sessionId : SessionId}
    (hw : w.owns caller.tenant sessionId.value = false) (f : AnalysisSession → Command α) :
    (resolve caller sessionId >>= f).run inMemory noFault 0 w =
      (.error (.sessionNotFound s!"session {sessionId.value} not found"), w) := by
  have hget : inMemory (.sessionsGet caller.tenant sessionId) w = (.ok none, w) := by
    rw [← World.owns_eq_false_iff.1 hw]
    rfl
  unfold resolve
  rw [bind_assoc, run_port_bind_of_served inMemory noFault rfl hget]
  rfl

theorem run_of_unowned {sessionId : SessionId}
    (hw : w.owns caller.tenant sessionId.value = false) (scope : Scope) (purpose : String)
    (f : AnalysisSession → Command α) (reply : α → Reply) :
    (reply <$> (requireScope caller scope purpose >>= fun _ =>
      resolve caller sessionId >>= f)).run inMemory noFault 0 w =
        (.error (refusal caller scope purpose sessionId), w) := by
  unfold requireScope refusal
  split_ifs
  · change (resolve caller sessionId >>= f >>= fun a => pure (reply a)).run inMemory noFault 0 w = _
    rw [bind_assoc]
    exact run_resolve_of_unowned hw _
  · rfl

theorem queryRun_of_unowned {sessionId : SessionId}
    (hw : w.owns caller.tenant sessionId.value = false) (f : AnalysisSession → Query α) :
    (Query.resolve caller sessionId >>= f).run inMemoryQueries noFault 0 w =
      (.error (.sessionNotFound s!"session {sessionId.value} not found"), w) := by
  have hget : inMemoryQueries (.sessionsGet caller.tenant sessionId) w = (.ok none, w) := by
    rw [← World.owns_eq_false_iff.1 hw]
    rfl
  unfold Query.resolve
  rw [bind_assoc, run_port_bind_of_served inMemoryQueries noFault rfl hget]
  rfl

/-- A call that names a session its tenant does not have is refused in one way, and changes
nothing. -/
theorem serve_of_unowned {sessionId : SessionId} (hnames : c.useCase.names? = some sessionId) :
    ∃ e, ∀ w : World, w.owns c.tenant sessionId.value = false → c.serve w = (.error e, w) := by
  obtain ⟨caller, useCase⟩ := c
  cases useCase with
  | createSession mint command generated epochMs => cases hnames
  | beginCapture named wallMs =>
      cases hnames
      exact ⟨_, fun w hw => run_of_unowned hw _ _ _ _⟩
  | pauseCapture named wallMs =>
      cases hnames
      exact ⟨_, fun w hw => run_of_unowned hw _ _ _ _⟩
  | resumeCapture named wallMs =>
      cases hnames
      exact ⟨_, fun w hw => run_of_unowned hw _ _ _ _⟩
  | completeSession named state configuration wallMs nowMs =>
      cases hnames
      exact ⟨_, fun w hw => run_of_unowned hw _ _ _ _⟩
  | deleteEvidence named nowMs =>
      cases hnames
      exact ⟨_, fun w hw => run_of_unowned hw _ _ _ _⟩
  | readSession named =>
      cases hnames
      refine ⟨refusal caller .sessionsRead "reading a session" sessionId, fun w hw => ?_⟩
      unfold Call.serve UseCase.program ReadSession.execute refusal
      dsimp only
      split_ifs
      · exact queryRun_of_unowned hw _
      · rfl
  | readResult named =>
      cases hnames
      refine ⟨refusal caller .resultsRead "reading a result" sessionId, fun w hw => ?_⟩
      unfold Call.serve UseCase.program ReadResult.execute refusal
      dsimp only
      split_ifs
      · change (Query.resolve caller sessionId >>= _ >>= _).run inMemoryQueries noFault 0 w = _
        rw [bind_assoc]
        exact queryRun_of_unowned hw _
      · rfl

theorem serve_withRuns (hc : τ.Admits c) (hw : τ.Keeps w) (runs : Dict String ProcessingRun) :
    c.serve { w with runs := runs } = ((c.serve w).1, { (c.serve w).2 with runs := runs }) := by
  unfold Call.serve
  cases h : c.useCase.program c.caller with
  | inl command =>
      obtain ⟨hanswer, -, hrest⟩ := (hc.within h).run_related inMemory
        (fun w w' => τ.Keeps w ∧ w' = { w with runs := runs }) (fun o w w' ho h => by
          obtain ⟨hkeeps, rfl⟩ := h
          rw [inMemory_withRuns ho w runs]
          exact ⟨rfl, ⟨keeps_inMemory hkeeps ho, rfl⟩, fun a ha => trusts_inMemory hkeeps ho ha⟩)
        0 ⟨hw, rfl⟩
      exact Prod.ext hanswer.symm hrest
  | inr query =>
      obtain ⟨hanswer, -⟩ := (reads_program h).run_related inMemoryQueries
        (fun w w' => w' = { w with runs := runs }) (fun o w w' ho h => by
          subst h
          cases o <;> exact ⟨rfl, rfl, fun _ _ => trivial⟩) 0 (w := w) rfl
      simp only [Query.run_snd]
      exact Prod.ext hanswer.symm (Query.run_snd _ _ _ _)

end Foreign

end Tenancy

open Tenancy (Call serveAll answersTo callsOf)

/-- Every application stored belongs to the tenant it is stored under, no two tenants have a
session under one identifier, and every current configuration is a published one. -/
structure World.Settled (owner : String → TenantId) (w : World) : Prop where
  applications : ∀ key s, w.sessions.entries.get? key = some s →
    owner s.applicationId.value = s.tenantId
  identifiers : ∀ tenant other sessionId, w.owns tenant sessionId = true →
    w.owns other sessionId = true → tenant = other
  current : ∀ tenant, w.published.contains (w.currentConfiguration tenant).id.value = true

/-- The identifiers the calls generate are new and not generated twice. -/
structure World.Fresh (calls : List Call) (w : World) : Prop where
  distinct : (calls.filterMap fun c => c.useCase.generated?).Nodup
  unused : ∀ c ∈ calls, ∀ sessionId, c.useCase.generated? = some sessionId →
    ∀ tenant, w.owns tenant sessionId.value = false

/-- No tenant notices the calls of the others, nor can it tell what is another's from what does
not exist. -/
structure TenantsIsolated (owner : String → TenantId) (calls : List Call) (w : World) : Prop where
  answers : ∀ tenant, answersTo tenant (serveAll calls w).1 =
    answersTo tenant (serveAll (callsOf tenant calls) w).1
  stored : ∀ tenant, (serveAll calls w).2.partOf owner tenant =
    (serveAll (callsOf tenant calls) w).2.partOf owner tenant
  others : ∀ before c after, calls = before ++ c :: after → ∀ other, other ≠ c.tenant →
    (c.serve (serveAll before w).2).2.partOf owner other = (serveAll before w).2.partOf owner other
  sessions : ∀ before c after, calls = before ++ c :: after → ∀ sessionId other,
    c.useCase.names? = some sessionId → other ≠ c.tenant →
      (serveAll before w).2.owns other sessionId.value = true →
        (c.serve (serveAll before w).2).2 = (serveAll before w).2 ∧
          ∀ w' : World, (∀ tenant, w'.owns tenant sessionId.value = false) →
            (c.serve (serveAll before w).2).1 = (c.serve w').1
  runs : ∀ before c after, calls = before ++ c :: after → ∀ runs,
    c.serve { (serveAll before w).2 with runs := runs } =
      ((c.serve (serveAll before w).2).1, { (c.serve (serveAll before w).2).2 with runs := runs })

section Isolation

variable {owner : String → TenantId} {calls : List Call} {w : World}

theorem settled_fresh (configuration : ConfigurationSnapshot) :
    (World.fresh configuration).Settled owner where
  applications key s h := by cases h
  identifiers tenant other sessionId h := by cases h
  current tenant := by
    change (Dict.empty.set configuration.id.value configuration).contains _ = true
    rw [Dict.contains, World.currentConfiguration]
    exact congrArg Option.isSome (Dict.get?_set_self _ _ _)

theorem Tenancy.Keeps.settled {τ : Tenancy} (h : τ.Keeps w) : w.Settled τ.owner where
  applications key s hs := (h.sessions key s hs).1
  identifiers tenant other sessionId htenant hother := by
    rw [← h.holder_of_owns htenant, h.holder_of_owns hother]
  current tenant := by
    rw [h.published]
    exact h.current tenant

theorem eq_of_generated (h : (calls.filterMap fun c => c.useCase.generated?).Nodup)
    {sessionId : SessionId} {c c' : Call} (hc : c ∈ calls) (hc' : c' ∈ calls)
    (hgen : c.useCase.generated? = some sessionId)
    (hgen' : c'.useCase.generated? = some sessionId) :
    c = c' := by
  induction calls with
  | nil => cases hc
  | cons d rest ih =>
      have hrest := h.sublist ((List.sublist_cons_self d rest).filterMap _)
      have hfirst : ∀ c ∈ rest, c.useCase.generated? = some sessionId →
          d.useCase.generated? ≠ some sessionId := by
        intro c hc hgen hd
        simp only [List.filterMap_cons, hd] at h
        exact (List.nodup_cons.1 h).1 (List.mem_filterMap.2 ⟨c, hc, hgen⟩)
      rcases List.mem_cons.1 hc with rfl | hmem <;> rcases List.mem_cons.1 hc' with heq | hmem'
      · exact heq.symm
      · exact absurd hgen (hfirst c' hmem' hgen')
      · rw [heq] at hgen'
        exact absurd hgen' (hfirst c hmem hgen)
      · exact ih hrest hmem hmem'

theorem exists_tenancy (hw : w.Settled owner)
    (hcallers : ∀ c ∈ calls, owner c.caller.application.value = c.tenant) (hfresh : w.Fresh calls) :
    ∃ τ : Tenancy, τ.owner = owner ∧ τ.Keeps w ∧ ∀ c ∈ calls, τ.Admits c := by
  have hholder : ∀ key, ∃ tenant, (∀ other, w.owns other key = true → tenant = other) ∧
      ∀ c ∈ calls, ∀ sessionId, c.useCase.generated? = some sessionId → sessionId.value = key →
        tenant = c.tenant := by
    intro key
    by_cases hgenerated : ∃ c ∈ calls, ∃ sessionId,
        c.useCase.generated? = some sessionId ∧ sessionId.value = key
    · obtain ⟨c, hc, sessionId, hgen, rfl⟩ := hgenerated
      refine ⟨c.tenant, fun other howns => ?_, fun c' hc' sessionId' hgen' heq => ?_⟩
      · rw [hfresh.unused c hc sessionId hgen other] at howns
        cases howns
      · obtain rfl := SessionId.ext_value heq
        rw [eq_of_generated hfresh.distinct hc hc' hgen hgen']
    · have hnot : ∀ c ∈ calls, ∀ sessionId, c.useCase.generated? = some sessionId →
          sessionId.value ≠ key := fun c hc sessionId hgen heq =>
        hgenerated ⟨c, hc, sessionId, hgen, heq⟩
      by_cases hstored : ∃ tenant, w.owns tenant key = true
      · obtain ⟨tenant, htenant⟩ := hstored
        exact ⟨tenant, fun other howns => hw.identifiers _ _ _ htenant howns,
          fun c hc sessionId hgen heq => absurd heq (hnot c hc sessionId hgen)⟩
      · exact ⟨studyTenant, fun other howns => absurd ⟨other, howns⟩ hstored,
          fun c hc sessionId hgen heq => absurd heq (hnot c hc sessionId hgen)⟩
  choose holder hstored hgenerated using hholder
  refine ⟨⟨owner, holder, w.published⟩, rfl, ⟨fun key s hs => ⟨hw.applications key s hs, ?_⟩, rfl,
    hw.current⟩, fun c hc => ⟨hcallers c hc, fun sessionId hgen => ?_⟩⟩
  · apply hstored
    rw [World.owns, Dict.contains, ← w.sessions.keyed key s hs, hs]
    rfl
  · exact hgenerated _ c hc sessionId hgen rfl

/-- Whoever calls, each tenant sees only what it did itself. -/
theorem tenants_isolated (hw : w.Settled owner)
    (hcallers : ∀ c ∈ calls, owner c.caller.application.value = c.tenant) (hfresh : w.Fresh calls) :
    TenantsIsolated owner calls w := by
  obtain ⟨τ, rfl, hkeeps, hadmits⟩ := exists_tenancy hw hcallers hfresh
  have hreached : ∀ before c after, calls = before ++ c :: after →
      τ.Keeps (serveAll before w).2 ∧ τ.Admits c := by
    rintro before c after rfl
    refine ⟨Tenancy.keeps_serveAll (fun c' hc' => ?_) hkeeps, hadmits c (by simp)⟩
    exact hadmits c' (List.mem_append_left _ hc')
  refine ⟨fun tenant => (Tenancy.serveAll_callsOf tenant hadmits hkeeps).1,
    fun tenant => ?_, ?_, ?_, ?_⟩
  · have hall := Tenancy.keeps_serveAll hadmits hkeeps
    have hown := Tenancy.keeps_serveAll
      (fun c hc => hadmits c (List.mem_filter.1 hc).1 : ∀ c ∈ callsOf tenant calls, τ.Admits c)
      hkeeps
    rw [← Tenancy.partOf_part hall, ← Tenancy.partOf_part hown,
      (Tenancy.serveAll_callsOf tenant hadmits hkeeps).2]
  · intro before c after hcalls other hother
    obtain ⟨hbefore, hc⟩ := hreached before c after hcalls
    rw [← Tenancy.partOf_part (Tenancy.keeps_serve hc hbefore), ← Tenancy.partOf_part hbefore,
      Tenancy.part_serve_of_ne hc hbefore hother.symm]
  · intro before c after hcalls sessionId other hnames hother howns
    obtain ⟨hbefore, hc⟩ := hreached before c after hcalls
    obtain ⟨e, he⟩ := Tenancy.serve_of_unowned hnames
    have hunowned : (serveAll before w).2.owns c.tenant sessionId.value = false := by
      refine Bool.eq_false_iff.2 fun howns' => hother ?_
      exact hbefore.settled.identifiers _ _ _ howns howns'
    rw [he _ hunowned]
    exact ⟨rfl, fun w' hw' => by rw [he w' (hw' c.tenant)]⟩
  · intro before c after hcalls runs
    obtain ⟨hbefore, hc⟩ := hreached before c after hcalls
    exact Tenancy.serve_withRuns hc hbefore runs

def visitingTenant : TenantId := ⟨⟨"visiting-tenant", by decide⟩⟩

/-- A caller of another tenant who may do everything. -/
def visitor : AuthenticatedCaller :=
  { operator with application := ⟨⟨"visiting-app", by decide⟩⟩, tenant := visitingTenant }

def visitingOwner (application : String) : TenantId :=
  if application = studyApplication.value then studyTenant else visitingTenant

/-- A session is created, and a caller of another tenant reads it and deletes its evidence. -/
def prying : List Call :=
  [⟨operator, .createSession (fun _ => "token") (studyCommand none) studySessionId fun _ => 0⟩,
    ⟨visitor, .readSession studySessionId⟩, ⟨visitor, .deleteEvidence studySessionId 1⟩,
    ⟨operator, .readSession studySessionId⟩]

theorem tenants_isolated_prying :
    TenantsIsolated visitingOwner prying (World.fresh defaultConfiguration) :=
  tenants_isolated (settled_fresh defaultConfiguration) (by decide)
    ⟨by decide, fun _ _ _ _ _ => rfl⟩

end Isolation

end OratoriaEngine
