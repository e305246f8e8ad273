import OratoriaEngine.DeletionAtomicity
import OratoriaEngine.Lib.Interleaving

/-!
# Deletion among concurrent commands

Every command saves a session it read some calls earlier, whatever has become of the
stored one. A deletion stays final as long as no stale copy is saved over it and no
evidence is stored beside it.
-/

namespace OratoriaEngine.DeletionFinality

open Interleaving

/-- A command on the session. -/
inductive Call
  | begin (wallMs : ℤ)
  | pause (wallMs : ℤ)
  | resume (wallMs : ℤ)
  | complete (state : StreamingState) (configuration : ConfigurationSnapshot) (wallMs nowMs : ℤ)
  | delete (nowMs : ℤ)

/-- The command, made by a caller; only a deletion has a receipt. -/
def Call.program (caller : AuthenticatedCaller) (sessionId : SessionId) :
    Call → Command (Option DeletionReceipt)
  | begin wallMs => do
      let _ ← CaptureControl.begin caller sessionId wallMs
      return none
  | pause wallMs => do
      let _ ← CaptureControl.pause caller sessionId wallMs
      return none
  | resume wallMs => do
      let _ ← CaptureControl.resume caller sessionId wallMs
      return none
  | complete state configuration wallMs nowMs => do
      let _ ← CompleteSession.execute caller sessionId state configuration wallMs nowMs
      return none
  | delete nowMs => do
      let receipt ← DeleteEvidence.execute caller sessionId nowMs
      return some receipt

variable (tenant : TenantId) (sessionId : SessionId)

/-- The stored session is in its terminal state. -/
def Deleted (w : World) : Prop :=
  ∃ session, w.session? tenant sessionId = some session ∧ session.state = .evidenceDeleted

/-- A deleted session has no evidence. -/
def Clean (w : World) : Prop := Deleted tenant sessionId w → w.NoEvidence tenant sessionId

/-- Deletion is kept, and so is the absence of evidence after it. -/
structure KeepsDeletion (w w' : World) : Prop where
  deleted : Deleted tenant sessionId w → Deleted tenant sessionId w'
  clean : Clean tenant sessionId w → Clean tenant sessionId w'

/-- A deletion is saved where there is no evidence; anything else is saved or stored where the
session is not deleted. -/
def Undisturbed : Assumption Port Port.Answer Failure World := fun _ o w =>
  match o with
  | .sessionsSave session =>
      if session.state = .evidenceDeleted then w.NoEvidence tenant sessionId
      else ¬Deleted tenant sessionId w
  | .evidenceStore _ | .evidenceStoreDocument _ _ => ¬Deleted tenant sessionId w
  | _ => True

def ReceiptsDeleted (receipt : Option DeletionReceipt) (w : World) : Prop :=
  receipt ≠ none → Deleted tenant sessionId w

variable {tenant sessionId} {w w' : World} {session : AnalysisSession}

theorem KeepsDeletion.refl (w : World) : KeepsDeletion tenant sessionId w w :=
  ⟨fun h => h, fun h => h⟩

theorem KeepsDeletion.trans {a b c : World} (hab : KeepsDeletion tenant sessionId a b)
    (hbc : KeepsDeletion tenant sessionId b c) : KeepsDeletion tenant sessionId a c :=
  ⟨fun h => hbc.deleted (hab.deleted h), fun h => hbc.clean (hab.clean h)⟩

theorem deleted_congr (h : w'.sessions = w.sessions) :
    Deleted tenant sessionId w' ↔ Deleted tenant sessionId w := by
  rw [Deleted, Deleted, World.session?, World.session?, h]

theorem keepsDeletion_of_same (hsessions : w'.sessions = w.sessions)
    (hbundles : w'.bundles = w.bundles) (hdocuments : w'.documents = w.documents) :
    KeepsDeletion tenant sessionId w w' := by
  refine ⟨(deleted_congr hsessions).2, fun hclean hdeleted => ?_⟩
  have hnone := hclean ((deleted_congr hsessions).1 hdeleted)
  rwa [World.NoEvidence, World.document?, hbundles, hdocuments]

theorem keepsDeletion_of_not_deleted (h : ¬Deleted tenant sessionId w)
    (hsessions : w'.sessions = w.sessions) : KeepsDeletion tenant sessionId w w' :=
  ⟨fun hw => absurd hw h, fun _ hw' => absurd ((deleted_congr hsessions).1 hw') h⟩

theorem session?_putSession_self (htenant : session.tenantId = tenant)
    (hid : session.id = sessionId) (w : World) :
    (w.putSession session).session? tenant sessionId = some session := by
  rw [World.session?_putSession, if_pos ⟨htenant, hid⟩]

theorem keepsDeletion_save (htenant : session.tenantId = tenant) (hid : session.id = sessionId)
    (hstate : session.state ≠ .evidenceDeleted) (h : ¬Deleted tenant sessionId w) :
    KeepsDeletion tenant sessionId w (w.putSession session) := by
  refine ⟨fun hw => absurd hw h, fun _ hw' => ?_⟩
  obtain ⟨stored, hs, hdeleted⟩ := hw'
  rw [session?_putSession_self htenant hid, Option.some.injEq] at hs
  exact absurd (hs ▸ hdeleted) hstate

theorem keepsDeletion_saveDeleted (htenant : session.tenantId = tenant)
    (hid : session.id = sessionId) (hstate : session.state = .evidenceDeleted)
    (h : w.NoEvidence tenant sessionId) :
    KeepsDeletion tenant sessionId w (w.putSession session) :=
  ⟨fun _ => ⟨session, session?_putSession_self htenant hid w, hstate⟩, fun _ _ => h⟩

theorem noEvidence_deleteEvidenceForSession (w : World) (tenant : TenantId)
    (sessionId : SessionId) :
    (w.deleteEvidenceForSession tenant sessionId).2.NoEvidence tenant sessionId := by
  refine ⟨fun key bundle hget => ?_, ?_⟩
  · rw [World.deleteEvidenceForSession_snd] at hget
    have hfilter := (Dict.get?_filter w.bundles _ key).symm.trans hget
    simpa using (Option.filter_eq_some_iff.1 hfilter).2
  · rw [World.document?_deleteEvidenceForSession, if_pos ⟨rfl, rfl⟩]

theorem keepsDeletion_deleteEvidence (w : World) :
    KeepsDeletion tenant sessionId w (w.deleteEvidenceForSession tenant sessionId).2 := by
  refine ⟨(deleted_congr ?_).2, fun _ _ => noEvidence_deleteEvidenceForSession w tenant sessionId⟩
  rw [World.deleteEvidenceForSession_snd]

section Commands

variable {past : List (Event Port Port.Answer Failure)} {caller : AuthenticatedCaller} {α β : Type}
  {P : α → World → Prop}

theorem safe_requireScope_bind {f : Unit → Command α} (scope : Scope) (purpose : String)
    (h : Safe inMemory (KeepsDeletion tenant sessionId) (Undisturbed tenant sessionId)
      (Returning P) (f ()) past w) :
    Safe inMemory (KeepsDeletion tenant sessionId) (Undisturbed tenant sessionId) (Returning P)
      (Command.requireScope caller scope purpose >>= f) past w := by
  unfold Command.requireScope
  split_ifs
  · exact h
  · exact safe_raise _

theorem safe_resolve_bind (htenant : caller.tenant = tenant) {f : AnalysisSession → Command α}
    (h : ∀ session past' u, u.session? tenant sessionId = some session →
      Safe inMemory (KeepsDeletion tenant sessionId) (Undisturbed tenant sessionId) (Returning P)
        (f session) past' u) :
    Safe inMemory (KeepsDeletion tenant sessionId) (Undisturbed tenant sessionId) (Returning P)
      (Command.resolve caller sessionId >>= f) past w := by
  unfold Command.resolve
  rw [Program.bind_assoc, htenant]
  refine safe_port_bind fun u _ _ => ⟨.refl u, fun found hfound => ?_⟩
  cases hfound
  cases hsession : u.session? tenant sessionId with
  | none => exact safe_raise _
  | some session => exact h session _ u hsession

/-- Saving a session of this identity in another state than deleted. -/
theorem safe_save_bind (htenant : session.tenantId = tenant) (hid : session.id = sessionId)
    (hstate : session.state ≠ .evidenceDeleted) {f : Unit → Command α}
    (h : ∀ past' u, Safe inMemory (KeepsDeletion tenant sessionId)
      (Undisturbed tenant sessionId) (Returning P) (f ()) past' u) :
    Safe inMemory (KeepsDeletion tenant sessionId) (Undisturbed tenant sessionId) (Returning P)
      (Command.sessionsSave session >>= f) past w := by
  refine safe_port_bind fun u _ hok => ⟨keepsDeletion_save htenant hid hstate ?_, fun _ _ => h _ _⟩
  rwa [Undisturbed, if_neg hstate] at hok

theorem safe_captureControl (htenant : caller.tenant = tenant)
    {transition : AnalysisSession → Except Failure AnalysisSession}
    (htransition : ∀ s t, transition s = .ok t → t.state ≠ .evidenceDeleted ∧ s.SameIdentity t) :
    Safe inMemory (KeepsDeletion tenant sessionId) (Undisturbed tenant sessionId)
      (Returning fun _ _ => True) (do
        Command.requireScope caller .sessionsWrite "capture control"
        let session ← Command.resolve caller sessionId
        let updated ← Program.ofExcept (transition session)
        Command.sessionsSave updated
        return updated : Command AnalysisSession) past w := by
  refine safe_requireScope_bind _ _ (safe_resolve_bind htenant fun session past' u hs => ?_)
  apply safe_ofExcept_bind
  intro updated hupdated
  obtain ⟨hstate, hidentity⟩ := htransition _ _ hupdated
  obtain ⟨howner, hid⟩ := World.session?_eq_some hs
  exact safe_save_bind (hidentity.2.2.1.trans howner) (hidentity.1.trans hid) hstate
    fun past' u => safe_pure fun _ _ => trivial

theorem safe_store_bind {o : Port} {f : o.Answer → Command α}
    (hok : ∀ past u, Undisturbed tenant sessionId past o u → ¬Deleted tenant sessionId u)
    (hsessions : ∀ u, (inMemory o u).2.sessions = u.sessions)
    (h : ∀ a past' u, Safe inMemory (KeepsDeletion tenant sessionId)
      (Undisturbed tenant sessionId) (Returning P) (f a) past' u) :
    Safe inMemory (KeepsDeletion tenant sessionId) (Undisturbed tenant sessionId) (Returning P)
      (Program.port o >>= f) past w :=
  safe_port_bind fun u _ hu =>
    ⟨keepsDeletion_of_not_deleted (hok _ u hu) (hsessions u), fun a _ => h a _ _⟩

theorem safe_completeSession (htenant : caller.tenant = tenant) (state : StreamingState)
    (configuration : ConfigurationSnapshot) (wallMs nowMs : ℤ) :
    Safe inMemory (KeepsDeletion tenant sessionId) (Undisturbed tenant sessionId)
      (Returning fun _ _ => True)
      (CompleteSession.execute caller sessionId state configuration wallMs nowMs) past w := by
  refine safe_requireScope_bind _ _ (safe_resolve_bind htenant fun session past' u hs => ?_)
  apply safe_ofExcept_bind
  intro completing hcompleting
  obtain ⟨hstate, -, hidentity⟩ := AnalysisSession.requestCompletion_eq_ok hcompleting
  obtain ⟨howner, hid⟩ := World.session?_eq_some hs
  refine safe_save_bind (hidentity.2.2.1.trans howner) (hidentity.1.trans hid)
    (by rw [hstate]; decide) fun past' u => ?_
  apply safe_ofExcept_bind
  intro evidence _
  refine safe_store_bind (fun _ _ h => h) (fun _ => rfl) fun _ past' u => ?_
  refine safe_store_bind (fun _ _ h => h) (fun _ => rfl) fun _ past' u => ?_
  apply safe_ofExcept_bind
  intro completed hcompleted
  obtain ⟨hstate', -, hidentity'⟩ := AnalysisSession.markCompleted_eq_ok hcompleted
  have hsame := hidentity.trans hidentity'
  refine safe_save_bind (hsame.2.2.1.trans howner) (hsame.1.trans hid)
    (by rw [hstate']; decide) fun past' u => ?_
  exact safe_port_bind fun u _ _ => ⟨keepsDeletion_of_same rfl rfl rfl, fun _ _ =>
    safe_pure fun _ _ => trivial⟩

theorem safe_deleteEvidence (htenant : caller.tenant = tenant) (nowMs : ℤ) :
    Safe inMemory (KeepsDeletion tenant sessionId) (Undisturbed tenant sessionId)
      (Returning fun _ w => Deleted tenant sessionId w)
      (DeleteEvidence.execute caller sessionId nowMs) past w := by
  refine safe_requireScope_bind _ _ (safe_resolve_bind htenant fun session past' u hs => ?_)
  split_ifs with hdeleted
  · exact safe_pure fun u' hu' => hu'.deleted ⟨session, hs, hdeleted⟩
  · unfold DeleteEvidence.erase
    rw [htenant]
    refine safe_port_bind fun u₁ _ _ => ⟨keepsDeletion_of_same rfl rfl rfl, fun _ _ => ?_⟩
    refine safe_port_bind fun u₂ _ _ => ⟨keepsDeletion_of_same rfl rfl rfl, fun _ _ => ?_⟩
    refine safe_port_bind fun u₃ _ _ => ⟨keepsDeletion_deleteEvidence u₃, fun _ _ => ?_⟩
    refine safe_port_bind fun u₄ _ _ => ⟨keepsDeletion_of_same rfl rfl rfl, fun _ _ => ?_⟩
    apply safe_ofExcept_bind
    intro deleted hmarked
    obtain ⟨hstate, -, hidentity⟩ := AnalysisSession.markEvidenceDeleted_eq_ok hmarked
    obtain ⟨howner, hid⟩ := World.session?_eq_some hs
    have hown := hidentity.2.2.1.trans howner
    have hsame := hidentity.1.trans hid
    apply safe_port_bind
    intro u₅ _ hok
    rw [Undisturbed, if_pos hstate] at hok
    refine ⟨keepsDeletion_saveDeleted hown hsame hstate hok, fun _ _ => ?_⟩
    refine safe_port_bind fun u₆ hu₆ _ => ⟨keepsDeletion_of_same rfl rfl rfl, fun _ _ => ?_⟩
    refine safe_pure fun u₇ hu₇ => hu₇.deleted ((deleted_congr rfl).2 (hu₆.deleted ?_))
    exact ⟨deleted, session?_putSession_self hown hsame u₅, hstate⟩

theorem safe_program (htenant : caller.tenant = tenant) (call : Call) :
    Safe inMemory (KeepsDeletion tenant sessionId) (Undisturbed tenant sessionId)
      (Returning (ReceiptsDeleted tenant sessionId)) (call.program caller sessionId) past w := by
  have hnone : ∀ past' u, Safe inMemory (KeepsDeletion tenant sessionId)
      (Undisturbed tenant sessionId) (Returning (ReceiptsDeleted tenant sessionId))
      (pure none : Command (Option DeletionReceipt)) past' u :=
    fun past' u => safe_pure fun _ _ h => absurd rfl h
  cases call with
  | begin wallMs =>
      refine safe_bind KeepsDeletion.refl (safe_captureControl htenant fun s t h => ?_)
        fun _ past' u _ => hnone past' u
      obtain ⟨hstate, -, hidentity⟩ := AnalysisSession.beginCapture_eq_ok h
      exact ⟨by rw [hstate]; decide, hidentity⟩
  | pause wallMs =>
      refine safe_bind KeepsDeletion.refl (safe_captureControl htenant fun s t h => ?_)
        fun _ past' u _ => hnone past' u
      obtain ⟨hstate, -, hidentity⟩ := AnalysisSession.pauseCapture_eq_ok h
      exact ⟨by rw [hstate]; decide, hidentity⟩
  | resume wallMs =>
      refine safe_bind KeepsDeletion.refl (safe_captureControl htenant fun s t h => ?_)
        fun _ past' u _ => hnone past' u
      obtain ⟨hstate, -, hidentity⟩ := AnalysisSession.resumeCapture_eq_ok h
      exact ⟨by rw [hstate]; decide, hidentity⟩
  | complete state configuration wallMs nowMs =>
      exact safe_bind KeepsDeletion.refl (safe_completeSession htenant _ _ _ _)
        fun _ past' u _ => hnone past' u
  | delete nowMs =>
      exact safe_bind KeepsDeletion.refl (safe_deleteEvidence htenant nowMs)
        fun _ past' u hdeleted => safe_pure fun u' hu' _ => hu'.deleted hdeleted

end Commands

section Runs

variable {ι : Type} [DecidableEq ι]

/-- All commands, none of which has done anything yet. -/
def start (callers : ι → AuthenticatedCaller) (sessionId : SessionId) (calls : ι → Call)
    (w : World) : Config Port Port.Answer Failure (Option DeletionReceipt) World ι :=
  ⟨w, fun i => .start ((calls i).program (callers i) sessionId)⟩

/-- From the moment a deletion returned a receipt, the session stays deleted and without
evidence. -/
def DeletionFinal (tenant : TenantId) (sessionId : SessionId)
    (c : Config Port Port.Answer Failure (Option DeletionReceipt) World ι)
    (schedule : List (Choice Failure ι)) : Prop :=
  ∀ before later rest, schedule = before ++ later ++ rest → ∀ i receipt,
    ((run inMemory c before).threads i).outcome = some (.ok (some receipt)) →
      Deleted tenant sessionId (run inMemory c (before ++ later)).world ∧
        (run inMemory c (before ++ later)).world.NoEvidence tenant sessionId

/-- Undisturbed commands make deletion final. -/
theorem deletionFinal_of_undisturbed {callers : ι → AuthenticatedCaller} {calls : ι → Call}
    (hcallers : ∀ i, (callers i).tenant = tenant) (hclean : Clean tenant sessionId w)
    {schedule : List (Choice Failure ι)}
    (h : Admissible inMemory (fun _ => Undisturbed tenant sessionId)
      (start callers sessionId calls w) schedule) :
    DeletionFinal tenant sessionId (start callers sessionId calls w) schedule := by
  rintro before later rest rfl i receipt houtcome
  rw [admissible_append, admissible_append] at h
  obtain ⟨⟨hbefore, hlater⟩, -⟩ := h
  have hsafe : AllSafe inMemory (KeepsDeletion tenant sessionId)
      (fun _ => Undisturbed tenant sessionId)
      (fun _ => Returning (ReceiptsDeleted tenant sessionId))
      (start callers sessionId calls w) :=
    fun i => safe_program (hcallers i) (calls i)
  obtain ⟨hmove, hmid⟩ :=
    run_safe KeepsDeletion.refl (fun _ _ _ => KeepsDeletion.trans) hsafe hbefore
  obtain ⟨hmove', -⟩ := run_safe KeepsDeletion.refl (fun _ _ _ => KeepsDeletion.trans) hmid hlater
  have hdeleted := outcome_of_allSafe KeepsDeletion.refl hmid houtcome _ rfl (by simp)
  rw [run_append]
  exact ⟨hmove'.deleted hdeleted, (hmove'.clean (hmove.clean hclean)) (hmove'.deleted hdeleted)⟩

end Runs

def beginOrDelete (second : Bool) : Call := if second then .delete 0 else .begin 0

/-- The two commands on a created session. -/
def contested : Config Port Port.Answer Failure (Option DeletionReceipt) World Bool :=
  start (fun _ => operator) studySessionId beginOrDelete (study .created)

/-- The deletion runs to its end, then the capture is refused. -/
def deletionFirst : List (Choice Failure Bool) :=
  List.replicate 7 (true, none) ++ [(false, none)]

/-- The capture reads the session, the deletion runs to its end, the capture saves its copy. -/
def staleCapture : List (Choice Failure Bool) :=
  (false, none) :: List.replicate 7 (true, none) ++ [(false, none)]

theorem noEvidence_of_empty {w : World} (hbundles : w.bundles = .empty)
    (hdocuments : w.documents = .empty) (tenant : TenantId) (sessionId : SessionId) :
    w.NoEvidence tenant sessionId := by
  rw [World.NoEvidence, World.document?, hbundles, hdocuments]
  refine ⟨fun key bundle h => ?_, rfl⟩
  cases h

theorem deletionFinal_of_deletionFirst :
    DeletionFinal studyTenant studySessionId contested deletionFirst := by
  apply deletionFinal_of_undisturbed (fun _ => rfl) (fun _ => noEvidence_of_empty rfl rfl _ _)
  refine ⟨?_, ?_, ?_, ?_, ?_, ?_, ?_, ?_, trivial⟩
  all_goals
    intro o next h _
    cases h
    first | exact trivial | exact noEvidence_of_empty rfl rfl _ _

theorem not_deletionFinal_of_staleCapture :
    Clean studyTenant studySessionId (study .created) ∧
      ¬DeletionFinal studyTenant studySessionId contested staleCapture := by
  refine ⟨fun _ => noEvidence_of_empty rfl rfl _ _, fun h => ?_⟩
  obtain ⟨⟨session, hsession, hdeleted⟩, -⟩ :=
    h ((false, none) :: List.replicate 7 (true, none)) [(false, none)] [] rfl true _ rfl
  have hstate := congrArg (Option.map AnalysisSession.state) hsession
  rw [Option.map_some, hdeleted] at hstate
  exact absurd hstate (by decide)

end OratoriaEngine.DeletionFinality
