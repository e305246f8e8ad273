import OratoriaEngine.IdempotentCreation
import OratoriaEngine.PostgresSessions

/-!
# Postgres and process memory

The tables represent what is kept in memory when every session has its rows, and every row is one
of a session. An operation that is sound, which adds only under free keys and saves only what is
there, is answered alike by both.
-/

namespace OratoriaEngine

def AnalysisSession.OwnReceipt (s : AnalysisSession) : Prop :=
  ∀ receipt ∈ s.consent, receipt.sessionId = s.id

structure SessionTables.Represents (t : SessionTables) (w : World) : Prop where
  stored : ∀ key s, w.sessions.entries.get? key = some s →
    t.analysisSession.get? s.id.value = some (sessionToRow s) ∧
      t.consentReceipt.get? s.id.value = s.consent.map (consentToRow s.id) ∧ s.OwnReceipt
  only : ∀ id row, t.analysisSession.get? id = some row →
    ∃ s, w.session? s.tenantId s.id = some s ∧ s.id.value = id
  orphans : ∀ id, t.analysisSession.get? id = none → t.consentReceipt.get? id = none
  idempotency : ∀ key, t.idempotencyKey.get? key = (w.idempotency.get? key).map (·.value)
  runs : ∀ id, t.processingRun.get? id = (w.runs.get? id).map runToRow
  audit : t.auditRecord = w.audit.map auditToRow

namespace SessionTables.Represents

variable {t : SessionTables} {w : World}

theorem represents_fresh (configuration : ConfigurationSnapshot) :
    SessionTables.fresh.Represents (World.fresh configuration) where
  stored key s h := by cases h
  only id row h := by cases h
  orphans id _ := rfl
  idempotency key := rfl
  runs id := rfl
  audit := rfl

theorem row_of_session? (h : t.Represents w) {tenant : TenantId} {sessionId : SessionId}
    {s : AnalysisSession} (hs : w.session? tenant sessionId = some s) :
    t.analysisSession.get? sessionId.value = some (sessionToRow s) := by
  obtain ⟨-, rfl⟩ := World.session?_eq_some hs
  exact (h.stored _ s hs).1

theorem unique (h : t.Represents w) {tenant tenant' : TenantId} {sessionId : SessionId}
    {s s' : AnalysisSession} (hs : w.session? tenant sessionId = some s)
    (hs' : w.session? tenant' sessionId = some s') : s = s' := by
  have hrow := (h.row_of_session? hs).symm.trans (h.row_of_session? hs')
  have htenant : s.tenantId = s'.tenantId :=
    TenantId.ext_value (congrArg AnalysisSessionRow.tenantId (Option.some.inj hrow))
  rw [(World.session?_eq_some hs).1, (World.session?_eq_some hs').1] at htenant
  subst htenant
  exact Option.some.inj (hs.symm.trans hs')

theorem session_of_row (h : t.Represents w) {id : String} {row : AnalysisSessionRow}
    (hrow : t.analysisSession.get? id = some row) :
    ∃ s, w.session? s.tenantId s.id = some s ∧ s.id.value = id ∧ row = sessionToRow s := by
  obtain ⟨s, hs, rfl⟩ := h.only id row hrow
  exact ⟨s, hs, rfl, Option.some.inj (hrow.symm.trans (h.row_of_session? hs))⟩

theorem read_sessionToRow (h : t.Represents w) {tenant : TenantId} {sessionId : SessionId}
    {s : AnalysisSession} (hs : w.session? tenant sessionId = some s) :
    PostgresSessionRepository.read t (some (sessionToRow s)) = .ok (some s) := by
  obtain ⟨-, hconsent, hown⟩ := h.stored _ s hs
  have hread : rowToSession (sessionToRow s) (t.consentReceipt.get? s.id.value) = .ok s := by
    rw [hconsent]
    exact rowToSession_sessionToRow s hown
  exact congrArg (some <$> ·) hread

theorem get (h : t.Represents w) (tenant : TenantId) (sessionId : SessionId) :
    PostgresSessionRepository.get t tenant sessionId = .ok (w.session? tenant sessionId) := by
  unfold PostgresSessionRepository.get
  cases hs : w.session? tenant sessionId with
  | some s =>
      have htenant : (sessionToRow s).tenantId = tenant.value :=
        congrArg (fun t : TenantId => t.value) (World.session?_eq_some hs).1
      rw [h.row_of_session? hs, Option.filter_some, if_pos (decide_eq_true htenant),
        h.read_sessionToRow hs]
  | none =>
      have hnone : (t.analysisSession.get? sessionId.value).filter
          (fun row => row.tenantId = tenant.value) = none := by
        rw [Option.filter_eq_none_iff]
        intro row hrow htenant
        obtain ⟨s, hstored, hid, rfl⟩ := h.session_of_row hrow
        have heq : s.tenantId = tenant := TenantId.ext_value (of_decide_eq_true htenant)
        rw [heq, SessionId.ext_value hid, hs] at hstored
        cases hstored
      rw [hnone]
      rfl

theorem findByIdempotencyKey (h : t.Represents w) (application : ApplicationId) (key : String) :
    PostgresSessionRepository.findByIdempotencyKey t application key =
      .ok (w.findByIdempotencyKey application key) := by
  unfold PostgresSessionRepository.findByIdempotencyKey World.findByIdempotencyKey
  rw [h.idempotency]
  cases w.idempotency.get? (application.value, key) with
  | none => rfl
  | some sessionId =>
      simp only [Option.map_some]
      have hvalues : ∀ s, s ∈ w.sessions.entries.values ↔ w.session? s.tenantId s.id = some s := by
        intro s
        rw [Dict.mem_values_iff]
        constructor
        · rintro ⟨k, hk⟩
          have hkey := w.sessions.keyed k s hk
          rw [hkey] at hk
          exact hk
        · exact fun hs => ⟨_, hs⟩
      cases hfind : w.sessions.entries.values.find? fun session =>
          session.id = sessionId && session.applicationId = application with
      | some s =>
          have hsat := List.find?_some hfind
          simp only [Bool.and_eq_true, decide_eq_true_eq] at hsat
          have hs := (hvalues s).1 (List.mem_of_find?_eq_some hfind)
          have happlication : (sessionToRow s).applicationId = application.value :=
            congrArg (fun a : ApplicationId => a.value) hsat.2
          rw [← hsat.1, h.row_of_session? hs, Option.filter_some,
            if_pos (decide_eq_true happlication), h.read_sessionToRow hs]
      | none =>
          have hnone : (t.analysisSession.get? sessionId.value).filter
              (fun row => row.applicationId = application.value) = none := by
            rw [Option.filter_eq_none_iff]
            intro row hrow happlication
            obtain ⟨s, hs, hid, rfl⟩ := h.session_of_row hrow
            have hunfound := List.find?_eq_none.1 hfind s ((hvalues s).2 hs)
            refine hunfound ?_
            simp only [Bool.and_eq_true, decide_eq_true_eq]
            refine ⟨SessionId.ext_value hid, ?_⟩
            have hvalue : s.applicationId.value = application.value :=
              of_decide_eq_true happlication
            cases hs' : s.applicationId
            cases application
            rw [hs'] at hvalue
            exact congrArg ApplicationId.mk (Identifier.ext_value hvalue)
          rw [hnone]
          rfl

/-- Writing a session that takes nobody else's place and keeps a receipt that is there. -/
theorem written (h : t.Represents w) {s : AnalysisSession} (hown : s.OwnReceipt)
    (hplace : ∀ tenant s', w.session? tenant s.id = some s' →
      s'.tenantId = s.tenantId ∧ (s'.consent.isSome → s.consent.isSome)) :
    (PostgresSessionRepository.written t s).Represents (w.putSession s) where
  stored key s' hs' := by
    change (w.sessions.entries.set _ s).get? key = some s' at hs'
    rw [Dict.get?_set] at hs'
    split_ifs at hs' with hkey
    · cases hs'
      refine ⟨Dict.get?_set_self _ _ _, ?_, hown⟩
      unfold PostgresSessionRepository.written
      cases hconsent : s.consent with
      | some receipt => exact Dict.get?_set_self _ _ _
      | none =>
          cases hrow : t.analysisSession.get? s.id.value with
          | none => exact h.orphans _ hrow
          | some row =>
              obtain ⟨s', hs', hid, -⟩ := h.session_of_row hrow
              obtain ⟨-, hreceipt, -⟩ := h.stored _ s' hs'
              have hkept := (hplace s'.tenantId s' (by rwa [SessionId.ext_value hid] at hs')).2
              rw [hconsent] at hkept
              rw [hid] at hreceipt
              cases hs'' : s'.consent with
              | none =>
                  rw [hs''] at hreceipt
                  exact hreceipt
              | some receipt =>
                  rw [hs''] at hkept
                  exact absurd (hkept rfl) (by decide)
    · have hid : s'.id.value ≠ s.id.value := by
        intro hid
        have hstored : w.session? s'.tenantId s.id = some s' := by
          rw [← SessionId.ext_value hid]
          have hkeyed := w.sessions.keyed key s' hs'
          rw [hkeyed] at hs'
          exact hs'
        refine hkey ?_
        rw [w.sessions.keyed key s' hs', (hplace _ s' hstored).1, hid]
      obtain ⟨hrow, hreceipt, hown'⟩ := h.stored key s' hs'
      refine ⟨(Dict.get?_set_ne _ _ hid).trans hrow, ?_, hown'⟩
      unfold PostgresSessionRepository.written
      cases s.consent with
      | some receipt => exact (Dict.get?_set_ne _ _ hid).trans hreceipt
      | none => exact hreceipt
  only id row hrow := by
    change (t.analysisSession.set s.id.value (sessionToRow s)).get? id = some row at hrow
    by_cases hid : id = s.id.value
    · refine ⟨s, ?_, hid.symm⟩
      rw [World.session?_putSession, if_pos ⟨rfl, rfl⟩]
    · rw [Dict.get?_set_ne _ _ hid] at hrow
      obtain ⟨s', hs', rfl⟩ := h.only id row hrow
      refine ⟨s', ?_, rfl⟩
      rw [World.session?_putSession, if_neg]
      · exact hs'
      · exact fun heq => hid (congrArg (fun i : SessionId => i.value) heq.2.symm)
  orphans id hrow := by
    change (t.analysisSession.set s.id.value (sessionToRow s)).get? id = none at hrow
    have hid : id ≠ s.id.value := by
      rintro rfl
      rw [Dict.get?_set_self] at hrow
      cases hrow
    rw [Dict.get?_set_ne _ _ hid] at hrow
    unfold PostgresSessionRepository.written
    cases s.consent with
    | some receipt => exact (Dict.get?_set_ne _ _ hid).trans (h.orphans id hrow)
    | none => exact h.orphans id hrow
  idempotency := h.idempotency
  runs := h.runs
  audit := h.audit

theorem congr (h : t.Represents w) {w' : World} (hsessions : w'.sessions = w.sessions)
    (hidempotency : w'.idempotency = w.idempotency) (hruns : w'.runs = w.runs)
    (haudit : w'.audit = w.audit) : t.Represents w' where
  stored := by rw [hsessions]; exact h.stored
  only := by unfold World.session?; rw [hsessions]; exact h.only
  orphans := h.orphans
  idempotency := by rw [hidempotency]; exact h.idempotency
  runs := by rw [hruns]; exact h.runs
  audit := by rw [haudit]; exact h.audit

theorem contains_session (h : t.Represents w) {sessionId : SessionId}
    (hstored : w.Stored sessionId) : t.analysisSession.contains sessionId.value = true := by
  obtain ⟨key, s, hs, rfl⟩ := hstored
  rw [Dict.contains, (h.stored key s hs).1]
  rfl

theorem written_run (h : t.Represents w) (run : ProcessingRun) :
    (PostgresRunRepository.written t run).Represents
      { w with runs := w.runs.set run.id.value run } where
  stored := h.stored
  only := h.only
  orphans := h.orphans
  idempotency := h.idempotency
  runs id := by
    change (t.processingRun.set run.id.value (runToRow run)).get? id =
      ((w.runs.set run.id.value run).get? id).map runToRow
    rw [Dict.get?_set, Dict.get?_set]
    split_ifs
    · rfl
    · exact h.runs id
  audit := h.audit

theorem claimed (h : t.Represents w) (application : ApplicationId) (key : String)
    (sessionId : SessionId) :
    (PostgresSessionRepository.claimIdempotencyKey t application key sessionId).1 =
        (w.claimIdempotencyKey application key sessionId).1 ∧
      (PostgresSessionRepository.claimIdempotencyKey t application key sessionId).2.Represents
        (w.claimIdempotencyKey application key sessionId).2 := by
  have hcontains : t.idempotencyKey.contains (application.value, key) =
      w.idempotency.contains (application.value, key) := by
    rw [Dict.contains, Dict.contains, h.idempotency, Option.isSome_map]
  unfold PostgresSessionRepository.claimIdempotencyKey World.claimIdempotencyKey
  rw [hcontains]
  split_ifs
  · exact ⟨rfl, h⟩
  · refine ⟨rfl, h.stored, h.only, h.orphans, fun k => ?_, h.runs, h.audit⟩
    change (t.idempotencyKey.set (application.value, key) sessionId.value).get? k =
      ((w.idempotency.set (application.value, key) sessionId).get? k).map (·.value)
    rw [Dict.get?_set, Dict.get?_set]
    split_ifs
    · rfl
    · exact h.idempotency k

theorem recorded (h : t.Represents w) (entry : AuditRecord) :
    (PostgresAuditLog.record t entry).Represents { w with audit := w.audit ++ [entry] } where
  stored := h.stored
  only := h.only
  orphans := h.orphans
  idempotency := h.idempotency
  runs := h.runs
  audit := by rw [PostgresAuditLog.record, h.audit, List.map_append, List.map_singleton]

theorem forResource (h : t.Represents w) (resource : String) (limit : ℕ) :
    PostgresAuditLog.forResource t resource limit = .ok (w.auditForResource resource limit) := by
  have hfilter : (w.audit.map auditToRow).filter (fun row => row.resource = resource) =
      (w.audit.filter fun entry => entry.resource = resource).map auditToRow := by
    rw [List.filter_map]
    rfl
  have hread : ∀ entries : List AuditRecord,
      (entries.map auditToRow).mapM rowToAudit = .ok (entries.map fun entry => entry) :=
    fun entries => Except.mapM_map fun entry _ => rowToAudit_auditToRow entry
  rw [PostgresAuditLog.forResource, h.audit, hfilter, List.take_reverse, List.reverse_reverse,
    List.length_map, ← List.map_drop, hread, List.map_id']
  rfl

end SessionTables.Represents

/-- The operation adds under a free key, saves what is there, and refers to a session that is. -/
def Port.Sound (w : World) : Port → Prop
  | .sessionsAdd s => s.OwnReceipt ∧ ¬w.Stored s.id
  | .sessionsSave s => s.OwnReceipt ∧ ∃ stored, w.session? s.tenantId s.id = some stored ∧
      s.consent.isSome = stored.consent.isSome
  | .runsAdd run => w.runs.get? run.id.value = none ∧ w.Stored run.sessionId
  | .runsSave run => w.Stored run.sessionId ∧ ∃ stored, w.runs.get? run.id.value = some stored ∧
      run.sessionId = stored.sessionId
  | _ => True

/-- The tables stand for their part of a world, and the rest of it is in memory. -/
structure Stands (w : World) (c : SessionTables × World) : Prop where
  represents : c.1.Represents w
  rest : c.2 = { w with
    sessions := c.2.sessions
    idempotency := c.2.idempotency
    runs := c.2.runs
    audit := c.2.audit }

namespace Stands

open SessionTables

variable {w : World} {c : SessionTables × World}

theorem fresh (configuration : ConfigurationSnapshot) :
    Stands (World.fresh configuration) (SessionTables.fresh, World.fresh configuration) :=
  ⟨Represents.represents_fresh configuration, rfl⟩

theorem of_rest (h : Stands w c) {w' rest : World} (hsessions : w'.sessions = w.sessions)
    (hidempotency : w'.idempotency = w.idempotency) (hruns : w'.runs = w.runs)
    (haudit : w'.audit = w.audit)
    (hrest : rest = { w' with
      sessions := c.2.sessions
      idempotency := c.2.idempotency
      runs := c.2.runs
      audit := c.2.audit }) : Stands w' (c.1, rest) :=
  ⟨h.represents.congr hsessions hidempotency hruns haudit, by subst hrest; rfl⟩

theorem of_tables (h : Stands w c) {w' : World} {t : SessionTables} (ht : t.Represents w')
    (hw : ({ w with
      sessions := c.2.sessions
      idempotency := c.2.idempotency
      runs := c.2.runs
      audit := c.2.audit } : World) = { w' with
      sessions := c.2.sessions
      idempotency := c.2.idempotency
      runs := c.2.runs
      audit := c.2.audit }) : Stands w' (t, c.2) := ⟨ht, h.rest.trans hw⟩

/-- A sound operation is answered alike, and the tables keep standing for what is in memory. -/
theorem answered (h : Stands w c) {o : Port} (ho : o.Sound w) :
    (onPostgres o c).1 = (inMemory o w).1 ∧ Stands (inMemory o w).2 (onPostgres o c).2 := by
  obtain ⟨t, rest⟩ := c
  have ht : t.Represents w := h.represents
  cases o with
  | sessionsAdd s =>
      obtain ⟨hown, hfree⟩ := ho
      have hunstored : ∀ tenant s', w.session? tenant s.id ≠ some s' := fun tenant s' hs' =>
        hfree ⟨_, s', hs', (World.session?_eq_some hs').2⟩
      have hrow : t.analysisSession.get? s.id.value = none := by
        rw [Option.eq_none_iff_forall_not_mem]
        intro row hrow
        obtain ⟨s', hs', hid, -⟩ := ht.session_of_row hrow
        rw [SessionId.ext_value hid] at hs'
        exact hunstored _ _ hs'
      have hadd : PostgresSessionRepository.add t s =
          (.ok (), PostgresSessionRepository.written t s) := by
        rw [PostgresSessionRepository.add, Dict.contains, Dict.contains, hrow,
          ht.orphans _ hrow]
        simp
      change (PostgresSessionRepository.add t s).1 = _ ∧
        Stands (w.putSession s) ((PostgresSessionRepository.add t s).2, rest)
      rw [hadd]
      exact ⟨rfl, h.of_tables
        (ht.written hown fun tenant s' hs' => absurd hs' (hunstored _ _)) rfl⟩
  | sessionsSave s =>
      obtain ⟨hown, stored, hstored, hconsent⟩ := ho
      refine ⟨rfl, h.of_tables (ht.written hown fun tenant s' hs' => ?_) rfl⟩
      obtain rfl := ht.unique hstored hs'
      exact ⟨(World.session?_eq_some hstored).1, fun hsome => hconsent.trans hsome⟩
  | sessionsGet tenant sessionId => exact ⟨ht.get tenant sessionId, h⟩
  | findByIdempotencyKey application key =>
      exact ⟨ht.findByIdempotencyKey application key, h⟩
  | claimIdempotencyKey application key sessionId =>
      obtain ⟨hanswer, hclaimed⟩ := ht.claimed application key sessionId
      refine ⟨congrArg Except.ok hanswer, h.of_tables hclaimed ?_⟩
      simp only [inMemory, World.claimIdempotencyKey]
      split_ifs <;> rfl
  | runsAdd run =>
      obtain ⟨hfree, hstored⟩ := ho
      have hrow : t.processingRun.contains run.id.value = false := by
        rw [Dict.contains, ht.runs, hfree]
        rfl
      have hadd : PostgresRunRepository.add t run =
          (.ok (), PostgresRunRepository.written t run) := by
        rw [PostgresRunRepository.add, PostgresRunRepository.refers, hrow,
          ht.contains_session hstored]
        rfl
      change (PostgresRunRepository.add t run).1 = _ ∧
        Stands _ ((PostgresRunRepository.add t run).2, rest)
      rw [hadd]
      exact ⟨rfl, h.of_tables (ht.written_run run) rfl⟩
  | runsGet runId =>
      refine ⟨?_, h⟩
      change (t.processingRun.get? runId.value).mapM rowToRun = .ok (w.runs.get? runId.value)
      rw [ht.runs]
      cases w.runs.get? runId.value with
      | none => rfl
      | some run =>
          change some <$> rowToRun (runToRow run) = _
          rw [rowToRun_runToRow]
          rfl
  | runsSave run =>
      have hsave : PostgresRunRepository.save t run =
          (.ok (), PostgresRunRepository.written t run) := by
        rw [PostgresRunRepository.save, PostgresRunRepository.refers,
          if_pos (ht.contains_session ho.1)]
      change (PostgresRunRepository.save t run).1 = _ ∧
        Stands _ ((PostgresRunRepository.save t run).2, rest)
      rw [hsave]
      exact ⟨rfl, h.of_tables (ht.written_run run) rfl⟩
  | auditRecord entry => exact ⟨rfl, h.of_tables (ht.recorded entry) rfl⟩
  | evidenceDeleteForSession tenant sessionId =>
      have hrest := h.rest
      dsimp only at hrest
      refine ⟨?_, ?_⟩
      · change Except.ok (rest.deleteEvidenceForSession tenant sessionId).1 =
          Except.ok (w.deleteEvidenceForSession tenant sessionId).1
        rw [hrest]
        unfold World.deleteEvidenceForSession
        dsimp only
        split_ifs <;> rfl
      · change Stands (w.deleteEvidenceForSession tenant sessionId).2
          (t, (rest.deleteEvidenceForSession tenant sessionId).2)
        rw [World.deleteEvidenceForSession_snd, World.deleteEvidenceForSession_snd]
        refine h.of_rest rfl rfl rfl rfl ?_
        rw [hrest]
  | evidenceStore _ | evidenceStoreDocument _ _ | mediaRevokeSignatures _ _
  | mediaDeleteForSession _ _ | streamStateClear _ | configurationCurrent _
  | configurationFreeze _ _ | quotaCheck _ _ _ | quotaConsume _ _ _ =>
      have hrest := h.rest
      dsimp only at hrest
      refine ⟨?_, h.of_rest rfl rfl rfl rfl ?_⟩
      · rw [hrest]
        rfl
      · dsimp only
        rw [hrest]
        rfl

end Stands

end OratoriaEngine
