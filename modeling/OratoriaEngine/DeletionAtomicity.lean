import OratoriaEngine.Commands

/-!
# What a refused deletion leaves behind

A deletion revokes, deletes and clears before it asks the session whether it may be
deleted. When it raises, the world is what it was exactly if the stores it had
emptied by then held nothing of the session.
-/

namespace OratoriaEngine

open Program

namespace World

variable (w : World) (tenant : TenantId) (sessionId : SessionId)

def Unsigned : Prop := w.signatures.get? sessionId.value = none

def NoMedia : Prop :=
  ∀ key object, w.media.get? key = some object → isMediaOf tenant sessionId key object = false

/-- The evidence repository holds no bundle and no document of the session. -/
def NoEvidence : Prop :=
  (∀ key bundle, w.bundles.get? key = some bundle →
    isBundleOf tenant sessionId key bundle = false) ∧ w.document? tenant sessionId = none

def NoStreamState : Prop :=
  w.snapshots.get? sessionId.value = none ∧ w.leases.get? sessionId.value = none

def revoked : World := { w with signatures := w.signatures.erase sessionId.value }

def withoutMedia : World :=
  { w.revoked sessionId with
    media := w.media.filter fun key object => !isMediaOf tenant sessionId key object }

def withoutEvidence : World :=
  { w.withoutMedia tenant sessionId with
    bundles := w.bundles.filter fun key bundle => !isBundleOf tenant sessionId key bundle
    documents := w.documents.erase (tenant.value, sessionId.value) }

def cleared : World :=
  { w.withoutEvidence tenant sessionId with
    snapshots := w.snapshots.erase sessionId.value
    leases := w.leases.erase sessionId.value }

theorem replace_eq_iff (signatures : Dict String (Finset String))
    (media : Dict (String × String) StoredObject) (bundles : Dict (String × String) EvidenceBundle)
    (documents : Dict (String × String) EvidenceDocument)
    (snapshots : Dict String (StreamSnapshot × ℤ)) (leases : Dict String ℤ) :
    ({ w with
      signatures := signatures
      media := media
      bundles := bundles
      documents := documents
      snapshots := snapshots
      leases := leases } : World) = w ↔
      signatures = w.signatures ∧ media = w.media ∧ bundles = w.bundles ∧
        documents = w.documents ∧ snapshots = w.snapshots ∧ leases = w.leases := by
  constructor
  · intro h
    exact ⟨congrArg World.signatures h, congrArg World.media h, congrArg World.bundles h,
      congrArg World.documents h, congrArg World.snapshots h, congrArg World.leases h⟩
  · rintro ⟨rfl, rfl, rfl, rfl, rfl, rfl⟩
    rfl

theorem noMedia_iff : w.NoMedia tenant sessionId ↔
    (w.media.filter fun key object => !isMediaOf tenant sessionId key object) = w.media := by
  simp only [Dict.filter_eq_self_iff, NoMedia, Bool.not_eq_true']

theorem noEvidence_iff : w.NoEvidence tenant sessionId ↔
    (w.bundles.filter fun key bundle => !isBundleOf tenant sessionId key bundle) = w.bundles ∧
      w.documents.erase (tenant.value, sessionId.value) = w.documents := by
  simp only [Dict.filter_eq_self_iff, Dict.erase_eq_self_iff, NoEvidence, document?,
    Bool.not_eq_true']

theorem revoked_eq_iff : w.revoked sessionId = w ↔ w.Unsigned sessionId := by
  apply (replace_eq_iff w _ w.media w.bundles w.documents w.snapshots w.leases).trans
  simp only [Dict.erase_eq_self_iff, Unsigned, and_true]

theorem withoutMedia_eq_iff :
    w.withoutMedia tenant sessionId = w ↔ w.Unsigned sessionId ∧ w.NoMedia tenant sessionId := by
  apply (replace_eq_iff w _ _ w.bundles w.documents w.snapshots w.leases).trans
  simp only [revoked, Dict.erase_eq_self_iff, Unsigned, noMedia_iff, and_true]

theorem withoutEvidence_eq_iff :
    w.withoutEvidence tenant sessionId = w ↔
      w.Unsigned sessionId ∧ w.NoMedia tenant sessionId ∧ w.NoEvidence tenant sessionId := by
  apply (replace_eq_iff w _ _ _ _ w.snapshots w.leases).trans
  simp only [withoutMedia, revoked, Dict.erase_eq_self_iff, Unsigned, noMedia_iff,
    noEvidence_iff, and_true]

theorem cleared_eq_iff :
    w.cleared tenant sessionId = w ↔
      w.Unsigned sessionId ∧ w.NoMedia tenant sessionId ∧ w.NoEvidence tenant sessionId ∧
        w.NoStreamState sessionId := by
  apply (replace_eq_iff w _ _ _ _ _ _).trans
  simp only [withoutEvidence, withoutMedia, revoked, Dict.erase_eq_self_iff, Unsigned,
    noMedia_iff, noEvidence_iff, NoStreamState, and_assoc]

end World

namespace DeleteEvidence

variable (caller : AuthenticatedCaller) (sessionId : SessionId) (nowMs : ℤ)

/-- A deletion that raises leaves the world as it was. -/
def AtomicOnRefusal (fault : FaultPlan Failure) (w : World) : Prop :=
  RaisesIn inMemory fault (· = w) (execute caller sessionId nowMs) 0 w

/-- What the stores must hold nothing of for the first effects of a deletion to change
nothing: there are five effects, and the last one, the save, always changes the world. -/
def Spared (w : World) : ℕ → Prop
  | 0 | 1 => True
  | 2 => w.Unsigned sessionId
  | 3 => w.Unsigned sessionId ∧ w.NoMedia caller.tenant sessionId
  | 4 => w.Unsigned sessionId ∧ w.NoMedia caller.tenant sessionId ∧
      w.NoEvidence caller.tenant sessionId
  | 5 => w.Unsigned sessionId ∧ w.NoMedia caller.tenant sessionId ∧
      w.NoEvidence caller.tenant sessionId ∧ w.NoStreamState sessionId
  | _ => False

/-- The session may be deleted: by its state, and by the date of a live consent. -/
def Deletable (session : AnalysisSession) : Prop :=
  session.state.deletable = true ∧
    ∀ receipt ∈ session.consent, receipt.isActive = true → receipt.grantedAtMs ≤ nowMs

/-- Wherever the deletion of the session raises, what it emptied before was empty already. -/
structure RefusesCleanly (fault : FaultPlan Failure) (w : World) (session : AnalysisSession) :
    Prop where
  ofPort : ∀ k < 6, FirstFault fault k → Spared caller sessionId w k
  ofSession : ¬Deletable nowMs session → Served fault 5 → Spared caller sessionId w 5
  ofAudit : Deletable nowMs session → ¬FirstFault fault 6

theorem deletable_iff {nowMs : ℤ} {session : AnalysisSession} :
    Deletable nowMs session ↔ ∃ deleted, session.markEvidenceDeleted nowMs = .ok deleted :=
  AnalysisSession.markEvidenceDeleted_isOk_iff.symm

variable {caller sessionId nowMs} {fault : FaultPlan Failure} {w : World}
  {session : AnalysisSession}

theorem session?_deleted {deleted : AnalysisSession} {u : World}
    (hs : w.session? caller.tenant sessionId = some session)
    (hd : session.markEvidenceDeleted nowMs = .ok deleted) :
    (u.putSession deleted).session? caller.tenant sessionId = some deleted := by
  obtain ⟨htenant, hid⟩ := World.session?_eq_some hs
  obtain ⟨-, -, hidentity⟩ := AnalysisSession.markEvidenceDeleted_eq_ok hd
  rw [World.session?_putSession, if_pos]
  exact ⟨hidentity.2.2.1.trans htenant, hidentity.1.trans hid⟩

theorem putSession_ne {deleted : AnalysisSession} {u : World}
    (hs : w.session? caller.tenant sessionId = some session)
    (hne : session.state ≠ .evidenceDeleted)
    (hd : session.markEvidenceDeleted nowMs = .ok deleted) : u.putSession deleted ≠ w := by
  rintro rfl
  have hstored := session?_deleted (u := u) hs hd
  rw [hs, Option.some.injEq] at hstored
  exact hne (hstored ▸ (AnalysisSession.markEvidenceDeleted_eq_ok hd).1)

/-- The first failing port decides what the deletion must have spared. -/
theorem refusesCleanly_of_firstFault {k : ℕ} (h : FirstFault fault k) (hk : k < 6) :
    RefusesCleanly caller sessionId nowMs fault w session ↔ Spared caller sessionId w k := by
  constructor
  · exact fun hr => hr.ofPort k hk h
  · intro hspared
    refine ⟨fun k' _ hk' => hk'.eq h ▸ hspared, fun _ hnone => ?_, fun _ h6 => ?_⟩
    · have hk5 : k = 5 := by
        by_contra hne
        exact h.1 (hnone k (by omega))
      exact hk5 ▸ hspared
    · exact absurd (h6.eq h) (by omega)

/-- One effect of the deletion: if its port fails, what was emptied before must have been
empty, and if not, the rest of the deletion decides. -/
theorem raisesIn_effect_iff {k : ℕ} (hk : k < 6) (hserved : Served fault k) {o : Port}
    {a : o.Answer} {u u' : World} (ho : inMemory o u = (.ok a, u'))
    (hspared : u = w ↔ Spared caller sessionId w k)
    {f : o.Answer → Command DeletionReceipt}
    (hrest : Served fault (k + 1) → (RaisesIn inMemory fault (· = w) (f a) (k + 1) u' ↔
      RefusesCleanly caller sessionId nowMs fault w session)) :
    RaisesIn inMemory fault (· = w) (port o >>= f) k u ↔
      RefusesCleanly caller sessionId nowMs fault w session := by
  cases hf : fault k with
  | some e =>
      have hfirst : FirstFault fault k := ⟨by simp [hf], hserved⟩
      rw [raisesIn_port_bind_of_fault hf, refusesCleanly_of_firstFault hfirst hk, hspared]
  | none =>
      rw [raisesIn_port_bind_of_served hf ho]
      exact hrest (hserved.succ hf)

theorem raisesIn_mark_iff (hs : w.session? caller.tenant sessionId = some session)
    (hne : session.state ≠ .evidenceDeleted) (hserved : Served fault 5) (entry : AuditRecord)
    (receipt : DeletionReceipt) :
    RaisesIn inMemory fault (· = w) (do
      let deleted ← Program.ofExcept (session.markEvidenceDeleted nowMs)
      Command.sessionsSave deleted
      Command.auditRecord entry
      return receipt) 5 (w.cleared caller.tenant sessionId) ↔
    RefusesCleanly caller sessionId nowMs fault w session := by
  have hcleared := w.cleared_eq_iff caller.tenant sessionId
  cases hmark : session.markEvidenceDeleted nowMs with
  | error e =>
      have hnot : ¬Deletable nowMs session := by
        rw [deletable_iff, hmark]
        simp
      change RaisesIn inMemory fault (· = w) (.done (.error e)) 5 _ ↔ _
      rw [raisesIn_error_iff, hcleared]
      constructor
      · refine fun h => ⟨fun k hk hfirst => ?_, fun _ _ => h, fun hd => absurd hd hnot⟩
        have h5 : k = 5 := by
          by_contra hne5
          exact hfirst.1 (hserved k (by omega))
        exact h5 ▸ h
      · exact fun h => h.ofSession hnot hserved
  | ok deleted =>
      have hd : Deletable nowMs session := deletable_iff.2 ⟨deleted, hmark⟩
      change RaisesIn inMemory fault (· = w) (do
        Command.sessionsSave deleted
        Command.auditRecord entry
        return receipt) 5 _ ↔ _
      apply raisesIn_effect_iff (by decide) hserved rfl hcleared
      intro hserved6
      have hchanged : (w.cleared caller.tenant sessionId).putSession deleted ≠ w :=
        putSession_ne hs hne hmark
      cases h6 : fault 6 with
      | some e =>
          rw [raisesIn_port_bind_of_fault h6]
          refine iff_of_false hchanged fun h => h.ofAudit hd ⟨by simp [h6], hserved6⟩
      | none =>
          rw [raisesIn_port_bind_of_served h6 rfl]
          refine iff_of_true (raisesIn_pure _) ⟨fun k hk hfirst => ?_, fun hnot => absurd hd hnot,
            fun _ hfirst => hfirst.1 h6⟩
          exact absurd (hserved6 k (by omega)) hfirst.1

theorem raisesIn_erase_iff (hs : w.session? caller.tenant sessionId = some session)
    (hne : session.state ≠ .evidenceDeleted) (h0 : fault 0 = none) :
    RaisesIn inMemory fault (· = w) (erase caller sessionId nowMs session) 1 w ↔
      RefusesCleanly caller sessionId nowMs fault w session := by
  have hevidence : inMemory (.evidenceDeleteForSession caller.tenant sessionId)
      (w.withoutMedia caller.tenant sessionId) =
        (.ok _, w.withoutEvidence caller.tenant sessionId) :=
    Prod.ext rfl (World.deleteEvidenceForSession_snd _ caller.tenant sessionId)
  refine raisesIn_effect_iff (by decide) ((served_zero fault).succ h0) rfl
    (by simp [Spared]) fun h2 => ?_
  apply raisesIn_effect_iff (by decide) h2 rfl (w.revoked_eq_iff sessionId)
  intro h3
  refine raisesIn_effect_iff (by decide) h3 hevidence
    (w.withoutMedia_eq_iff caller.tenant sessionId) fun h4 => ?_
  refine raisesIn_effect_iff (by decide) h4 rfl
    (w.withoutEvidence_eq_iff caller.tenant sessionId) fun h5 => ?_
  exact raisesIn_mark_iff hs hne h5 _ _

/-- A deletion that raises leaves the world as it was exactly when it was refused at the lookup,
or the stores it emptied before it raised held nothing of the session. -/
theorem atomicOnRefusal_iff (caller : AuthenticatedCaller) (sessionId : SessionId) (nowMs : ℤ)
    (fault : FaultPlan Failure) (w : World) :
    AtomicOnRefusal caller sessionId nowMs fault w ↔
      (caller.allows .evidenceDelete = true → fault 0 = none →
        ∀ session, w.session? caller.tenant sessionId = some session →
          session.state ≠ .evidenceDeleted →
            RefusesCleanly caller sessionId nowMs fault w session) := by
  unfold AtomicOnRefusal execute
  apply (Command.raisesIn_requireScope_bind_iff caller (P := (· = w)) rfl _ _ _).trans
  refine imp_congr_right fun _ => ?_
  apply (Command.raisesIn_resolve_bind_iff caller (P := (· = w)) rfl _ _).trans
  refine imp_congr_right fun h0 => forall_congr' fun session => imp_congr_right fun hs => ?_
  by_cases hne : session.state = .evidenceDeleted
  · rw [if_pos hne]
    exact iff_of_true (raisesIn_pure _) fun h => absurd hne h
  · rw [if_neg hne, raisesIn_erase_iff hs hne h0]
    simp only [ne_eq, hne, not_false_eq_true, true_implies]

def pausedStudy : World :=
  { study .paused with
    signatures := Dict.empty.set studySessionId.value {"signature-1"} }

/-- The deletion of a paused session is refused after the link was revoked. -/
theorem not_atomicOnRefusal_of_paused :
    ¬AtomicOnRefusal operator studySessionId 1000 noFault pausedStudy := by
  intro h
  have hworld := h (.illegalSessionTransition
    "a session in 'paused' cannot move to 'evidence_deleted'")
    (pausedStudy.cleared studyTenant studySessionId) rfl
  have hsignatures := congrArg (fun w => w.signatures.contains "session-1") hworld
  exact absurd hsignatures (by decide)

end DeleteEvidence

end OratoriaEngine
