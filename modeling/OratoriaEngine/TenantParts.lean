import OratoriaEngine.Lib.Lockstep
import OratoriaEngine.Queries
import Mathlib.Data.List.Find

/-!
# What the adapters hold for one tenant

The part of a tenant is a world of its own: the entries under its key, and what is kept by
application or by session for the applications and sessions that are its own. An operation a
tenant may make acts on its part as it does on the whole, and leaves the parts of all others.
-/

namespace OratoriaEngine

def Dict.ofTenant {ν : Type} (tenant : TenantId) (d : Dict (String × String) ν) :
    Dict (String × String) ν := d.filter fun key _ => key.1 = tenant.value

def SessionTable.ofTenant (tenant : TenantId) (t : SessionTable) : SessionTable where
  entries := Dict.ofTenant tenant t.entries
  keyed key s h := by
    rw [Dict.ofTenant, Dict.get?_filter] at h
    exact t.keyed key s (Option.filter_eq_some_iff.1 h).1

/-- The part of a tenant, when its applications are those `owner` names it for and `own` tells
its sessions. -/
def World.restrictTo (owner : String → TenantId) (own : String → Bool) (tenant : TenantId)
    (w : World) : World where
  sessions := w.sessions.ofTenant tenant
  idempotency := w.idempotency.filter fun key _ => owner key.1 = tenant
  runs := w.runs.filter fun _ run => own run.sessionId.value
  bundles := Dict.ofTenant tenant w.bundles
  documents := Dict.ofTenant tenant w.documents
  media := Dict.ofTenant tenant w.media
  signatures := w.signatures.filter fun key _ => own key
  snapshots := w.snapshots.filter fun key _ => own key
  leases := w.leases.filter fun key _ => own key
  audit := w.audit.filter fun entry => entry.tenant = some tenant || own entry.resource
  published := w.published
  currentByTenant := w.currentByTenant
  defaultSnapshot := w.defaultSnapshot
  bySession := w.bySession.filter fun key _ => own key
  quotaLimits := w.quotaLimits
  quotaCounts := w.quotaCounts.filter fun key _ => owner key.1 = tenant
  quotaWindowMs := w.quotaWindowMs

/-- A session is stored for the tenant under this identifier. -/
def World.owns (tenant : TenantId) (w : World) (sessionId : String) : Bool :=
  w.sessions.entries.contains (tenant.value, sessionId)

def World.partOf (owner : String → TenantId) (tenant : TenantId) (w : World) : World :=
  w.restrictTo owner (w.owns tenant) tenant

theorem World.owns_eq_false_iff {tenant : TenantId} {w : World} {sessionId : SessionId} :
    w.owns tenant sessionId.value = false ↔ w.session? tenant sessionId = none :=
  Dict.contains_eq_false_iff _ _

/-- Whose the applications and the sessions are, those to come included, and what is published. -/
structure Tenancy where
  owner : String → TenantId
  holder : String → TenantId
  published : Dict String ConfigurationSnapshot

namespace Tenancy

variable (τ : Tenancy)

def part (tenant : TenantId) (w : World) : World :=
  w.restrictTo τ.owner (fun sessionId => τ.holder sessionId = tenant) tenant

/-- What is stored is stored for whom the tenancy says, and every current configuration is one
of the published ones. -/
structure Keeps (w : World) : Prop where
  sessions : ∀ key s, w.sessions.entries.get? key = some s →
    τ.owner s.applicationId.value = s.tenantId ∧ τ.holder s.id.value = s.tenantId
  published : w.published = τ.published
  current : ∀ tenant, τ.published.contains (w.currentConfiguration tenant).id.value = true

def Allows (tenant : TenantId) : Port → Prop
  | .sessionsAdd s | .sessionsSave s =>
      s.tenantId = tenant ∧ τ.owner s.applicationId.value = tenant ∧ τ.holder s.id.value = tenant
  | .sessionsGet t _ | .evidenceStoreDocument _ t | .evidenceDeleteForSession t _
  | .mediaDeleteForSession t _ | .configurationCurrent t => t = tenant
  | .findByIdempotencyKey application _ | .claimIdempotencyKey application _ _
  | .quotaCheck application _ _ | .quotaConsume application _ _ =>
      τ.owner application.value = tenant
  | .runsAdd _ | .runsGet _ | .runsSave _ => False
  | .evidenceStore bundle => bundle.tenant = tenant
  | .mediaRevokeSignatures _ sessionId | .streamStateClear sessionId =>
      τ.holder sessionId.value = tenant
  | .auditRecord entry => entry.tenant = some tenant ∧ τ.holder entry.resource = tenant
  | .configurationFreeze snapshot sessionId =>
      τ.published.contains snapshot.id.value = true ∧ τ.holder sessionId.value = tenant

def Trusts (tenant : TenantId) : (o : Port) → o.Answer → Prop
  | .sessionsGet _ sessionId, found => ∀ s, found = some s → s.tenantId = tenant ∧
      s.id = sessionId ∧ τ.owner s.applicationId.value = tenant ∧ τ.holder s.id.value = tenant
  | .configurationCurrent _, snapshot => τ.published.contains snapshot.id.value = true
  | _, _ => True

end Tenancy

section Parts

variable {ν : Type} {tenant other : TenantId}

theorem ofTenant_set_self (d : Dict (String × String) ν) (key : String) (v : ν) :
    Dict.ofTenant tenant (d.set (tenant.value, key) v) =
      (Dict.ofTenant tenant d).set (tenant.value, key) v := by
  apply (Dict.filter_set _ _ _ _).trans
  rw [if_pos (by simp)]
  rfl

theorem ofTenant_set_of_ne (h : other ≠ tenant) (d : Dict (String × String) ν) (key : String)
    (v : ν) : Dict.ofTenant tenant (d.set (other.value, key) v) = Dict.ofTenant tenant d := by
  apply (Dict.filter_set _ _ _ _).trans
  rw [if_neg]
  · rfl
  · simpa using fun heq => h (TenantId.ext_value heq)

theorem get?_ofTenant (d : Dict (String × String) ν) (key : String) :
    (Dict.ofTenant tenant d).get? (tenant.value, key) = d.get? (tenant.value, key) := by
  rw [Dict.ofTenant, Dict.get?_filter]
  cases d.get? (tenant.value, key) <;> simp [Option.filter]

theorem ofTenant_filter_of_ne (h : other ≠ tenant) (d : Dict (String × String) ν)
    (p : String × String → ν → Bool) (hp : ∀ key v, p key v = false → key.1 = other.value) :
    Dict.ofTenant tenant (d.filter p) = Dict.ofTenant tenant d := by
  apply Dict.filter_filter_of_imp
  intro key v hkey
  cases hv : p key v with
  | true => rfl
  | false =>
      have hother := (hp key v hv).symm.trans (of_decide_eq_true hkey)
      exact absurd (TenantId.ext_value hother) h

variable {p : String → Bool} {key : String}

theorem filter_erase_of_false (h : p key = false) (d : Dict String ν) :
    (d.erase key).filter (fun key _ => p key) = d.filter fun key _ => p key := by
  apply Dict.filter_filter_of_imp
  intro key' v hkey'
  have hne : key' ≠ key := fun heq => by rw [heq, h] at hkey'; cases hkey'
  simpa using hne

theorem decide_eq_of_ne {owner : TenantId} (h : owner = other) (hne : other ≠ tenant) :
    decide (owner = tenant) = false := decide_eq_false fun heq => hne (h.symm.trans heq)

theorem contains_ofTenant (d : Dict (String × String) ν) (key : String) :
    (Dict.ofTenant tenant d).contains (tenant.value, key) = d.contains (tenant.value, key) := by
  rw [Dict.contains, Dict.contains, get?_ofTenant]

theorem ofTenant_filter (d : Dict (String × String) ν)
    (p : String × String → ν → Bool) :
    Dict.ofTenant tenant (d.filter p) = (Dict.ofTenant tenant d).filter p := Dict.filter_comm _ _ _

theorem SessionTable.ext_entries {a b : SessionTable} (h : a.entries = b.entries) : a = b := by
  cases a
  cases b
  cases h
  rfl

theorem SessionTable.ofTenant_put_self {s : AnalysisSession} (h : s.tenantId = tenant)
    (t : SessionTable) : (t.put s).ofTenant tenant = (t.ofTenant tenant).put s := by
  subst h
  exact SessionTable.ext_entries (ofTenant_set_self _ _ _)

theorem SessionTable.ofTenant_put_of_ne {s : AnalysisSession} (h : s.tenantId ≠ tenant)
    (t : SessionTable) : (t.put s).ofTenant tenant = t.ofTenant tenant :=
  SessionTable.ext_entries (ofTenant_set_of_ne h _ _ _)

theorem SessionTable.find?_values_ofTenant (t : SessionTable) (q : AnalysisSession → Bool)
    (hq : ∀ key s, t.entries.get? key = some s → q s = true → s.tenantId = tenant) :
    (t.ofTenant tenant).entries.values.find? q = t.entries.values.find? q := by
  have hvalues : (t.ofTenant tenant).entries.values =
      (t.entries.entries.filter fun e => decide (e.1.1 = tenant.value)).map Prod.snd := rfl
  rw [hvalues, Dict.values, List.find?_map, List.find?_map, List.find?_filter]
  refine congrArg (Option.map Prod.snd) (List.find?_congr fun e he => ?_)
  have hget := (t.entries.get?_eq_some_iff_mem e.1 e.2).2 he
  cases hqe : q e.2 with
  | false => simp [hqe]
  | true =>
      have htenant := hq e.1 e.2 hget hqe
      have hkey : e.1.1 = tenant.value := by rw [t.keyed e.1 e.2 hget, htenant]
      simp [hqe, hkey]

theorem deleteEvidenceForSession_fst (w : World) (sessionId : SessionId) :
    (w.deleteEvidenceForSession tenant sessionId).1 =
      ((w.bundles.entries.length : ℤ) - (w.bundles.filter fun key bundle =>
        !World.isBundleOf tenant sessionId key bundle).entries.length) +
      if w.documents.contains (tenant.value, sessionId.value) then 1 else 0 := by
  unfold World.deleteEvidenceForSession
  split_ifs
  · rfl
  · exact (Int.add_zero _).symm

end Parts

namespace Tenancy

variable {τ : Tenancy} {tenant other : TenantId} {w : World}

theorem Keeps.session? (h : τ.Keeps w) {sessionId : SessionId} {s : AnalysisSession}
    (hs : w.session? tenant sessionId = some s) : s.tenantId = tenant ∧ s.id = sessionId ∧
      τ.owner s.applicationId.value = tenant ∧ τ.holder s.id.value = tenant := by
  obtain ⟨htenant, hid⟩ := World.session?_eq_some hs
  obtain ⟨howner, hholder⟩ := h.sessions _ s hs
  exact ⟨htenant, hid, howner.trans htenant, hholder.trans htenant⟩

theorem Keeps.putSession (h : τ.Keeps w) {s : AnalysisSession}
    (howner : τ.owner s.applicationId.value = s.tenantId)
    (hholder : τ.holder s.id.value = s.tenantId) : τ.Keeps (w.putSession s) where
  sessions key s' hs' := by
    change (w.sessions.entries.set _ s).get? key = some s' at hs'
    rw [Dict.get?_set] at hs'
    split_ifs at hs' with hkey
    · cases hs'
      exact ⟨howner, hholder⟩
    · exact h.sessions key s' hs'
  published := h.published
  current := h.current

theorem Keeps.freeze_published (h : τ.Keeps w) {snapshot : ConfigurationSnapshot}
    (hknown : τ.published.contains snapshot.id.value = true) (sessionId : SessionId) :
    (w.freeze snapshot sessionId).published = w.published := by
  unfold World.freeze
  rw [h.published, if_pos hknown]

theorem keeps_inMemory (h : τ.Keeps w) {o : Port} (ho : τ.Allows tenant o) :
    τ.Keeps (inMemory o w).2 := by
  cases o with
  | sessionsAdd s | sessionsSave s =>
      obtain ⟨rfl, howner, hholder⟩ := ho
      exact h.putSession howner hholder
  | claimIdempotencyKey application key sessionId =>
      simp only [inMemory, World.claimIdempotencyKey]
      split_ifs
      · exact h
      · exact ⟨h.sessions, h.published, h.current⟩
  | evidenceDeleteForSession t sessionId =>
      simp only [inMemory, World.deleteEvidenceForSession_snd]
      exact ⟨h.sessions, h.published, h.current⟩
  | configurationFreeze snapshot sessionId =>
      exact ⟨h.sessions, (h.freeze_published ho.1 sessionId).trans h.published, h.current⟩
  | _ => exact ⟨h.sessions, h.published, h.current⟩

theorem trusts_inMemory (h : τ.Keeps w) {o : Port} (ho : τ.Allows tenant o) {a : o.Answer}
    (ha : (inMemory o w).1 = .ok a) : τ.Trusts tenant o a := by
  cases o with
  | sessionsGet t sessionId =>
      cases ho
      cases ha
      exact fun s hs => h.session? hs
  | configurationCurrent t =>
      cases ha
      exact h.current t
  | _ => trivial

theorem findByIdempotencyKey_part (h : τ.Keeps w) {application : ApplicationId}
    (ho : τ.owner application.value = tenant) (key : String) :
    (τ.part tenant w).findByIdempotencyKey application key =
      w.findByIdempotencyKey application key := by
  have hget : (τ.part tenant w).idempotency.get? (application.value, key) =
      w.idempotency.get? (application.value, key) := by
    refine (Dict.get?_filter _ _ _).trans ?_
    cases w.idempotency.get? (application.value, key) <;> simp [Option.filter, ho]
  unfold World.findByIdempotencyKey
  rw [hget]
  cases w.idempotency.get? (application.value, key) with
  | none => rfl
  | some sessionId =>
      refine w.sessions.find?_values_ofTenant _ fun k s hs hfound => ?_
      simp only [Bool.and_eq_true, decide_eq_true_eq] at hfound
      rw [← (h.sessions k s hs).1, hfound.2, ho]

theorem deleteEvidenceForSession_part (sessionId : SessionId) :
    (τ.part tenant w).deleteEvidenceForSession tenant sessionId =
      ((w.deleteEvidenceForSession tenant sessionId).1,
        τ.part tenant (w.deleteEvidenceForSession tenant sessionId).2) := by
  refine Prod.ext ?_ ?_
  · rw [deleteEvidenceForSession_fst, deleteEvidenceForSession_fst]
    refine congrArg₂ (· + ·) ?_ ?_
    · apply Dict.length_sub_length_filter w.bundles
      intro key bundle hbundle
      simp only [World.isBundleOf, Bool.and_eq_true, decide_eq_true_eq] at hbundle
      exact decide_eq_true hbundle.1
    · exact congrArg (fun found : Bool => if found then (1 : ℤ) else 0) (contains_ofTenant _ _)
  · simp only [World.deleteEvidenceForSession_snd, part, World.restrictTo, Dict.erase,
      ofTenant_filter]

theorem deleteMediaForSession_part (sessionId : SessionId) :
    (τ.part tenant w).deleteMediaForSession tenant sessionId =
      ((w.deleteMediaForSession tenant sessionId).1,
        τ.part tenant (w.deleteMediaForSession tenant sessionId).2) := by
  refine Prod.ext ?_ ?_
  · apply Dict.length_sub_length_filter w.media
    intro key object hobject
    simp only [World.isMediaOf, Bool.and_eq_true, decide_eq_true_eq] at hobject
    exact decide_eq_true hobject.1
  · simp only [World.deleteMediaForSession, part, World.restrictTo, ofTenant_filter]

theorem quotaUsed_part {application : ApplicationId} (ho : τ.owner application.value = tenant)
    (unit : String) (epochMs : ℤ) :
    (τ.part tenant w).quotaUsed application unit epochMs = w.quotaUsed application unit epochMs :=
  congrArg (·.getD 0) (Dict.get?_filter_of_pos (p := fun key : String × String × ℤ =>
    decide (τ.owner key.1 = tenant)) (decide_eq_true ho) w.quotaCounts)

theorem inMemory_part (h : τ.Keeps w) {o : Port} (ho : τ.Allows tenant o) :
    inMemory o (τ.part tenant w) = ((inMemory o w).1, τ.part tenant (inMemory o w).2) := by
  cases o with
  | sessionsAdd s | sessionsSave s =>
      simp only [inMemory, part, World.restrictTo, World.putSession,
        SessionTable.ofTenant_put_self ho.1]
  | sessionsGet t sessionId =>
      cases ho
      exact congrArg (fun found => (Except.ok found, τ.part tenant w)) (get?_ofTenant _ _)
  | findByIdempotencyKey application key =>
      exact congrArg (fun found => (Except.ok found, τ.part tenant w))
        (findByIdempotencyKey_part h ho key)
  | claimIdempotencyKey application key sessionId =>
      have howner : decide (τ.owner application.value = tenant) = true := decide_eq_true ho
      have hcontains : (τ.part tenant w).idempotency.contains (application.value, key) =
          w.idempotency.contains (application.value, key) :=
        congrArg Option.isSome (Dict.get?_filter_of_pos (p := fun key : String × String =>
          decide (τ.owner key.1 = tenant)) howner w.idempotency)
      simp only [inMemory, World.claimIdempotencyKey, hcontains]
      split_ifs
      · rfl
      · simp only [part, World.restrictTo, Dict.filter_set, howner, if_true]
  | evidenceStore bundle =>
      cases ho
      simp only [inMemory, part, World.restrictTo, ofTenant_set_self]
  | evidenceStoreDocument document t =>
      cases ho
      simp only [inMemory, part, World.restrictTo, ofTenant_set_self]
  | evidenceDeleteForSession t sessionId =>
      cases ho
      simp only [inMemory, deleteEvidenceForSession_part]
  | mediaDeleteForSession t sessionId =>
      cases ho
      simp only [inMemory, deleteMediaForSession_part]
  | mediaRevokeSignatures t sessionId =>
      simp only [inMemory, part, World.restrictTo, Dict.filter_erase]
  | streamStateClear sessionId =>
      simp only [inMemory, World.clearStreamState, part, World.restrictTo, Dict.filter_erase]
  | auditRecord entry =>
      simp [inMemory, part, World.restrictTo, ho.1]
  | configurationFreeze snapshot sessionId =>
      have hholder : decide (τ.holder sessionId.value = tenant) = true := decide_eq_true ho.2
      simp only [inMemory, World.freeze, part, World.restrictTo, Dict.filter_set, hholder, if_true]
      rfl
  | quotaCheck application unit epochMs =>
      have hused := quotaUsed_part (w := w) ho unit epochMs
      simp only [inMemory, World.quotaCheck, hused]
      rfl
  | quotaConsume application unit epochMs =>
      have hused := quotaUsed_part (w := w) ho unit epochMs
      have howner : decide (τ.owner application.value = tenant) = true := decide_eq_true ho
      simp only [inMemory, World.quotaConsume, hused]
      simp only [World.quotaKey, part, World.restrictTo, Dict.filter_set, howner, if_true]
  | runsAdd run | runsSave run | runsGet run => exact ho.elim
  | configurationCurrent t => rfl

theorem part_deleteEvidenceForSession_of_ne (hne : other ≠ tenant) (sessionId : SessionId) :
    τ.part tenant (w.deleteEvidenceForSession other sessionId).2 = τ.part tenant w := by
  have hbundles := ofTenant_filter_of_ne hne w.bundles
    (fun key bundle => !World.isBundleOf other sessionId key bundle) fun key bundle hkey => by
      simp only [World.isBundleOf, Bool.not_eq_false', Bool.and_eq_true, decide_eq_true_eq] at hkey
      exact hkey.1
  have hdocuments := ofTenant_filter_of_ne hne w.documents
    (fun key _ => decide (key ≠ (other.value, sessionId.value))) fun key document hkey => by
      simp only [ne_eq, decide_not, Bool.not_eq_false', decide_eq_true_eq] at hkey
      rw [hkey]
  simp only [World.deleteEvidenceForSession_snd, part, World.restrictTo, Dict.erase, hbundles,
    hdocuments]

theorem part_deleteMediaForSession_of_ne (hne : other ≠ tenant) (sessionId : SessionId) :
    τ.part tenant (w.deleteMediaForSession other sessionId).2 = τ.part tenant w := by
  have hmedia := ofTenant_filter_of_ne hne w.media
    (fun key object => !World.isMediaOf other sessionId key object) fun key object hkey => by
      simp only [World.isMediaOf, Bool.not_eq_false', Bool.and_eq_true, decide_eq_true_eq] at hkey
      exact hkey.1
  simp only [World.deleteMediaForSession, part, World.restrictTo, hmedia]

theorem part_inMemory_of_ne (h : τ.Keeps w) {o : Port} (ho : τ.Allows other o)
    (hne : other ≠ tenant) : τ.part tenant (inMemory o w).2 = τ.part tenant w := by
  cases o with
  | sessionsAdd s | sessionsSave s =>
      obtain ⟨rfl, -, -⟩ := ho
      simp only [inMemory, part, World.restrictTo, World.putSession,
        SessionTable.ofTenant_put_of_ne hne]
  | claimIdempotencyKey application key sessionId =>
      simp only [inMemory, World.claimIdempotencyKey]
      split_ifs
      · rfl
      · have howner := decide_eq_of_ne ho hne
        simp only [part, World.restrictTo, Dict.filter_set, howner, Bool.false_eq_true, if_false]
  | evidenceStore bundle =>
      have hbundle : bundle.tenant ≠ tenant := fun heq => hne (Eq.trans ho.symm heq)
      simp only [inMemory, part, World.restrictTo, ofTenant_set_of_ne hbundle]
  | evidenceStoreDocument document t =>
      cases ho
      simp only [inMemory, part, World.restrictTo, ofTenant_set_of_ne hne]
  | evidenceDeleteForSession t sessionId =>
      cases ho
      exact part_deleteEvidenceForSession_of_ne hne sessionId
  | mediaDeleteForSession t sessionId =>
      cases ho
      exact part_deleteMediaForSession_of_ne hne sessionId
  | mediaRevokeSignatures t sessionId =>
      have hsignatures := filter_erase_of_false (p := fun key => decide (τ.holder key = tenant))
        (decide_eq_of_ne ho hne) w.signatures
      simp only [inMemory, part, World.restrictTo, hsignatures]
  | streamStateClear sessionId =>
      have hsnapshots := filter_erase_of_false (p := fun key => decide (τ.holder key = tenant))
        (decide_eq_of_ne ho hne) w.snapshots
      have hleases := filter_erase_of_false (p := fun key => decide (τ.holder key = tenant))
        (decide_eq_of_ne ho hne) w.leases
      simp only [inMemory, World.clearStreamState, part, World.restrictTo, hsnapshots, hleases]
  | auditRecord entry =>
      have htenant : decide (entry.tenant = some tenant) = false :=
        decide_eq_false fun heq => hne (Option.some.inj (ho.1.symm.trans heq))
      have hholder := decide_eq_of_ne ho.2 hne
      simp only [inMemory, part, World.restrictTo, List.filter_append, List.filter_cons, htenant,
        hholder, Bool.or_self, List.filter_nil, List.append_nil, Bool.false_eq_true, if_false]
  | configurationFreeze snapshot sessionId =>
      have hpublished := h.freeze_published ho.1 sessionId
      have hholder := decide_eq_of_ne ho.2 hne
      change τ.part tenant (w.freeze snapshot sessionId) = _
      simp only [part, World.restrictTo, hpublished]
      simp only [World.freeze, Dict.filter_set, hholder, Bool.false_eq_true, if_false]
  | quotaConsume application unit epochMs =>
      have howner := decide_eq_of_ne ho hne
      simp only [inMemory, World.quotaConsume, World.quotaKey, part, World.restrictTo,
        Dict.filter_set, howner, Bool.false_eq_true, if_false]
  | runsAdd run | runsSave run | runsGet run => exact ho.elim
  | _ => rfl

/-- The runs are kept by their identifier alone, but nothing a tenant may do reads or writes
them. -/
theorem inMemory_withRuns {o : Port} (ho : τ.Allows tenant o) (w : World)
    (runs : Dict String ProcessingRun) :
    inMemory o { w with runs := runs } =
      ((inMemory o w).1, { (inMemory o w).2 with runs := runs }) := by
  cases o with
  | claimIdempotencyKey application key sessionId =>
      simp only [inMemory, World.claimIdempotencyKey]
      split_ifs <;> rfl
  | evidenceDeleteForSession t sessionId =>
      simp only [inMemory, World.deleteEvidenceForSession]
      split_ifs <;> rfl
  | runsAdd run | runsSave run | runsGet run => exact ho.elim
  | _ => rfl

theorem restrictTo_restrictTo {owner : String → TenantId} {own own' : String → Bool}
    (h : ∀ key, own' key = true → own key = true) (w : World) :
    (w.restrictTo owner own tenant).restrictTo owner own' tenant =
      w.restrictTo owner own' tenant := by
  have htenant : ∀ {ν : Type} (d : Dict (String × String) ν),
      Dict.ofTenant tenant (Dict.ofTenant tenant d) = Dict.ofTenant tenant d :=
    fun d => Dict.filter_filter_of_imp _ _ _ fun _ _ hkey => hkey
  have hsessions : (w.sessions.ofTenant tenant).ofTenant tenant = w.sessions.ofTenant tenant :=
    SessionTable.ext_entries (htenant _)
  have howner : ∀ {κ ν : Type} (d : Dict (String × κ) ν),
      (d.filter fun key _ => owner key.1 = tenant).filter (fun key _ => owner key.1 = tenant) =
        d.filter fun key _ => owner key.1 = tenant :=
    fun d => Dict.filter_filter_of_imp _ _ _ fun _ _ hkey => hkey
  have hown : ∀ {ν : Type} (d : Dict String ν),
      (d.filter fun key _ => own key).filter (fun key _ => own' key) =
        d.filter fun key _ => own' key :=
    fun d => Dict.filter_filter_of_imp _ _ _ fun key _ hkey => h key hkey
  have hruns : (w.runs.filter fun _ run => own run.sessionId.value).filter
      (fun _ run => own' run.sessionId.value) = w.runs.filter fun _ run =>
        own' run.sessionId.value :=
    Dict.filter_filter_of_imp _ _ _ fun _ run hrun => h _ hrun
  have haudit : (w.audit.filter fun entry =>
      entry.tenant = some tenant || own entry.resource).filter
        (fun entry => entry.tenant = some tenant || own' entry.resource) =
          w.audit.filter fun entry => entry.tenant = some tenant || own' entry.resource := by
    rw [List.filter_filter]
    apply List.filter_congr
    intro entry _
    cases hentry : own' entry.resource with
    | true => simp [h _ hentry]
    | false => by_cases htenant' : entry.tenant = some tenant <;> simp [htenant']
  simp only [World.restrictTo, htenant, hsessions, howner, hown, hruns, haudit]

theorem Keeps.holder_of_owns (h : τ.Keeps w) {sessionId : String}
    (howns : w.owns tenant sessionId = true) : τ.holder sessionId = tenant := by
  obtain ⟨s, hs⟩ := Option.isSome_iff_exists.1 howns
  obtain ⟨htenant, hid⟩ := Prod.mk.inj (w.sessions.keyed _ s hs)
  rw [hid, (h.sessions _ s hs).2]
  exact TenantId.ext_value htenant.symm

theorem partOf_part (h : τ.Keeps w) :
    (τ.part tenant w).partOf τ.owner tenant = w.partOf τ.owner tenant := by
  have howns : (τ.part tenant w).owns tenant = w.owns tenant :=
    funext fun key => contains_ofTenant w.sessions.entries key
  rw [World.partOf, howns]
  exact restrictTo_restrictTo (fun key hkey => decide_eq_true (h.holder_of_owns hkey)) w

end Tenancy

end OratoriaEngine
