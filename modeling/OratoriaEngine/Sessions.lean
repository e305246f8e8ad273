import OratoriaEngine.Capabilities
import OratoriaEngine.Lib.Except
import OratoriaEngine.Taxonomy
import OratoriaEngine.Timeline

/-!
# Sessions: lifecycle, clock and consent

A session is an immutable value. Every transition yields a new one, or refuses
because the lifecycle table does not allow the move or because consent is missing
or withdrawn.
-/

namespace OratoriaEngine

inductive SessionMode
  | realtime
  | batch
  deriving DecidableEq, Repr

def SessionMode.value : SessionMode → String
  | .realtime => "realtime"
  | .batch => "batch"

inductive SessionState
  | created
  | capturing
  | paused
  | completing
  | completed
  | failed
  | evidenceDeleted
  deriving DecidableEq, Repr

namespace SessionState

def value : SessionState → String
  | created => "created"
  | capturing => "capturing"
  | paused => "paused"
  | completing => "completing"
  | completed => "completed"
  | failed => "failed"
  | evidenceDeleted => "evidence_deleted"

def allowed : SessionState → List SessionState
  | created => [capturing, failed, evidenceDeleted]
  | capturing => [paused, completing, failed]
  | paused => [capturing, completing, failed]
  | completing => [completed, failed]
  | completed => [evidenceDeleted]
  | failed => [evidenceDeleted]
  | evidenceDeleted => []

def canTransition (source target : SessionState) : Bool := target ∈ source.allowed

def requireTransition (source target : SessionState) : Except Failure SessionState :=
  if source.canTransition target then .ok target
  else .error (.illegalSessionTransition
    s!"a session in '{source.value}' cannot move to '{target.value}'")

theorem requireTransition_eq_ok {source target state : SessionState}
    (h : requireTransition source target = .ok state) :
    state = target ∧ source.canTransition target = true := by
  unfold requireTransition at h
  split_ifs at h with hc
  cases h
  exact ⟨rfl, hc⟩

/-- Media sent right now would be processed. -/
def acceptsMedia (s : SessionState) : Bool := s = capturing

/-- The states a deletion may start from: nothing captured, or capture over. -/
def deletable (s : SessionState) : Bool := s.canTransition evidenceDeleted

theorem canTransition_of_evidenceDeleted (target : SessionState) :
    evidenceDeleted.canTransition target = false := rfl

end SessionState

/-- Captured milliseconds, resilient to pauses. -/
structure SessionClock where
  accumulatedMs : ℤ
  segmentStartedAt : Option ℤ
  nonneg : 0 ≤ accumulatedMs
  deriving DecidableEq

namespace SessionClock

def initial : SessionClock := ⟨0, none, MonotonicTime.zero.nonneg⟩

def isRunning (c : SessionClock) : Bool := c.segmentStartedAt.isSome

def start (c : SessionClock) (wallMs : ℤ) : SessionClock :=
  match c.segmentStartedAt with
  | some _ => c
  | none => { c with segmentStartedAt := some wallMs }

def pause (c : SessionClock) (wallMs : ℤ) : SessionClock :=
  match c.segmentStartedAt with
  | none => c
  | some startedAt =>
      ⟨c.accumulatedMs + max 0 (wallMs - startedAt), none,
        add_nonneg c.nonneg (le_max_left _ _)⟩

def now (c : SessionClock) (wallMs : ℤ) : MonotonicTime :=
  match c.segmentStartedAt with
  | none => ⟨c.accumulatedMs, c.nonneg⟩
  | some startedAt =>
      ⟨c.accumulatedMs + max 0 (wallMs - startedAt), add_nonneg c.nonneg (le_max_left _ _)⟩

def capturedMs (c : SessionClock) (wallMs : ℤ) : ℤ := (c.now wallMs).ms

end SessionClock

structure RetentionPolicy where
  policyVersion : SemanticVersion
  retainRawMedia : Bool
  rawMediaTtlSeconds : ℤ
  retainDerivedAggregates : Bool
  ttlNonneg : 0 ≤ rawMediaTtlSeconds
  ttlStated : retainRawMedia = true ↔ rawMediaTtlSeconds ≠ 0
  deriving DecidableEq

def RetentionPolicy.ephemeral (policyVersion : SemanticVersion) : RetentionPolicy :=
  ⟨policyVersion, false, 0, true, MonotonicTime.zero.nonneg, by simp⟩

structure ConsentReceipt where
  sessionId : SessionId
  policyVersion : SemanticVersion
  retention : RetentionPolicy
  grantedAtMs : ℤ
  withdrawnAtMs : Option ℤ
  grantedNonneg : 0 ≤ grantedAtMs
  withdrawnAfter : ∀ t ∈ withdrawnAtMs, grantedAtMs ≤ t
  samePolicy : retention.policyVersion = policyVersion
  deriving DecidableEq

namespace ConsentReceipt

def of (sessionId : SessionId) (policyVersion : SemanticVersion) (retention : RetentionPolicy)
    (grantedAtMs : ℤ) : Except Failure ConsentReceipt :=
  if hg : 0 ≤ grantedAtMs then
    if hp : retention.policyVersion = policyVersion then
      .ok ⟨sessionId, policyVersion, retention, grantedAtMs, none, hg, by simp, hp⟩
    else .error (.consentViolation
      ("the retention policy version must match the consented policy version; " ++
        "otherwise the receipt attests to rules the participant never saw"))
  else .error (.consentViolation "consent timestamp cannot be negative")

def isActive (r : ConsentReceipt) : Bool := r.withdrawnAtMs = none

/-- Record a withdrawal; a receipt withdrawn before keeps its first date. -/
def withdraw (r : ConsentReceipt) (atMs : ℤ) : Except Failure ConsentReceipt :=
  if r.isActive then
    if h : r.grantedAtMs ≤ atMs then
      .ok { r with
        withdrawnAtMs := some atMs
        withdrawnAfter := by simpa using h }
    else .error (.consentViolation "consent cannot be withdrawn before it was granted")
  else .ok r

def requireActive (r : ConsentReceipt) : Except Failure Unit :=
  if r.isActive then .ok ()
  else .error (.consentViolation
    (s!"consent for session {r.sessionId.value} was withdrawn; " ++
      "protected media may not be processed or retained"))

end ConsentReceipt

structure AnalysisSession where
  id : SessionId
  applicationId : ApplicationId
  tenantId : TenantId
  mode : SessionMode
  locale : String
  capabilities : NegotiatedCapabilities
  configuration : ConfigurationSnapshotId
  createdAtMs : ℤ
  state : SessionState
  clock : SessionClock
  consent : Option ConsentReceipt
  completedAtMs : Option ℤ
  deriving DecidableEq

namespace AnalysisSession

variable (s : AnalysisSession)

def withConsent (receipt : ConsentReceipt) : Except Failure AnalysisSession :=
  if receipt.sessionId = s.id then .ok { s with consent := some receipt }
  else .error (.consentViolation
    (s!"consent receipt for {receipt.sessionId.value} cannot govern session {s.id.value}"))

def requireConsentForMedia : Except Failure Unit :=
  match s.consent with
  | none => .error (.consentViolation
      (s!"session {s.id.value} has no consent receipt; " ++
        "FR-031 requires it to be recorded before protected media is accepted"))
  | some receipt => receipt.requireActive

def beginCapture (wallMs : ℤ) : Except Failure AnalysisSession := do
  s.requireConsentForMedia
  let state ← s.state.requireTransition .capturing
  return { s with state := state, clock := s.clock.start wallMs }

def pauseCapture (wallMs : ℤ) : Except Failure AnalysisSession := do
  let state ← s.state.requireTransition .paused
  return { s with state := state, clock := s.clock.pause wallMs }

def resumeCapture (wallMs : ℤ) : Except Failure AnalysisSession := do
  s.requireConsentForMedia
  let state ← s.state.requireTransition .capturing
  return { s with state := state, clock := s.clock.start wallMs }

def requestCompletion (wallMs : ℤ) : Except Failure AnalysisSession := do
  let state ← s.state.requireTransition .completing
  return { s with state := state, clock := s.clock.pause wallMs }

def markCompleted (wallMs : ℤ) : Except Failure AnalysisSession := do
  let state ← s.state.requireTransition .completed
  return { s with state := state, completedAtMs := some wallMs }

def fail (wallMs : ℤ) : Except Failure AnalysisSession := do
  let state ← s.state.requireTransition .failed
  return { s with
    state := state, clock := s.clock.pause wallMs, completedAtMs := some wallMs }

def markEvidenceDeleted (wallMs : ℤ) : Except Failure AnalysisSession := do
  let state ← s.state.requireTransition .evidenceDeleted
  let withdrawn ← s.consent.mapM (·.withdraw wallMs)
  return { s with state := state, consent := withdrawn }

/-- Where the session clock stands at a wall reading. -/
def position (wallMs : ℤ) : MonotonicTime := s.clock.now wallMs

def capturedMs (wallMs : ℤ) : ℤ := s.clock.capturedMs wallMs

/-- The session takes media: it is capturing under a live consent. -/
def permitsMedia : Bool :=
  s.state.acceptsMedia && s.consent.any (·.isActive)

def SameIdentity (t : AnalysisSession) : Prop :=
  t.id = s.id ∧ t.applicationId = s.applicationId ∧ t.tenantId = s.tenantId ∧ t.mode = s.mode ∧
    t.locale = s.locale ∧ t.capabilities = s.capabilities ∧ t.configuration = s.configuration ∧
    t.createdAtMs = s.createdAtMs

variable {s} {wallMs : ℤ} {t : AnalysisSession}

theorem SameIdentity.trans {u : AnalysisSession} (h : s.SameIdentity t) (h' : t.SameIdentity u) :
    s.SameIdentity u := by
  unfold SameIdentity at *
  grind

theorem beginCapture_eq_ok (h : s.beginCapture wallMs = .ok t) :
    t.state = .capturing ∧ s.state.canTransition .capturing = true ∧ s.SameIdentity t := by
  obtain ⟨-, -, h⟩ := Except.bind_eq_ok.1 h
  obtain ⟨state, hs, h⟩ := Except.bind_eq_ok.1 h
  obtain ⟨rfl, hc⟩ := SessionState.requireTransition_eq_ok hs
  cases h
  exact ⟨rfl, hc, rfl, rfl, rfl, rfl, rfl, rfl, rfl, rfl⟩

theorem resumeCapture_eq_ok (h : s.resumeCapture wallMs = .ok t) :
    t.state = .capturing ∧ s.state.canTransition .capturing = true ∧ s.SameIdentity t :=
  beginCapture_eq_ok h

theorem pauseCapture_eq_ok (h : s.pauseCapture wallMs = .ok t) :
    t.state = .paused ∧ s.state.canTransition .paused = true ∧ s.SameIdentity t := by
  obtain ⟨state, hs, h⟩ := Except.bind_eq_ok.1 h
  obtain ⟨rfl, hc⟩ := SessionState.requireTransition_eq_ok hs
  cases h
  exact ⟨rfl, hc, rfl, rfl, rfl, rfl, rfl, rfl, rfl, rfl⟩

theorem requestCompletion_eq_ok (h : s.requestCompletion wallMs = .ok t) :
    t.state = .completing ∧ s.state.canTransition .completing = true ∧ s.SameIdentity t := by
  obtain ⟨state, hs, h⟩ := Except.bind_eq_ok.1 h
  obtain ⟨rfl, hc⟩ := SessionState.requireTransition_eq_ok hs
  cases h
  exact ⟨rfl, hc, rfl, rfl, rfl, rfl, rfl, rfl, rfl, rfl⟩

theorem markCompleted_eq_ok (h : s.markCompleted wallMs = .ok t) :
    t.state = .completed ∧ s.state.canTransition .completed = true ∧ s.SameIdentity t := by
  obtain ⟨state, hs, h⟩ := Except.bind_eq_ok.1 h
  obtain ⟨rfl, hc⟩ := SessionState.requireTransition_eq_ok hs
  cases h
  exact ⟨rfl, hc, rfl, rfl, rfl, rfl, rfl, rfl, rfl, rfl⟩

theorem markEvidenceDeleted_eq_ok (h : s.markEvidenceDeleted wallMs = .ok t) :
    t.state = .evidenceDeleted ∧ s.state.deletable = true ∧ s.SameIdentity t := by
  obtain ⟨state, hs, h⟩ := Except.bind_eq_ok.1 h
  obtain ⟨rfl, hc⟩ := SessionState.requireTransition_eq_ok hs
  obtain ⟨withdrawn, -, h⟩ := Except.bind_eq_ok.1 h
  cases h
  exact ⟨rfl, hc, rfl, rfl, rfl, rfl, rfl, rfl, rfl, rfl⟩

variable (wallMs) in
theorem requestCompletion_isOk (h : s.state.canTransition .completing = true) :
    ∃ t, s.requestCompletion wallMs = .ok t := by
  unfold requestCompletion SessionState.requireTransition
  rw [if_pos h]
  exact ⟨_, rfl⟩

variable (wallMs) in
theorem markCompleted_isOk (h : s.state = .completing) : ∃ t, s.markCompleted wallMs = .ok t := by
  unfold markCompleted SessionState.requireTransition
  rw [h]
  exact ⟨_, rfl⟩

theorem markEvidenceDeleted_isOk_iff :
    (∃ t, s.markEvidenceDeleted wallMs = .ok t) ↔
      s.state.deletable = true ∧
        ∀ r ∈ s.consent, r.isActive = true → r.grantedAtMs ≤ wallMs := by
  unfold markEvidenceDeleted SessionState.requireTransition SessionState.deletable
  by_cases hc : s.state.canTransition .evidenceDeleted = true
  · cases hs : s.consent with
    | none => simp [hc, bind, Except.bind, pure, Except.pure]
    | some r =>
        by_cases ha : r.isActive = true
        · by_cases hg : r.grantedAtMs ≤ wallMs <;>
            simp [hc, ha, hg, ConsentReceipt.withdraw, bind, Except.bind, Functor.map, Except.map,
              pure, Except.pure]
        · simp [hc, ha, ConsentReceipt.withdraw, bind, Except.bind, Functor.map, Except.map,
            pure, Except.pure]
  · simp [hc, bind, Except.bind]

end AnalysisSession

end OratoriaEngine
