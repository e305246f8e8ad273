import OratoriaEngine.DeletionAtomicity
import Mathlib.Data.List.Infix

/-!
# What a deletion says it deleted

A deletion revokes the links of the session, then deletes its media and counts them. In memory
the links are revoked by forgetting them. On S3 a link cannot be revoked, so the objects are
deleted instead, and the count is taken of what is left.
-/

namespace OratoriaEngine

open Program

/-- An object of the bucket: whom it was put for, and its name under the session. -/
structure S3Object where
  tenant : TenantId
  sessionId : SessionId
  ref : String

def keyStem (tenant : TenantId) (sessionId : SessionId) : String :=
  tenant.value ++ "/" ++ sessionId.value ++ "/"

def S3Object.key (object : S3Object) : String :=
  keyStem object.tenant object.sessionId ++ object.ref

def startsWith (stem key : String) : Bool := decide (stem.toList <+: key.toList)

/-- The objects of the bucket, each under its own key. -/
structure S3Bucket where
  objects : Dict String S3Object
  keyed : ∀ key object, objects.get? key = some object → key = object.key

/-- How the service pages the listing of a stem: every key once, in pages of any length. -/
structure S3Listing where
  pages : List String → String → List (List String)
  complete : ∀ keys stem, (pages keys stem).flatten.Perm (keys.filter (startsWith stem))

def maxDeleteKeys : ℕ := 1000

namespace S3Bucket

variable (listing : S3Listing) (bucket : S3Bucket) (tenant : TenantId) (sessionId : SessionId)

def restrict (p : String → S3Object → Bool) : S3Bucket where
  objects := bucket.objects.filter p
  keyed := by
    intro key object h
    rw [Dict.get?_filter] at h
    exact bucket.keyed key object (Option.filter_eq_some_iff.1 h).1

def deleteObjects (keys : List String) : Except Failure Unit × S3Bucket :=
  if keys.length ≤ maxDeleteKeys then (.ok (), bucket.restrict fun key _ => key ∉ keys)
  else (.error (.foreign "ClientError" "MalformedXML"), bucket)

def listKeys : List String :=
  (listing.pages bucket.objects.keys (keyStem tenant sessionId)).flatten

def deleteForSession : Except Failure ℤ × S3Bucket :=
  let keys := bucket.listKeys listing tenant sessionId
  if keys = [] then (.ok 0, bucket)
  else
    match bucket.deleteObjects keys with
    | (.ok _, rest) => (.ok keys.length, rest)
    | (.error e, rest) => (.error e, rest)

def revokeSignatures : Except Failure Unit × S3Bucket :=
  match bucket.deleteForSession listing tenant sessionId with
  | (.ok _, rest) => (.ok (), rest)
  | (.error e, rest) => (.error e, rest)

end S3Bucket

namespace S3Bucket

variable {listing : S3Listing} {bucket rest : S3Bucket} {tenant : TenantId}
  {sessionId : SessionId}

def isUnder (tenant : TenantId) (sessionId : SessionId) (key : String) (_object : S3Object) :
    Bool := startsWith (keyStem tenant sessionId) key

/-- No key of the bucket lies under the stem of the session. -/
def NoneUnder (bucket : S3Bucket) (tenant : TenantId) (sessionId : SessionId) : Prop :=
  ∀ key object, bucket.objects.get? key = some object → isUnder tenant sessionId key object = false

variable (listing)

theorem mem_listKeys_iff {key : String} :
    key ∈ bucket.listKeys listing tenant sessionId ↔
      key ∈ bucket.objects.keys ∧ startsWith (keyStem tenant sessionId) key = true :=
  (listing.complete _ _).mem_iff.trans List.mem_filter

theorem length_listKeys (bucket : S3Bucket) (tenant : TenantId) (sessionId : SessionId) :
    (bucket.listKeys listing tenant sessionId).length =
      (bucket.objects.filter (isUnder tenant sessionId)).entries.length := by
  rw [listKeys, (listing.complete _ _).length_eq, Dict.keys, List.filter_map, List.length_map]
  rfl

theorem listKeys_eq_nil_iff :
    bucket.listKeys listing tenant sessionId = [] ↔ bucket.NoneUnder tenant sessionId := by
  constructor
  · intro h key object hget
    by_contra hunder
    have hkey : key ∈ bucket.objects.keys :=
      List.mem_map_of_mem ((bucket.objects.get?_eq_some_iff_mem key object).1 hget)
    have hmem := (mem_listKeys_iff listing).2 ⟨hkey, by simpa [isUnder] using hunder⟩
    rw [h] at hmem
    cases hmem
  · intro h
    apply List.eq_nil_iff_forall_not_mem.2
    intro key hmem
    obtain ⟨hkey, hunder⟩ := (mem_listKeys_iff listing).1 hmem
    obtain ⟨⟨_, object⟩, hentry, rfl⟩ := List.mem_map.1 hkey
    have hnot := h _ object ((bucket.objects.get?_eq_some_iff_mem _ object).2 hentry)
    rw [isUnder, hunder] at hnot
    cases hnot

theorem noneUnder_iff :
    bucket.NoneUnder tenant sessionId ↔
      (bucket.objects.filter fun key object => !isUnder tenant sessionId key object) =
        bucket.objects := by
  simp only [NoneUnder, Dict.filter_eq_self_iff, Bool.not_eq_true']

theorem deleteForSession_eq_ok {n : ℤ}
    (h : bucket.deleteForSession listing tenant sessionId = (.ok n, rest)) :
    n = (bucket.objects.filter (isUnder tenant sessionId)).entries.length ∧
      rest.objects =
        bucket.objects.filter fun key object => !isUnder tenant sessionId key object := by
  have hlength := length_listKeys listing bucket tenant sessionId
  unfold deleteForSession at h
  dsimp only at h
  split_ifs at h with hnil
  · cases h
    rw [hnil] at hlength
    have hnone := (listKeys_eq_nil_iff listing).1 hnil
    exact ⟨congrArg Nat.cast hlength, (noneUnder_iff.1 hnone).symm⟩
  · unfold deleteObjects at h
    split_ifs at h with hmany
    · cases h
      refine ⟨congrArg Nat.cast hlength, Dict.ext (List.filter_congr ?_)⟩
      intro entry hentry
      have hkey : entry.1 ∈ bucket.objects.keys := List.mem_map_of_mem hentry
      have hlisted : entry.1 ∈ bucket.listKeys listing tenant sessionId ↔
          isUnder tenant sessionId entry.1 entry.2 = true :=
        (mem_listKeys_iff listing).trans (and_iff_right hkey)
      simp only [hlisted]
      cases isUnder tenant sessionId entry.1 entry.2 <;> rfl
    · cases h

theorem revokeSignatures_eq_ok
    (h : bucket.revokeSignatures listing tenant sessionId = (.ok (), rest)) :
    rest.objects =
      bucket.objects.filter fun key object => !isUnder tenant sessionId key object := by
  unfold revokeSignatures at h
  rcases hdelete : bucket.deleteForSession listing tenant sessionId with ⟨e | n, left⟩
  · rw [hdelete] at h
    cases h
  · rw [hdelete] at h
    cases h
    exact (deleteForSession_eq_ok listing hdelete).2

theorem deleted_of_revoked {left : S3Bucket} {n : ℤ}
    (hrevoked : bucket.revokeSignatures listing tenant sessionId = (.ok (), rest))
    (hdeleted : rest.deleteForSession listing tenant sessionId = (.ok n, left)) :
    n = 0 ∧ left.objects =
      bucket.objects.filter fun key object => !isUnder tenant sessionId key object := by
  have hrest := revokeSignatures_eq_ok listing hrevoked
  obtain ⟨hn, hleft⟩ := deleteForSession_eq_ok listing hdeleted
  have hnone : (rest.objects.filter fun key object => !isUnder tenant sessionId key object) =
      rest.objects := by
    rw [hrest]
    exact Dict.filter_filter_of_imp _ _ _ fun _ _ h => h
  have hzero := (Dict.length_filter_eq_zero_iff rest.objects _).2 hnone
  exact ⟨hn.trans (congrArg Nat.cast hzero), hleft.trans (hnone.trans hrest)⟩

/-- The object was put for the session. -/
def isStoredFor (tenant : TenantId) (sessionId : SessionId) (_key : String) (object : S3Object) :
    Bool := object.tenant = tenant && object.sessionId = sessionId

/-- The bucket holds nothing that was put for the session. -/
def NoneStored (bucket : S3Bucket) (tenant : TenantId) (sessionId : SessionId) : Prop :=
  ∀ key object, bucket.objects.get? key = some object →
    isStoredFor tenant sessionId key object = false

theorem isUnder_of_isStoredFor {key : String} {object : S3Object}
    (hget : bucket.objects.get? key = some object)
    (h : isStoredFor tenant sessionId key object = true) :
    isUnder tenant sessionId key object = true := by
  simp only [isStoredFor, Bool.and_eq_true, decide_eq_true_eq] at h
  obtain ⟨rfl, rfl⟩ := h
  rw [bucket.keyed key object hget, isUnder, startsWith, S3Object.key, String.toList_append]
  exact decide_eq_true (List.prefix_append _ _)

end S3Bucket

/-- The use cases on the S3 adapter; everything but the media stays in memory. -/
def onS3 (listing : S3Listing) : Ports Port Port.Answer Failure (World × S3Bucket)
  | .mediaRevokeSignatures tenant sessionId, (w, bucket) =>
      let revoked := bucket.revokeSignatures listing tenant sessionId
      (revoked.1, w, revoked.2)
  | .mediaDeleteForSession tenant sessionId, (w, bucket) =>
      let deleted := bucket.deleteForSession listing tenant sessionId
      (deleted.1, w, deleted.2)
  | o, (w, bucket) => ((inMemory o w).1, (inMemory o w).2, bucket)

namespace DeleteEvidence

variable {caller : AuthenticatedCaller} {sessionId : SessionId} {nowMs : ℤ} {W : Type}
  {ports : Ports Port Port.Answer Failure W} {fault : FaultPlan Failure}

def deletionRecord (caller : AuthenticatedCaller) (sessionId : SessionId) (nowMs : ℤ)
    (mediaDeleted evidenceDeleted : ℤ) : AuditRecord where
  actor := caller.application.value
  action := "evidence.delete"
  resource := sessionId.value
  timestampMs := nowMs
  traceId := caller.traceId
  outcome := "deleted"
  tenant := some caller.tenant
  detail := s!"media_objects={mediaDeleted} evidence_records={evidenceDeleted}"

/-- The calls of a deletion that is carried out, and the worlds between them. -/
structure Erases (ports : Ports Port Port.Answer Failure W) (caller : AuthenticatedCaller)
    (sessionId : SessionId) (nowMs : ℤ) (deleted : AnalysisSession) (w w' : W)
    (receipt : DeletionReceipt) : Prop where
  calls : ∃ (n k : ℤ) (w₁ w₂ w₃ w₄ w₅ : W),
    ports (.mediaRevokeSignatures caller.tenant sessionId) w = (.ok (), w₁) ∧
    ports (.mediaDeleteForSession caller.tenant sessionId) w₁ = (.ok n, w₂) ∧
    ports (.evidenceDeleteForSession caller.tenant sessionId) w₂ = (.ok k, w₃) ∧
    ports (.streamStateClear sessionId) w₃ = (.ok (), w₄) ∧
    ports (.sessionsSave deleted) w₄ = (.ok (), w₅) ∧
    ports (.auditRecord (deletionRecord caller sessionId nowMs n k)) w₅ = (.ok (), w') ∧
    receipt = ⟨sessionId, n, k, false⟩

theorem erases_of_erase {session : AnalysisSession} {w w' : W} {receipt : DeletionReceipt} {n : ℕ}
    (h : (erase caller sessionId nowMs session).run ports fault n w = (.ok receipt, w')) :
    ∃ deleted, Erases ports caller sessionId nowMs deleted w w' receipt := by
  obtain ⟨_, w₁, hrevoke, h⟩ := run_port_bind_eq_ok h
  obtain ⟨media, w₂, hmedia, h⟩ := run_port_bind_eq_ok h
  obtain ⟨evidence, w₃, hevidence, h⟩ := run_port_bind_eq_ok h
  obtain ⟨_, w₄, hclear, h⟩ := run_port_bind_eq_ok h
  obtain ⟨deleted, -, h⟩ := run_ofExcept_bind_eq_ok h
  obtain ⟨_, w₅, hsave, h⟩ := run_port_bind_eq_ok h
  obtain ⟨_, w₆, haudit, h⟩ := run_port_bind_eq_ok h
  cases h
  exact ⟨deleted, ⟨media, evidence, w₁, w₂, w₃, w₄, w₅, hrevoke, hmedia, hevidence, hclear, hsave,
    haudit, rfl⟩⟩

theorem execute_eq_ok {w w' : W} {receipt : DeletionReceipt}
    (h : (execute caller sessionId nowMs).run ports fault 0 w = (.ok receipt, w')) :
    ∃ session u, ports (.sessionsGet caller.tenant sessionId) w = (.ok (some session), u) ∧
      if session.state = .evidenceDeleted then receipt = ⟨sessionId, 0, 0, true⟩ ∧ w' = u
      else ∃ deleted, Erases ports caller sessionId nowMs deleted u w' receipt := by
  unfold execute Command.requireScope at h
  split_ifs at h
  · obtain ⟨found, u, hget, h⟩ := run_port_bind_eq_ok (by
      rwa [Program.pure_eq, Program.done_ok_bind, Command.resolve, Program.bind_assoc] at h)
    cases found with
    | none => cases h
    | some session =>
        refine ⟨session, u, hget, ?_⟩
        change (if session.state = .evidenceDeleted then pure ⟨sessionId, 0, 0, true⟩
          else erase caller sessionId nowMs session).run ports fault 1 u = _ at h
        split_ifs at h ⊢ with hstate
        · cases h
          exact ⟨rfl, rfl⟩
        · exact erases_of_erase h
  · cases h

/-- The receipt and the audit count the session's part of the media, and that part is gone and
nothing else is. -/
structure Attests {κ ν : Type} (own : κ → ν → Bool) (before after : Dict κ ν)
    (receipt : DeletionReceipt) (audit audit' : List AuditRecord) : Prop where
  counted : receipt.mediaObjectsDeleted = (before.filter own).entries.length
  audited : ∃ entries, audit' = audit ++ entries ∧ ∀ entry ∈ entries, ∃ evidence : ℤ,
    entry.detail =
      s!"media_objects={((before.filter own).entries.length : ℤ)} evidence_records={evidence}"
  erased : after = before.filter fun key object => !own key object

/-- The session was deleted before. -/
def AlreadyDeleted (caller : AuthenticatedCaller) (sessionId : SessionId) (w : World) : Prop :=
  ∃ session, w.session? caller.tenant sessionId = some session ∧
    session.state = .evidenceDeleted

theorem attests_of_erases_inMemory {deleted : AnalysisSession} {w w' : World}
    {receipt : DeletionReceipt}
    (h : Erases inMemory caller sessionId nowMs deleted w w' receipt) :
    Attests (World.isMediaOf caller.tenant sessionId) w.media w'.media receipt w.audit
      w'.audit := by
  obtain ⟨n, k, w₁, w₂, w₃, w₄, w₅, hrevoke, hmedia, hevidence, hclear, hsave, haudit, rfl⟩ := h
  cases hrevoke
  cases hmedia
  cases hclear
  cases hsave
  cases haudit
  have hw₃ := congrArg Prod.snd hevidence
  change (World.deleteEvidenceForSession _ caller.tenant sessionId).2 = w₃ at hw₃
  rw [World.deleteEvidenceForSession_snd] at hw₃
  have hcount := Dict.length_sub_length_filter_not w.media
    (World.isMediaOf caller.tenant sessionId)
  subst hw₃
  refine ⟨hcount, ⟨[_], rfl, fun entry hentry => ⟨k, ?_⟩⟩, rfl⟩
  rw [List.mem_singleton.1 hentry, ← hcount]
  rfl

theorem attests_of_alreadyDeleted_iff {κ ν : Type} [DecidableEq κ] (own : κ → ν → Bool)
    (media : Dict κ ν) (audit : List AuditRecord) :
    Attests own media media ⟨sessionId, 0, 0, true⟩ audit audit ↔
      ∀ key object, media.get? key = some object → own key object = false := by
  have hkept : (media.filter fun key object => !own key object) = media ↔
      ∀ key object, media.get? key = some object → own key object = false := by
    simp only [Dict.filter_eq_self_iff, Bool.not_eq_true']
  rw [← hkept]
  constructor
  · intro h
    exact h.erased.symm
  · intro h
    have hcount := Dict.length_sub_length_filter_not media own
    rw [h, sub_self] at hcount
    exact ⟨hcount, ⟨[], (List.append_nil _).symm, fun _ hentry => (nomatch hentry)⟩, h.symm⟩

/-- On S3 a deletion that is carried out counts nothing, so it attests what it did exactly when
nothing lies under the stem of the session. -/
theorem attests_of_erases_onS3_iff {listing : S3Listing} {deleted : AnalysisSession}
    {w w' : World} {bucket bucket' : S3Bucket} {receipt : DeletionReceipt}
    (h : Erases (onS3 listing) caller sessionId nowMs deleted (w, bucket) (w', bucket') receipt) :
    Attests (S3Bucket.isStoredFor caller.tenant sessionId) bucket.objects bucket'.objects receipt
        w.audit w'.audit ↔ bucket.NoneUnder caller.tenant sessionId := by
  obtain ⟨n, k, ⟨w₁, b₁⟩, ⟨w₂, b₂⟩, ⟨w₃, b₃⟩, ⟨w₄, b₄⟩, ⟨w₅, b₅⟩, hrevoke, hmedia, hevidence,
    hclear, hsave, haudit, rfl⟩ := h
  have hrevoked : bucket.revokeSignatures listing caller.tenant sessionId = (.ok (), b₁) :=
    Prod.ext (congrArg (·.1) hrevoke) (congrArg (·.2.2) hrevoke)
  have hdeleted : b₁.deleteForSession listing caller.tenant sessionId = (.ok n, b₂) :=
    Prod.ext (congrArg (·.1) hmedia) (congrArg (·.2.2) hmedia)
  obtain ⟨rfl, herased⟩ := S3Bucket.deleted_of_revoked listing hrevoked hdeleted
  have hworld : w₂ = w := (congrArg (·.2.1) hmedia).symm.trans (congrArg (·.2.1) hrevoke).symm
  have hbucket : b₃ = b₂ := (congrArg (·.2.2) hevidence).symm
  have hw₃ : w₃.audit = w.audit := by
    have hsnd : (World.deleteEvidenceForSession w₂ caller.tenant sessionId).2 = w₃ :=
      congrArg (·.2.1) hevidence
    rw [← hsnd, World.deleteEvidenceForSession_snd, hworld]
  cases hclear
  cases hsave
  cases haudit
  rw [hbucket, S3Bucket.noneUnder_iff]
  constructor
  · intro h
    have hzero := Int.ofNat_eq_zero.1 h.counted.symm
    have hnone := (Dict.length_filter_eq_zero_iff bucket.objects _).1 hzero
    exact herased.symm.trans (h.erased.trans hnone)
  · intro h
    have hown : ∀ key object, bucket.objects.get? key = some object →
        S3Bucket.isStoredFor caller.tenant sessionId key object = false := by
      intro key object hget
      have hunder := S3Bucket.noneUnder_iff.2 h key object hget
      by_contra hstored
      rw [S3Bucket.isUnder_of_isStoredFor hget (by simpa using hstored)] at hunder
      cases hunder
    have hkept : (bucket.objects.filter fun key object =>
        !S3Bucket.isStoredFor caller.tenant sessionId key object) = bucket.objects := by
      simpa only [Dict.filter_eq_self_iff, Bool.not_eq_true'] using hown
    have hzero := (Dict.length_filter_eq_zero_iff bucket.objects _).2 hkept
    refine ⟨by rw [hzero]; rfl, ⟨[_], congrArg (· ++ [_]) hw₃, fun entry hentry => ⟨k, ?_⟩⟩, ?_⟩
    · rw [List.mem_singleton.1 hentry, hzero]
      rfl
    · rw [herased, h, hkept]

theorem alreadyDeleted_iff {w : World} {session : AnalysisSession}
    (hfound : w.session? caller.tenant sessionId = some session) :
    AlreadyDeleted caller sessionId w ↔ session.state = .evidenceDeleted := by
  constructor
  · rintro ⟨other, hother, hstate⟩
    rw [hfound] at hother
    cases hother
    exact hstate
  · exact fun hstate => ⟨session, hfound, hstate⟩

/-- In memory the receipt is right but for a session that was deleted before and has media again.
On S3 it is right exactly when there was nothing to delete: nothing under the stem of the session
or, where it was deleted before, nothing of its own. -/
theorem attests_iff (caller : AuthenticatedCaller) (sessionId : SessionId) (nowMs : ℤ)
    (fault : FaultPlan Failure) :
    (∀ w w' receipt,
      (execute caller sessionId nowMs).run inMemory fault 0 w = (.ok receipt, w') →
        (Attests (World.isMediaOf caller.tenant sessionId) w.media w'.media receipt
            w.audit w'.audit ↔
          (AlreadyDeleted caller sessionId w → w.NoMedia caller.tenant sessionId))) ∧
    ∀ listing w w' bucket bucket' receipt,
      (execute caller sessionId nowMs).run (onS3 listing) fault 0 (w, bucket) =
        (.ok receipt, w', bucket') →
          (Attests (S3Bucket.isStoredFor caller.tenant sessionId) bucket.objects bucket'.objects
              receipt w.audit w'.audit ↔
            (AlreadyDeleted caller sessionId w → bucket.NoneStored caller.tenant sessionId) ∧
            (¬AlreadyDeleted caller sessionId w →
              bucket.NoneUnder caller.tenant sessionId)) := by
  constructor
  · intro w w' receipt h
    obtain ⟨session, u, hget, hcourse⟩ := execute_eq_ok h
    have hfound : w.session? caller.tenant sessionId = some session :=
      Except.ok.inj (congrArg (·.1) hget)
    obtain rfl : u = w := (congrArg (·.2) hget).symm
    rw [alreadyDeleted_iff hfound]
    split_ifs at hcourse with hstate
    · obtain ⟨rfl, rfl⟩ := hcourse
      simp only [hstate, true_implies]
      exact attests_of_alreadyDeleted_iff _ _ _
    · obtain ⟨deleted, herases⟩ := hcourse
      exact iff_of_true (attests_of_erases_inMemory herases) fun hdeleted => absurd hdeleted hstate
  · intro listing w w' bucket bucket' receipt h
    obtain ⟨session, ⟨u, left⟩, hget, hcourse⟩ := execute_eq_ok h
    have hfound : w.session? caller.tenant sessionId = some session :=
      Except.ok.inj (congrArg (·.1) hget)
    obtain rfl : u = w := (congrArg (·.2.1) hget).symm
    obtain rfl : left = bucket := (congrArg (·.2.2) hget).symm
    rw [alreadyDeleted_iff hfound]
    split_ifs at hcourse with hstate
    · obtain ⟨rfl, hsame⟩ := hcourse
      cases hsame
      simp only [hstate, true_implies, not_true_eq_false, false_implies, and_true]
      exact attests_of_alreadyDeleted_iff _ _ _
    · obtain ⟨deleted, herases⟩ := hcourse
      simp only [hstate, false_implies, true_and, not_false_eq_true, true_implies]
      exact attests_of_erases_onS3_iff herases

def onePage : S3Listing where
  pages keys stem := [keys.filter (startsWith stem)]
  complete keys stem := by
    rw [List.flatten_singleton]

def recording : S3Object := ⟨studyTenant, studySessionId, "audio-0"⟩

def recordingBucket : S3Bucket where
  objects := Dict.empty.set recording.key recording
  keyed := by
    intro key object h
    rw [Dict.get?_set] at h
    split_ifs at h with hkey
    · cases h
      exact hkey
    · cases h

/-- The deletion of a session with one recording says that it deleted none. -/
theorem not_attests_recording :
    ∃ w' bucket', (execute operator studySessionId 1000).run (onS3 onePage) noFault 0
        (study .completed, recordingBucket) = (.ok ⟨studySessionId, 0, 0, false⟩, w', bucket') ∧
      ¬Attests (S3Bucket.isStoredFor studyTenant studySessionId) recordingBucket.objects
        bucket'.objects ⟨studySessionId, 0, 0, false⟩ (study .completed).audit w'.audit := by
  refine ⟨_, _, rfl, ?_⟩
  intro h
  exact absurd h.counted (by decide +kernel)

/-- A session without media has its deletion attested. -/
theorem attests_iff_study :
    ∃ receipt w' bucket', (execute operator studySessionId 1000).run (onS3 onePage) noFault 0
        (study .completed, ⟨.empty, fun _ _ h => (nomatch h)⟩) = (.ok receipt, w', bucket') ∧
      Attests (S3Bucket.isStoredFor studyTenant studySessionId) Dict.empty bucket'.objects receipt
        (study .completed).audit w'.audit := by
  refine ⟨_, _, _, rfl, ?_⟩
  exact ((attests_iff operator studySessionId 1000 noFault).2 onePage (study .completed) _
    ⟨.empty, fun _ _ h => (nomatch h)⟩ _ _ rfl).2
      ⟨fun _ _ _ h => (nomatch h), fun _ _ _ h => (nomatch h)⟩

end DeleteEvidence

end OratoriaEngine
