import OratoriaEngine.MediaAgreement
import OratoriaEngine.Lib.Runs

/-!
# How long an object can be opened

An object can be opened from the call that puts it until its deadline, or until a call replaces
it, deletes it or deletes what its session has. Nothing else brings it back or takes it away.
-/

namespace OratoriaEngine

namespace InMemoryMediaStore

variable (digest : MediaDigest) (tenant : TenantId) (ref : EvidenceRef) (sessionId : SessionId)
  (payload : List UInt8)

/-- The store has the bytes of the session under the reference, and their deadline is ahead. -/
def Holds (nowMs : ℤ) (store : InMemoryMediaStore) : Prop :=
  ∃ entry, store.objects.get? (tenant.value, ref.value) = some entry ∧
    entry.stored.sessionId = sessionId ∧ entry.payload = payload ∧
      nowMs < entry.stored.expiresAtMs

/-- The call puts the bytes of the session under the reference, with a deadline ahead. -/
def Puts (nowMs : ℤ) (call : MediaCall) : Prop :=
  ∃ kind contentType expiresAtMs,
    call = .put tenant sessionId kind contentType payload expiresAtMs ∧
      mediaRef digest kind sessionId payload = ref ∧ nowMs < expiresAtMs

/-- The call puts something under the reference, or deletes what is under it or of its session. -/
def Touches : MediaCall → Prop
  | .put tenant' sessionId' kind _ payload' _ =>
      tenant' = tenant ∧ mediaRef digest kind sessionId' payload' = ref
  | .delete tenant' ref' => tenant' = tenant ∧ ref' = ref
  | .deleteForSession tenant' sessionId' => tenant' = tenant ∧ sessionId' = sessionId
  | .open _ _ | .exists _ _ => False

theorem EvidenceRef.ext_value {a b : EvidenceRef} (h : a.value = b.value) : a = b := by
  cases a
  cases b
  exact congrArg EvidenceRef.mk (Identifier.ext_value h)

variable {digest tenant ref sessionId payload} {store : InMemoryMediaStore} {nowMs : ℤ}

theorem key_eq_iff {tenant' : TenantId} {ref' : EvidenceRef} :
    (tenant.value, ref.value) = (tenant'.value, ref'.value) ↔ tenant' = tenant ∧ ref' = ref := by
  rw [Prod.mk.injEq]
  constructor
  · exact fun h => ⟨TenantId.ext_value h.1.symm, EvidenceRef.ext_value h.2.symm⟩
  · rintro ⟨rfl, rfl⟩
    exact ⟨rfl, rfl⟩

theorem holds_put_iff {tenant' : TenantId} {sessionId' : SessionId} {kind : MediaKind}
    {contentType : String} {payload' : List UInt8} {expiresAtMs : ℤ} :
    Holds tenant ref sessionId payload nowMs
        (put digest store tenant' sessionId' kind contentType payload' expiresAtMs).2 ↔
      Puts digest tenant ref sessionId payload nowMs
          (.put tenant' sessionId' kind contentType payload' expiresAtMs) ∨
        ¬Touches digest tenant ref sessionId
            (.put tenant' sessionId' kind contentType payload' expiresAtMs) ∧
          Holds tenant ref sessionId payload nowMs store := by
  have hget : (put digest store tenant' sessionId' kind contentType payload'
      expiresAtMs).2.objects.get? (tenant.value, ref.value) =
        if (tenant.value, ref.value) =
            (tenant'.value, (mediaRef digest kind sessionId' payload').value) then
          some ⟨storedMedia digest tenant' sessionId' kind contentType payload' expiresAtMs,
            payload'⟩
        else store.objects.get? (tenant.value, ref.value) := Dict.get?_set _ _ _ _
  rw [Holds, hget]
  by_cases hkey : tenant' = tenant ∧ mediaRef digest kind sessionId' payload' = ref
  · rw [if_pos (key_eq_iff.2 hkey), or_iff_left (fun h => h.1 hkey)]
    obtain ⟨rfl, rfl⟩ := hkey
    constructor
    · rintro ⟨entry, hentry, rfl, rfl, hlive⟩
      cases hentry
      exact ⟨kind, contentType, expiresAtMs, rfl, rfl, hlive⟩
    · rintro ⟨kind', contentType', expiresAtMs', hcall, -, hlive⟩
      cases hcall
      exact ⟨_, rfl, rfl, rfl, hlive⟩
  · rw [if_neg (fun heq => hkey (key_eq_iff.1 heq)), or_iff_right]
    · exact (and_iff_right hkey).symm
    · rintro ⟨kind', contentType', expiresAtMs', hcall, href, -⟩
      cases hcall
      exact hkey ⟨rfl, href⟩

theorem holds_live_iff {atMs : ℤ} (hle : atMs ≤ nowMs) (tenant' : TenantId) (ref' : EvidenceRef) :
    Holds tenant ref sessionId payload nowMs (live atMs store tenant' ref').2 ↔
      Holds tenant ref sessionId payload nowMs store := by
  unfold live
  cases hget : store.objects.get? (tenant'.value, ref'.value) with
  | none => exact Iff.rfl
  | some found =>
      by_cases hexpired : found.stored.expiresAtMs ≤ atMs
      · simp only [expired, hexpired, decide_true, if_true]
        unfold Holds
        by_cases hkey : (tenant.value, ref.value) = (tenant'.value, ref'.value)
        · dsimp only
          rw [hkey, Dict.get?_erase_self, hget]
          refine iff_of_false ?_ ?_
          · rintro ⟨entry, hentry, -⟩
            cases hentry
          · rintro ⟨entry, hentry, -, -, hlive⟩
            cases hentry
            omega
        · dsimp only
          rw [Dict.get?_erase_ne _ hkey]
      · simp only [expired, hexpired, decide_false, Bool.false_eq_true, if_false]

theorem holds_delete_iff {tenant' : TenantId} {ref' : EvidenceRef} :
    Holds tenant ref sessionId payload nowMs (store.delete tenant' ref').2 ↔
      ¬(tenant' = tenant ∧ ref' = ref) ∧ Holds tenant ref sessionId payload nowMs store := by
  unfold Holds delete
  dsimp only
  by_cases hkey : tenant' = tenant ∧ ref' = ref
  · obtain ⟨rfl, rfl⟩ := hkey
    rw [Dict.get?_erase_self]
    exact iff_of_false (fun ⟨_, h, _⟩ => nomatch h) fun h => h.1 ⟨rfl, rfl⟩
  · rw [Dict.get?_erase_ne _ (fun heq => hkey (key_eq_iff.1 heq)), and_iff_right hkey]

theorem holds_deleteForSession_iff {tenant' : TenantId} {sessionId' : SessionId} :
    Holds tenant ref sessionId payload nowMs (store.deleteForSession tenant' sessionId').2 ↔
      ¬(tenant' = tenant ∧ sessionId' = sessionId) ∧
        Holds tenant ref sessionId payload nowMs store := by
  unfold Holds deleteForSession
  dsimp only
  constructor
  · rintro ⟨entry, hentry, rfl, rfl, hlive⟩
    rw [Dict.get?_filter] at hentry
    obtain ⟨hget, hother⟩ := Option.filter_eq_some_iff.1 hentry
    refine ⟨?_, entry, hget, rfl, rfl, hlive⟩
    rintro ⟨rfl, rfl⟩
    simp [isOf] at hother
  · rintro ⟨hother, entry, hget, rfl, rfl, hlive⟩
    refine ⟨entry, ?_, rfl, rfl, hlive⟩
    rw [Dict.get?_filter, hget, Option.filter_eq_some_iff]
    refine ⟨rfl, ?_⟩
    rw [isOf, Bool.not_eq_true', ← Bool.not_eq_true]
    simp only [Bool.and_eq_true, decide_eq_true_eq]
    exact fun heq => hother ⟨TenantId.ext_value heq.1.symm, heq.2.symm⟩

theorem holds_next_iff {c : TimedCall} (hle : c.nowMs ≤ nowMs) :
    Holds tenant ref sessionId payload nowMs (next digest store c) ↔
      Puts digest tenant ref sessionId payload nowMs c.call ∨
        ¬Touches digest tenant ref sessionId c.call ∧
          Holds tenant ref sessionId payload nowMs store := by
  obtain ⟨atMs, call⟩ := c
  have hputs : ∀ call' : MediaCall, (∀ tenant' sessionId' kind contentType payload' expiresAtMs,
      call' ≠ .put tenant' sessionId' kind contentType payload' expiresAtMs) →
        ¬Puts digest tenant ref sessionId payload nowMs call' := by
    rintro call' hcall ⟨kind, contentType, expiresAtMs, rfl, -⟩
    exact hcall _ _ _ _ _ _ rfl
  dsimp only
  cases call with
  | put tenant' sessionId' kind contentType payload' expiresAtMs => exact holds_put_iff
  | «open» tenant' ref' =>
      rw [or_iff_right (hputs _ (by simp)), and_iff_right (by simp [Touches])]
      have hnext : next digest store ⟨atMs, .open tenant' ref'⟩ =
          (live atMs store tenant' ref').2 := by
        simp only [next, serve, «open»]
        cases (live atMs store tenant' ref').1 <;> rfl
      rw [hnext]
      exact holds_live_iff hle tenant' ref'
  | «exists» tenant' ref' =>
      rw [or_iff_right (hputs _ (by simp)), and_iff_right (by simp [Touches])]
      exact holds_live_iff hle tenant' ref'
  | delete tenant' ref' =>
      rw [or_iff_right (hputs _ (by simp))]
      exact holds_delete_iff
  | deleteForSession tenant' sessionId' =>
      rw [or_iff_right (hputs _ (by simp))]
      exact holds_deleteForSession_iff

/-- After some calls an object is held exactly when the last call that concerns it put it. -/
theorem holds_after_iff {calls : List TimedCall} (hlast : ∀ c ∈ calls, c.nowMs ≤ nowMs) :
    Holds tenant ref sessionId payload nowMs (after digest .fresh calls) ↔
      ∃ before c rest, calls = before ++ c :: rest ∧
        Puts digest tenant ref sessionId payload nowMs c.call ∧
          ∀ c' ∈ rest, ¬Touches digest tenant ref sessionId c'.call := by
  refine Runs.foldl_iff_last (next digest) (Holds tenant ref sessionId payload nowMs) ?_ ?_
  · rintro ⟨entry, h, -⟩
    cases h
  · intro before c rest heq
    exact holds_next_iff (hlast c (heq ▸ List.mem_append_right _ List.mem_cons_self))

end InMemoryMediaStore

open InMemoryMediaStore

/-- After any calls an object opens to some bytes exactly when the last call that concerns it put
these bytes, for the tenant that asks, with a deadline that is still ahead. -/
theorem open_eq_ok_iff_last_put (digest : MediaDigest) (calls : List TimedCall)
    (tenant : TenantId) (ref : EvidenceRef) (payload : List UInt8) {nowMs : ℤ}
    (hlast : ∀ c ∈ calls, c.nowMs ≤ nowMs) :
    ((after digest .fresh calls).open nowMs tenant ref).1 = .ok payload ↔
      ∃ sessionId before c rest, calls = before ++ c :: rest ∧
        Puts digest tenant ref sessionId payload nowMs c.call ∧
          ∀ c' ∈ rest, ¬Touches digest tenant ref sessionId c'.call := by
  have hopen : ((after digest .fresh calls).open nowMs tenant ref).1 = .ok payload ↔
      ∃ sessionId, Holds tenant ref sessionId payload nowMs (after digest .fresh calls) := by
    unfold «open» live Holds
    cases hget : (after digest .fresh calls).objects.get? (tenant.value, ref.value) with
    | none => simp
    | some entry =>
        by_cases hexpired : entry.stored.expiresAtMs ≤ nowMs
        · simp [expired, hexpired]
        · simp [expired, hexpired, not_le.1 hexpired]
  rw [hopen]
  exact exists_congr fun sessionId => holds_after_iff hlast

theorem open_eq_ok_iff_last_put_study :
    ((after constantDigest .fresh studyMediaCalls).open 999 studyTenant studyRef).1 =
      .ok [1, 2, 3] := by
  refine (open_eq_ok_iff_last_put constantDigest studyMediaCalls studyTenant studyRef [1, 2, 3]
    (by decide)).2 ⟨studySessionId, studyMediaCalls.take 1, studyPut, studyMediaCalls.drop 2, rfl,
      ⟨.rawMedia, "audio/wav", 1000, rfl, rfl, by decide⟩, ?_⟩
  simp only [studyMediaCalls, List.drop_succ_cons, List.drop_zero, List.forall_mem_cons]
  exact ⟨by unfold Touches; decide, by unfold Touches; decide,
    fun _ h => absurd h List.not_mem_nil⟩

end OratoriaEngine
