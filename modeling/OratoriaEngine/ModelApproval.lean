import OratoriaEngine.ModelRollback

/-!
# The approval of what is active

Promotion checks the approval of a version, a rollback does not. What both registries do to the
versions and to what is active is stated once; from it follows when a rollback can bring back a
version that was never approved or was withdrawn.
-/

namespace OratoriaEngine

open Runs (EveryStep Throughout)

def withdrawnStates : List ApprovalState := [.draft, .rolledBack, .disabled]

namespace ModelRegistry

variable {σ : Type} (r : ModelRegistry σ)

/-- Versions are registered under new identifiers and inactive. -/
def Fresh (s : σ) : RegistryCall → Prop
  | .register version makeActive => makeActive = false ∧ r.get s version.id = none
  | _ => True

def Approved (s : σ) : Prop :=
  ∀ modality version, r.activeFor s modality = .ok version → version.approval ∉ withdrawnStates

/-- The version that a rollback of the modality withdraws, and the one it falls back to. Where
that is of another modality, nothing else may be active there. -/
structure FallsBack (s : σ) (modality : Modality) (current target : ModelVersion) : Prop where
  serving : r.activeFor s modality = .ok current
  recorded : current.rollbackTo = some target.id
  stored : r.get s target.id = some target
  free : ∀ other, r.activeFor s target.modality = .ok other →
    other.id = current.id ∨ other.id = target.id

/-- A rollback falls back to another version, which is neither a draft nor withdrawn. -/
def FallsBackApproved (s : σ) : RegistryCall → Prop
  | .rollback modality => ∀ current target, r.FallsBack s modality current target →
      target.id ≠ current.id ∧ target.approval ∉ withdrawnStates
  | _ => True

/-- Over the calls, no active version is a draft or withdrawn, and what was rolled back is never
brought back. -/
structure KeepsApproved (s : σ) (calls : List RegistryCall) : Prop where
  approved : Throughout r.step r.Approved s calls
  neverReactivated : ∀ before between rest modality modality' rolledBack restored after after',
    calls = before ++ .rollback modality :: (between ++ .rollback modality' :: rest) →
      r.activeFor (before.foldl r.step s) modality = .ok rolledBack →
        r.rollback (before.foldl r.step s) modality = .ok after →
          r.rollback ((before ++ .rollback modality :: between).foldl r.step s) modality' =
            .ok (restored, after') → restored.id ≠ rolledBack.id

/-- What the operations of a registry do in the states that satisfy `I`. -/
structure Follows (I : σ → Prop) : Prop where
  get_of_active : ∀ {s modality version}, I s → r.activeFor s modality = .ok version →
    r.get s version.id = some version
  registered : ∀ {s s' version}, I s → r.get s version.id = none →
    r.register s version false = .ok s' → I s' ∧
      (∀ modality, r.activeFor s' modality = r.activeFor s modality) ∧
      ∀ modelId, modelId ≠ version.id → r.get s' modelId = r.get s modelId
  promoted : ∀ {s s' modelId canaryPercent promoted}, I s →
    r.promote s modelId canaryPercent = .ok (promoted, s') → I s' ∧
      promoted.approval = approvalAt canaryPercent ∧
      (∃ version, r.get s modelId = some version ∧ version.approval ∈ promotable) ∧
      (∀ modality version, r.activeFor s' modality = .ok version →
        version = promoted ∨ r.activeFor s modality = .ok version) ∧
      ∀ other, other ≠ modelId → r.get s' other = r.get s other
  rolledBack : ∀ {s s' modality restored}, I s → r.rollback s modality = .ok (restored, s') →
    I s' ∧ ∃ current target, r.FallsBack s modality current target ∧ restored.id = target.id ∧
      r.get s' current.id = some { current with approval := .rolledBack } ∧
      (∀ modelId, modelId ≠ current.id → r.get s' modelId = r.get s modelId) ∧
      (∃ modality' version, r.activeFor s' modality' = .ok version ∧ version.id = target.id) ∧
      ∀ modality' version, r.activeFor s' modality' = .ok version →
        version.id = target.id ∨ r.activeFor s modality' = .ok version
  exists_rollback : ∀ {s modality current target}, I s →
    r.FallsBack s modality current target → ∃ result, r.rollback s modality = .ok result

variable {r} {I : σ → Prop} {s : σ} {c : RegistryCall}

theorem approvalAt_approved (canaryPercent : ℤ) : approvalAt canaryPercent ∉ withdrawnStates := by
  unfold approvalAt
  split_ifs <;> decide

namespace Follows

theorem keeps (h : r.Follows I) (hs : I s) (hc : r.Fresh s c) : I (r.step s c) := by
  cases c with
  | register version makeActive =>
      obtain ⟨rfl, hnew⟩ := hc
      cases hresult : r.register s version false with
      | error e => rwa [r.step_register_of_error hresult]
      | ok after =>
          rw [r.step_register_of_ok hresult]
          exact (h.registered hs hnew hresult).1
  | promote modelId canaryPercent =>
      cases hresult : r.promote s modelId canaryPercent with
      | error e => rwa [r.step_promote_of_error hresult]
      | ok result =>
          rw [r.step_promote_of_ok hresult]
          exact (h.promoted hs hresult).1
  | rollback modality =>
      cases hresult : r.rollback s modality with
      | error e => rwa [r.step_rollback_of_error hresult]
      | ok result =>
          rw [r.step_rollback_of_ok hresult]
          exact (h.rolledBack hs hresult).1

/-- A call that meets the condition activates no version that is a draft or withdrawn. -/
theorem approved_step (h : r.Follows I) (hs : I s) (happroved : r.Approved s)
    (hfresh : r.Fresh s c) (hc : r.FallsBackApproved s c) : r.Approved (r.step s c) := by
  cases c with
  | register version makeActive =>
      obtain ⟨rfl, hnew⟩ := hfresh
      cases hresult : r.register s version false with
      | error e => rwa [r.step_register_of_error hresult]
      | ok after =>
          rw [r.step_register_of_ok hresult]
          obtain ⟨-, hactive, -⟩ := h.registered hs hnew hresult
          intro modality served hserved
          rw [hactive] at hserved
          exact happroved modality served hserved
  | promote modelId canaryPercent =>
      cases hresult : r.promote s modelId canaryPercent with
      | error e => rwa [r.step_promote_of_error hresult]
      | ok result =>
          rw [r.step_promote_of_ok hresult]
          obtain ⟨-, happroval, -, hactive, -⟩ := h.promoted hs hresult
          intro modality served hserved
          rcases hactive modality served hserved with rfl | hbefore
          · rw [happroval]
            exact approvalAt_approved canaryPercent
          · exact happroved modality served hbefore
  | rollback modality =>
      cases hresult : r.rollback s modality with
      | error e => rwa [r.step_rollback_of_error hresult]
      | ok result =>
          rw [r.step_rollback_of_ok hresult]
          obtain ⟨hafter, current, target, hfalls, -, -, hothers, -, hactive⟩ :=
            h.rolledBack hs hresult
          obtain ⟨hne, htarget⟩ := hc current target hfalls
          intro modality' served hserved
          rcases hactive modality' served hserved with hid | hbefore
          · have hget := h.get_of_active hafter hserved
            rw [hid, hothers _ hne, hfalls.stored] at hget
            obtain rfl := Option.some.inj hget
            exact htarget
          · exact happroved modality' served hbefore

/-- A rollback that does not meet the condition leaves such a version active. -/
theorem not_approved_step (h : r.Follows I) (hs : I s) (hc : ¬r.FallsBackApproved s c) :
    ¬r.Approved (r.step s c) := by
  cases c with
  | rollback modality =>
      simp only [FallsBackApproved, not_forall] at hc
      obtain ⟨current, target, hfalls, hbad⟩ := hc
      obtain ⟨result, hresult⟩ := h.exists_rollback hs hfalls
      rw [r.step_rollback_of_ok hresult]
      obtain ⟨hafter, current', target', hfalls', -, hwithdrawn, hothers, ⟨modality', served,
        hserved, hid⟩, -⟩ := h.rolledBack hs hresult
      obtain rfl := Except.ok.inj (hfalls.serving.symm.trans hfalls'.serving)
      have htarget : target' = target := by
        have hsame := hfalls'.recorded.symm.trans hfalls.recorded
        have hstored := hfalls'.stored
        rw [Option.some.inj hsame, hfalls.stored] at hstored
        exact (Option.some.inj hstored).symm
      subst htarget
      intro happroved
      have hserving := happroved modality' served hserved
      have hget := h.get_of_active hafter hserved
      rw [hid] at hget
      have hne : target'.id ≠ current.id := by
        intro hself
        rw [hself, hwithdrawn] at hget
        rw [← Option.some.inj hget] at hserving
        exact hserving (List.mem_cons_of_mem _ (List.mem_cons_self ..))
      rw [hothers _ hne, hfalls.stored] at hget
      rw [← Option.some.inj hget] at hserving
      exact hbad ⟨hne, hserving⟩
  | register version makeActive => exact absurd trivial hc
  | promote modelId canaryPercent => exact absurd trivial hc

theorem rolledBack_step (h : r.Follows I) (hs : I s) (hc : r.Fresh s c) {modelId : ModelVersionId}
    (hget : ∃ version, r.get s modelId = some version ∧ version.approval = .rolledBack) :
    ∃ version, r.get (r.step s c) modelId = some version ∧ version.approval = .rolledBack := by
  obtain ⟨version, hversion, happroval⟩ := hget
  cases c with
  | register registered makeActive =>
      obtain ⟨rfl, hnew⟩ := hc
      cases hresult : r.register s registered false with
      | error e => exact ⟨version, by rwa [r.step_register_of_error hresult], happroval⟩
      | ok after =>
          rw [r.step_register_of_ok hresult]
          have hne : modelId ≠ registered.id := by
            rintro rfl
            rw [hnew] at hversion
            cases hversion
          exact ⟨version, ((h.registered hs hnew hresult).2.2 _ hne).trans hversion, happroval⟩
  | promote promotedId canaryPercent =>
      cases hresult : r.promote s promotedId canaryPercent with
      | error e => exact ⟨version, by rwa [r.step_promote_of_error hresult], happroval⟩
      | ok result =>
          rw [r.step_promote_of_ok hresult]
          obtain ⟨-, -, ⟨old, hold, hpromotable⟩, -, hothers⟩ := h.promoted hs hresult
          have hne : modelId ≠ promotedId := by
            rintro rfl
            rw [hversion] at hold
            rw [← Option.some.inj hold, happroval] at hpromotable
            exact absurd hpromotable (by decide)
          exact ⟨version, (hothers _ hne).trans hversion, happroval⟩
  | rollback modality =>
      cases hresult : r.rollback s modality with
      | error e => exact ⟨version, by rwa [r.step_rollback_of_error hresult], happroval⟩
      | ok result =>
          rw [r.step_rollback_of_ok hresult]
          obtain ⟨-, current, target, -, -, hwithdrawn, hothers, -⟩ := h.rolledBack hs hresult
          by_cases hid : modelId = current.id
          · exact ⟨_, by rw [hid, hwithdrawn], rfl⟩
          · exact ⟨version, (hothers _ hid).trans hversion, happroval⟩

/-- A registry keeps what is active approved over exactly the runs in which no rollback falls
back to a draft, to a withdrawn version or to the version it withdraws. -/
theorem keepsApproved_iff (h : r.Follows I) (hs : I s) (happroved : r.Approved s)
    {calls : List RegistryCall} (hfresh : EveryStep r.step r.Fresh s calls) :
    r.KeepsApproved s calls ↔ EveryStep r.step r.FallsBackApproved s calls := by
  have hthroughout : EveryStep r.step r.FallsBackApproved s calls ↔
      Throughout r.step r.Approved s calls := by
    have hkeep : ∀ (s : σ) (c : RegistryCall), I s ∧ r.Approved s → r.Fresh s c →
        r.FallsBackApproved s c → I (r.step s c) ∧ r.Approved (r.step s c) :=
      fun _ _ hs hfresh hc => ⟨h.keeps hs.1 hfresh, h.approved_step hs.1 hs.2 hfresh hc⟩
    have hbreak : ∀ (s : σ) (c : RegistryCall), I s ∧ r.Approved s → r.Fresh s c →
        ¬r.FallsBackApproved s c → ¬r.Approved (r.step s c) :=
      fun _ _ hs _ hc => h.not_approved_step hs.1 hc
    exact Runs.everyStep_iff_throughout_of (fun _ hs => hs.2) hkeep hbreak ⟨hs, happroved⟩ hfresh
  refine ⟨fun hkeeps => hthroughout.2 hkeeps.approved, fun hsound => ⟨hthroughout.1 hsound, ?_⟩⟩
  rintro before between rest modality modality' rolledBack restored ⟨_, after⟩ after' rfl hserving
    hresult hagain
  obtain ⟨hfirst, hfresh⟩ := Runs.everyStep_append.1 hfresh
  obtain ⟨hrollback, hfresh⟩ := Runs.everyStep_cons.1 hfresh
  have hkeep : ∀ (s : σ) (c : RegistryCall), I s → r.Fresh s c → I (r.step s c) :=
    fun _ _ hs hc => h.keeps hs hc
  have hreached := Runs.foldl_induction hkeep hs hfirst
  -- the version that was rolled back is so in every state from there on
  have hstays : ∀ (s : σ) (c : RegistryCall), (I s ∧ ∃ version, r.get s rolledBack.id =
      some version ∧ version.approval = .rolledBack) → r.Fresh s c → I (r.step s c) ∧
        ∃ version, r.get (r.step s c) rolledBack.id = some version ∧
          version.approval = .rolledBack :=
    fun _ _ hs hc => ⟨h.keeps hs.1 hc, h.rolledBack_step hs.1 hc hs.2⟩
  have hwithdrawn : ∃ version, r.get (r.step (before.foldl r.step s) (.rollback modality))
      rolledBack.id = some version ∧ version.approval = .rolledBack := by
    obtain ⟨-, current, target, hfalls, -, hget, -⟩ := h.rolledBack hreached hresult
    obtain rfl := Except.ok.inj (hfalls.serving.symm.trans hserving)
    rw [r.step_rollback_of_ok hresult]
    exact ⟨_, hget, rfl⟩
  obtain ⟨hlater, version, hversion, happroval⟩ := Runs.foldl_induction hstays
    ⟨hkeep _ _ hreached hrollback, hwithdrawn⟩ (Runs.everyStep_append.1 hfresh).1
  rw [List.foldl_append, List.foldl_cons] at hagain
  obtain ⟨-, current, target, hfalls, hid, -⟩ := h.rolledBack hlater hagain
  have hsafe := (Runs.everyStep_cons.1 (Runs.everyStep_append.1
    (Runs.everyStep_cons.1 (Runs.everyStep_append.1 hsound).2).2).2).1
  intro hsame
  have hget := hfalls.stored
  rw [← hid, hsame, hversion] at hget
  have happroved := (hsafe current target hfalls).2
  rw [← Option.some.inj hget, happroval] at happroved
  exact happroved (by decide)

end Follows

theorem not_keepsApproved_of_serving {calls : List RegistryCall} (modality : Modality)
    (h : (r.activeFor (calls.foldl r.step s) modality).toOption.map (·.approval) =
      some .rolledBack) : ¬r.KeepsApproved s calls := by
  intro hkeeps
  cases hserved : r.activeFor (calls.foldl r.step s) modality with
  | error e =>
      rw [hserved] at h
      cases h
  | ok served =>
      rw [hserved] at h
      have hwithdrawn : served.approval = .rolledBack := Option.some.inj h
      have happroved := hkeeps.approved calls [] (List.append_nil _).symm modality served hserved
      rw [hwithdrawn] at happroved
      exact happroved (by decide)

theorem fallsBackApproved_of_serving {modality : Modality} {current target : ModelVersion}
    (hserving : (r.activeFor s modality).toOption = some current)
    (hrecorded : current.rollbackTo = some target.id) (hget : r.get s target.id = some target)
    (hne : target.id ≠ current.id) (happroved : target.approval ∉ withdrawnStates) :
    r.FallsBackApproved s (.rollback modality) := by
  intro current' target' hfalls
  rw [hfalls.serving] at hserving
  obtain rfl : current' = current := Option.some.inj hserving
  have hid := Option.some.inj (hrecorded.symm.trans hfalls.recorded)
  have hstored := hfalls.stored
  rw [← hid, hget] at hstored
  rw [← Option.some.inj hstored]
  exact ⟨hne, happroved⟩

end ModelRegistry

namespace InMemoryModelRegistry

/-- What was ever active for a modality is of it, and so is what it falls back to. -/
structure Placed (registry : InMemoryModelRegistry) (ever : Modality → ModelVersionId → Prop) :
    Prop where
  active : ∀ modality modelId, registry.active.get? modality = some modelId → ever modality modelId
  stored : ∀ modality modelId, ever modality modelId → ∃ version,
    registry.get modelId = some version ∧ version.modality = modality ∧
      ∀ target, version.rollbackTo = some target → ever modality target

variable {registry : InMemoryModelRegistry} {ever : Modality → ModelVersionId → Prop}

theorem Placed.modality (h : registry.Placed ever) {modality : Modality} {version : ModelVersion}
    (hactive : registry.active.get? modality = some version.id)
    (hget : registry.get version.id = some version) : version.modality = modality := by
  obtain ⟨stored, hstored, hmodality, -⟩ := h.stored _ _ (h.active _ _ hactive)
  rw [hget] at hstored
  rwa [Option.some.inj hstored]

theorem Placed.put (h : registry.Placed ever) {version : ModelVersion}
    (hnew : registry.get version.id = none) : (registry.put version).Placed ever := by
  refine ⟨h.active, fun modality modelId hever => ?_⟩
  obtain ⟨stored, hstored, hrest⟩ := h.stored modality modelId hever
  refine ⟨stored, ?_, hrest⟩
  rw [get_put, if_neg, hstored]
  rintro rfl
  rw [hnew] at hstored
  cases hstored

theorem Placed.promote (h : registry.Placed ever) {modelId : ModelVersionId} {canaryPercent : ℤ}
    {promoted : ModelVersion} {after : InMemoryModelRegistry}
    (hresult : registry.promote modelId canaryPercent = .ok (promoted, after)) :
    after.Placed fun modality other =>
      ever modality other ∨ modality = promoted.modality ∧ other = modelId := by
  obtain ⟨version, hget, -, -, rfl, rfl⟩ := promote_eq_ok_iff.1 hresult
  have hid : version.id = modelId := registry.keyed _ _ hget
  constructor
  · intro modality other hactive
    change (registry.active.set version.modality version.id).get? modality = _ at hactive
    rw [Dict.get?_set] at hactive
    split_ifs at hactive with hmodality
    · exact .inr ⟨hmodality, (Option.some.inj hactive).symm.trans hid⟩
    · exact .inl (h.active _ _ hactive)
  · intro modality other hever
    rw [get_activate, get_put]
    split_ifs with hother
    · have hmodality : version.modality = modality := by
        rcases hever with hever | ⟨hmodality, -⟩
        · obtain ⟨stored, hstored, hmodality, -⟩ := h.stored modality other hever
          rw [hother, hid, hget] at hstored
          rwa [← Option.some.inj hstored] at hmodality
        · exact hmodality.symm
      refine ⟨_, rfl, hmodality, fun target htarget => .inl ?_⟩
      exact h.active _ _ (hmodality ▸ htarget)
    · have hbefore := hever.resolve_right fun hlast => hother (hlast.2.trans hid.symm)
      obtain ⟨stored, hstored, hmodality, htargets⟩ := h.stored modality other hbefore
      exact ⟨stored, hstored, hmodality, fun target htarget => .inl (htargets target htarget)⟩

theorem Placed.rollback (h : registry.Placed ever) {modality : Modality} {current : ModelVersion}
    {restored : ModelVersion} {after : InMemoryModelRegistry}
    (hcurrent : registry.activeFor modality = .ok current)
    (hrecorded : current.rollbackTo = some restored.id)
    (hafter : after = (registry.put { current with approval := .rolledBack }).activate modality
      restored.id) : after.Placed ever := by
  obtain ⟨hactive, hget⟩ := activeFor_eq_ok_iff.1 hcurrent
  subst hafter
  constructor
  · intro modality' other hactive'
    change (registry.active.set modality restored.id).get? modality' = _ at hactive'
    rw [Dict.get?_set] at hactive'
    split_ifs at hactive' with hmodality
    · obtain ⟨stored, hstored, -, htargets⟩ := h.stored _ _ (h.active _ _ hactive)
      rw [hget] at hstored
      rw [hmodality, ← Option.some.inj hactive']
      apply htargets
      rw [← Option.some.inj hstored, hrecorded]
    · exact h.active _ _ hactive'
  · intro modality' other hever
    obtain ⟨stored, hstored, hmodality, htargets⟩ := h.stored modality' other hever
    rw [get_activate, get_put]
    split_ifs with hother
    · change other = current.id at hother
      rw [hother, hget] at hstored
      obtain rfl := Option.some.inj hstored
      exact ⟨_, rfl, hmodality, htargets⟩
    · exact ⟨stored, hstored, hmodality, htargets⟩

theorem activeFor_put (h : registry.Placed ever) {version : ModelVersion}
    (hnew : registry.get version.id = none) (modality : Modality) :
    (registry.put version).activeFor modality = registry.activeFor modality := by
  cases hactive : registry.active.get? modality with
  | none =>
      have hactive' : (registry.put version).active.get? modality = none := hactive
      simp only [activeFor, hactive, hactive']
  | some modelId =>
      obtain ⟨stored, hstored, -⟩ := h.stored _ _ (h.active _ _ hactive)
      have hid := registry.keyed _ _ hstored
      subst hid
      have hne : stored.id ≠ version.id := by
        intro heq
        rw [← heq, hstored] at hnew
        cases hnew
      have hkept : (registry.put version).get stored.id = some stored := by
        rw [get_put, if_neg hne, hstored]
      rw [activeFor_eq_ok_iff.2 ⟨hactive, hstored⟩]
      exact activeFor_eq_ok_iff.2 ⟨hactive, hkept⟩

theorem Placed.activeFor_promote (h : registry.Placed ever) {modelId : ModelVersionId}
    {canaryPercent : ℤ} {promoted : ModelVersion} {after : InMemoryModelRegistry}
    (hresult : registry.promote modelId canaryPercent = .ok (promoted, after))
    {modality : Modality} {served : ModelVersion}
    (hserved : after.activeFor modality = .ok served) :
    served = promoted ∨ registry.activeFor modality = .ok served := by
  obtain ⟨version, hget, -, -, rfl, rfl⟩ := promote_eq_ok_iff.1 hresult
  have hid : version.id = modelId := registry.keyed _ _ hget
  obtain ⟨hactive, hstored⟩ := activeFor_eq_ok_iff.1 hserved
  change (registry.active.set version.modality version.id).get? modality = _ at hactive
  rw [get_activate, get_put] at hstored
  rw [Dict.get?_set] at hactive
  split_ifs at hactive with hmodality
  · rw [if_pos (Option.some.inj hactive).symm] at hstored
    exact .inl (Option.some.inj hstored).symm
  · split_ifs at hstored with hsame
    · refine absurd ?_ hmodality
      change served.id = version.id at hsame
      rw [hsame] at hactive
      exact (h.modality hactive (hid ▸ hget)).symm
    · exact .inr (activeFor_eq_ok_iff.2 ⟨hactive, hstored⟩)

section Rollback

variable {modality : Modality} {current restored : ModelVersion}

/-- What a recorded target replaced was of its modality, so nothing else is active there. -/
theorem Placed.free (h : registry.Placed ever)
    (hcurrent : registry.activeFor modality = .ok current)
    (hrecorded : current.rollbackTo = some restored.id)
    (hstored : registry.get restored.id = some restored) {other : ModelVersion}
    (hother : registry.activeFor restored.modality = .ok other) : other.id = current.id := by
  obtain ⟨hactive, hget⟩ := activeFor_eq_ok_iff.1 hcurrent
  obtain ⟨version, hversion, -, htargets⟩ := h.stored _ _ (h.active _ _ hactive)
  obtain rfl := Option.some.inj (hget.symm.trans hversion)
  obtain ⟨target, htarget, htargetModality, -⟩ := h.stored _ _ (htargets _ hrecorded)
  obtain rfl := Option.some.inj (hstored.symm.trans htarget)
  rw [htargetModality] at hother
  exact congrArg (·.id) (Except.ok.inj (hother.symm.trans hcurrent))

theorem Placed.activeFor_rollback (h : registry.Placed ever)
    (hcurrent : registry.activeFor modality = .ok current) {modality' : Modality}
    {served : ModelVersion}
    (hserved : ((registry.put { current with approval := .rolledBack }).activate modality
      restored.id).activeFor modality' = .ok served) :
    served.id = restored.id ∨ registry.activeFor modality' = .ok served := by
  obtain ⟨hactive, hget⟩ := activeFor_eq_ok_iff.1 hcurrent
  obtain ⟨hservedActive, hservedGet⟩ := activeFor_eq_ok_iff.1 hserved
  change (registry.active.set modality restored.id).get? modality' = _ at hservedActive
  by_cases hsame : modality' = modality
  · rw [hsame, Dict.get?_set_self] at hservedActive
    exact .inl (Option.some.inj hservedActive).symm
  · rw [Dict.get?_set_ne _ _ hsame] at hservedActive
    rw [get_activate, get_put] at hservedGet
    split_ifs at hservedGet with hid
    · refine absurd ?_ hsame
      change served.id = current.id at hid
      rw [hid] at hservedActive
      exact (h.modality hservedActive hget).symm.trans (h.modality hactive hget)
    · exact .inr (activeFor_eq_ok_iff.2 ⟨hservedActive, hservedGet⟩)

end Rollback

theorem follows : port.Follows fun registry => ∃ ever, registry.Placed ever where
  get_of_active _ hactive := (activeFor_eq_ok_iff.1 hactive).2
  registered := by
    rintro registry after version ⟨ever, h⟩ hnew hresult
    cases hresult
    refine ⟨⟨ever, h.put hnew⟩, activeFor_put h hnew, fun modelId hne => ?_⟩
    exact (get_put _ _ _).trans (if_neg hne)
  promoted := by
    rintro registry after modelId canaryPercent promoted ⟨ever, h⟩ hresult
    refine ⟨⟨_, h.promote hresult⟩, ?_⟩
    have hactive : ∀ modality served, after.activeFor modality = .ok served →
        served = promoted ∨ registry.activeFor modality = .ok served :=
      fun _ _ hserved => h.activeFor_promote hresult hserved
    obtain ⟨version, hget, happroval, -, rfl, rfl⟩ := promote_eq_ok_iff.1 hresult
    refine ⟨rfl, ⟨version, hget, happroval⟩, hactive, fun other hne => ?_⟩
    refine (get_put _ _ _).trans (if_neg ?_)
    rwa [← registry.keyed _ _ hget] at hne
  rolledBack := by
    rintro registry after modality restored ⟨ever, h⟩ hresult
    obtain ⟨current, hcurrent, hrecorded, hstored, hafter⟩ := rollback_eq_ok_iff.1 hresult
    have hplaced := h.rollback hcurrent hrecorded hafter
    subst hafter
    refine ⟨⟨ever, hplaced⟩, current, restored,
      ⟨hcurrent, hrecorded, hstored, fun other hother => .inl (h.free hcurrent hrecorded hstored
        hother)⟩, rfl, (get_put _ _ _).trans (if_pos rfl),
      fun modelId hne => (get_put _ _ _).trans (if_neg hne), ?_,
      fun modality' served hserved => h.activeFor_rollback hcurrent hserved⟩
    have hactive := Dict.get?_set_self registry.active modality restored.id
    obtain ⟨served, hserved, -⟩ := hplaced.stored _ _ (hplaced.active _ _ hactive)
    have hid := InMemoryModelRegistry.keyed _ _ _ hserved
    have hserving := hactive.trans (congrArg some hid.symm)
    rw [← hid] at hserved
    exact ⟨modality, served, activeFor_eq_ok_iff.2 ⟨hserving, hserved⟩, hid⟩
  exists_rollback := by
    rintro registry modality current target - ⟨hserving, hrecorded, hstored, -⟩
    exact ⟨_, rollback_eq_ok_iff.2 ⟨current, hserving, hrecorded, hstored, rfl⟩⟩

end InMemoryModelRegistry

namespace PostgresModelRegistry

variable {registry : PostgresModelRegistry} {modality : Modality}

theorem activeFor_eq_ok_iff {version : ModelVersion} : registry.activeFor modality = .ok version ↔
    ∃ row, registry.active? modality = some row ∧ row.toModelVersion = version := by
  unfold activeFor
  cases registry.active? modality with
  | none => simp
  | some row => simp

theorem get_eq_some_iff {modelId : ModelVersionId} {version : ModelVersion} :
    registry.get modelId = some version ↔
      ∃ row, registry.rows.get? modelId = some row ∧ row.toModelVersion = version :=
  Option.map_eq_some_iff

theorem activeFor_insert {version : ModelVersion} {after : PostgresModelRegistry}
    (h : registry.insert version false = .ok after) (modality : Modality) :
    after.activeFor modality = registry.activeFor modality := by
  obtain ⟨hnew, -, hrows⟩ := insert_eq_ok_iff.1 h
  have hactive : after.active? modality = registry.active? modality := by
    ext row
    rw [active?_eq_some_iff, active?_eq_some_iff, hrows, Dict.get?_set]
    split_ifs with hid
    · rw [hid, hnew]
      constructor
      · rintro ⟨hrow, -, hactive⟩
        cases hrow
        cases hactive
      · rintro ⟨hrow, -⟩
        cases hrow
    · rfl
  rw [activeFor, hactive]
  rfl

theorem get_insert {version : ModelVersion} {after : PostgresModelRegistry}
    (h : registry.insert version false = .ok after) {modelId : ModelVersionId}
    (hne : modelId ≠ version.id) : after.get modelId = registry.get modelId := by
  obtain ⟨-, -, hrows⟩ := insert_eq_ok_iff.1 h
  rw [get, hrows, Dict.get?_set_ne _ _ hne]
  rfl

section Promote

variable {modelId : ModelVersionId} {canaryPercent : ℤ} {promoted : ModelVersion}
  {after : PostgresModelRegistry}

theorem activeFor_promote (h : registry.promote modelId canaryPercent = .ok (promoted, after))
    {served : ModelVersion} (hserved : after.activeFor modality = .ok served) :
    served = promoted ∨ registry.activeFor modality = .ok served := by
  obtain ⟨row, hrow, -, rfl, hpromoted, hprevious, hothers⟩ := promote_effects h
  obtain ⟨servedRow, hactive, rfl⟩ := activeFor_eq_ok_iff.1 hserved
  obtain ⟨hget, hmodality, hserving⟩ := active?_eq_some_iff.1 hactive
  by_cases hsame : servedRow.id = modelId
  · rw [hsame, hpromoted] at hget
    rw [← Option.some.inj hget]
    exact .inl rfl
  · refine .inr (activeFor_eq_ok_iff.2 ⟨servedRow, ?_, rfl⟩)
    rw [hothers _ hsame] at hget
    · exact active?_eq_some_iff.2 ⟨hget, hmodality, hserving⟩
    · rintro previous hreplaced hid'
      rw [hid', hprevious previous hreplaced] at hget
      rw [← Option.some.inj hget] at hserving
      cases hserving

theorem get_promote (h : registry.promote modelId canaryPercent = .ok (promoted, after))
    {other : ModelVersionId} (hne : other ≠ modelId) : after.get other = registry.get other := by
  obtain ⟨row, -, -, -, -, hprevious, hothers⟩ := promote_effects h
  cases hreplaced : registry.replaced row with
  | none =>
      rw [get, hothers other hne (by simp [hreplaced])]
      rfl
  | some previous =>
      by_cases hother : other = previous.id
      · have hactive := (replaced_eq_some_iff.1 hreplaced).1
        have hbefore := (active?_eq_some_iff.1 hactive).1
        rw [get, get, hother, hprevious previous hreplaced, hbefore]
        rfl
      · rw [get, hothers other hne (by simpa [hreplaced] using hother)]
        rfl

end Promote

section Restored

variable {current target : ModelVersionRow} {after : PostgresModelRegistry}
  (hafter : ∀ key, after.rows.get? key = if key = target.id then some (target.restored current)
    else if key = current.id then some current.withdrawn else registry.rows.get? key)

include hafter

theorem get_current_of_restored :
    after.get current.id = some { current.toModelVersion with approval := .rolledBack } := by
  rw [get, hafter]
  split_ifs with hsame hsame
  · rw [ModelVersionRow.restored, if_pos hsame.symm]
    rfl
  · rfl
  · exact absurd rfl hsame

theorem get_of_restored (htarget : registry.rows.get? target.id = some target)
    {modelId : ModelVersionId} (hne : modelId ≠ current.id) :
    after.get modelId = registry.get modelId := by
  rw [get, get, hafter, if_neg hne]
  split_ifs with hsame
  · rw [hsame, htarget, ModelVersionRow.restored, if_neg (hsame ▸ hne)]
    rfl
  · rfl

theorem activeFor_of_restored {served : ModelVersion}
    (hserved : after.activeFor modality = .ok served) :
    served.id = target.id ∨ registry.activeFor modality = .ok served := by
  obtain ⟨servedRow, hactive, rfl⟩ := activeFor_eq_ok_iff.1 hserved
  obtain ⟨hget, hmodality, hserving⟩ := active?_eq_some_iff.1 hactive
  rw [hafter] at hget
  split_ifs at hget with hsame hsame
  · exact .inl hsame
  · rw [← Option.some.inj hget] at hserving
    cases hserving
  · refine .inr (activeFor_eq_ok_iff.2 ⟨servedRow, ?_, rfl⟩)
    exact active?_eq_some_iff.2 ⟨hget, hmodality, hserving⟩

end Restored

theorem follows : port.Follows fun _ => True where
  get_of_active := by
    intro registry modality version _ hactive
    obtain ⟨row, hrow, rfl⟩ := activeFor_eq_ok_iff.1 hactive
    exact get_eq_some_iff.2 ⟨row, (active?_eq_some_iff.1 hrow).1, rfl⟩
  registered := by
    intro registry after version _ _ hresult
    exact ⟨trivial, activeFor_insert hresult, fun modelId hne => get_insert hresult hne⟩
  promoted := by
    intro registry after modelId canaryPercent promoted _ hresult
    obtain ⟨row, hrow, happroval, hpromoted, -⟩ := promote_effects hresult
    refine ⟨trivial, ?_, ⟨_, get_eq_some_iff.2 ⟨row, hrow, rfl⟩, happroval⟩,
      fun modality served hserved => activeFor_promote hresult hserved,
      fun other hne => get_promote hresult hne⟩
    rw [hpromoted]
    rfl
  rolledBack := by
    intro registry after modality restored _ hresult
    obtain ⟨current, target, hcurrent, hrecorded, htarget, rfl, hfree, hafter⟩ :=
      rollback_effects hresult
    have hstored := (active?_eq_some_iff.1 hcurrent).1
    refine ⟨trivial, current.toModelVersion, target.toModelVersion,
      ⟨activeFor_eq_ok_iff.2 ⟨current, hcurrent, rfl⟩, hrecorded,
        get_eq_some_iff.2 ⟨target, htarget, rfl⟩, ?_⟩, restored_id target current,
      get_current_of_restored hafter, fun modelId hne => get_of_restored hafter htarget hne, ?_,
      fun modality' served hserved => activeFor_of_restored hafter hserved⟩
    · intro other hother
      obtain ⟨otherRow, hactive, rfl⟩ := activeFor_eq_ok_iff.1 hother
      exact hfree otherRow hactive
    · refine ⟨target.modality, _, activeFor_eq_ok_iff.2 ⟨target.restored current,
        active?_eq_some_iff.2 ⟨?_, restored_modality hstored htarget, rfl⟩, rfl⟩,
        restored_id target current⟩
      rw [restored_id, hafter, if_pos rfl]
  exists_rollback := by
    rintro registry modality current target - ⟨hserving, hrecorded, hstored, hfree⟩
    obtain ⟨row, hrow, rfl⟩ := activeFor_eq_ok_iff.1 hserving
    obtain ⟨targetRow, htarget, rfl⟩ := get_eq_some_iff.1 hstored
    apply registry.exists_restored hrow hrecorded htarget
    intro other hother
    exact hfree _ (activeFor_eq_ok_iff.2 ⟨other, hother, rfl⟩)

end PostgresModelRegistry

/-- In either registry no draft or withdrawn version is ever active, and none that was rolled
back becomes active again, over exactly the runs in which no rollback falls back to such a
version or to the one it withdraws. -/
theorem keepsApproved_iff_fallsBackApproved (calls : List RegistryCall) :
    (EveryStep InMemoryModelRegistry.port.step InMemoryModelRegistry.port.Fresh .empty calls →
        (InMemoryModelRegistry.port.KeepsApproved .empty calls ↔
          EveryStep InMemoryModelRegistry.port.step
            InMemoryModelRegistry.port.FallsBackApproved .empty calls)) ∧
      (EveryStep PostgresModelRegistry.port.step PostgresModelRegistry.port.Fresh .empty calls →
        (PostgresModelRegistry.port.KeepsApproved .empty calls ↔
          EveryStep PostgresModelRegistry.port.step
            PostgresModelRegistry.port.FallsBackApproved .empty calls)) := by
  constructor
  · intro hfresh
    apply InMemoryModelRegistry.follows.keepsApproved_iff _ _ hfresh
    · refine ⟨fun _ _ => False, ?_, fun _ _ hever => hever.elim⟩
      intro modality modelId hactive
      cases hactive
    · intro modality version hactive
      cases hactive
  · intro hfresh
    apply PostgresModelRegistry.follows.keepsApproved_iff trivial _ hfresh
    intro modality version hactive
    cases hactive

def replacedAndBack : List RegistryCall :=
  [.register (evaluatedModel servingModel) false, .promote servingModel 100,
    .register (evaluatedModel rampedModel) false, .promote rampedModel 100, .rollback .audio]

theorem keepsApproved_replacedAndBack :
    InMemoryModelRegistry.port.KeepsApproved .empty replacedAndBack ∧
      PostgresModelRegistry.port.KeepsApproved .empty replacedAndBack := by
  let current : ModelVersion := { evaluatedModel rampedModel with
    approval := .production
    rollbackTo := some servingModel }
  let target : ModelVersion := { evaluatedModel servingModel with approval := .production }
  have hfalls : ∀ {σ : Type} {r : ModelRegistry σ} {s : σ},
      (r.activeFor s .audio).toOption = some current → r.get s servingModel = some target →
        r.FallsBackApproved s (.rollback .audio) := by
    intro σ r s hserving hget
    have hne : target.id ≠ current.id := by decide +kernel
    have happroved : target.approval ∉ withdrawnStates := by decide +kernel
    exact ModelRegistry.fallsBackApproved_of_serving hserving rfl hget hne happroved
  constructor
  · apply ((keepsApproved_iff_fallsBackApproved replacedAndBack).1 ?_).2
    · simp only [replacedAndBack, Runs.everyStep_cons]
      refine ⟨trivial, trivial, trivial, trivial, hfalls ?_ ?_, Runs.everyStep_nil _⟩
      · decide +kernel
      · decide +kernel
    · simp only [replacedAndBack, Runs.everyStep_cons]
      exact ⟨⟨rfl, rfl⟩, trivial, ⟨rfl, rfl⟩, trivial, trivial, Runs.everyStep_nil _⟩
  · apply ((keepsApproved_iff_fallsBackApproved replacedAndBack).2 ?_).2
    · simp only [replacedAndBack, Runs.everyStep_cons]
      refine ⟨trivial, trivial, trivial, trivial, hfalls ?_ ?_, Runs.everyStep_nil _⟩
      · decide +kernel
      · decide +kernel
    · simp only [replacedAndBack, Runs.everyStep_cons]
      exact ⟨⟨rfl, rfl⟩, trivial, ⟨rfl, rfl⟩, trivial, trivial, Runs.everyStep_nil _⟩

def takingTurns : List RegistryCall :=
  [.register (evaluatedModel servingModel) false, .register (evaluatedModel rampedModel) false,
    .promote servingModel 10, .promote rampedModel 10, .promote servingModel 10,
    .rollback .audio, .rollback .audio]

/-- In both registries the second rollback brings back what the first withdrew. -/
theorem not_keepsApproved_takingTurns :
    ¬InMemoryModelRegistry.port.KeepsApproved .empty takingTurns ∧
      ¬PostgresModelRegistry.port.KeepsApproved .empty takingTurns := by
  constructor
  · exact ModelRegistry.not_keepsApproved_of_serving .audio (by decide +kernel)
  · exact ModelRegistry.not_keepsApproved_of_serving .audio (by decide +kernel)

end OratoriaEngine
