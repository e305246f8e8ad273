import OratoriaEngine.ModelRegistry

/-!
# Rolling back a promotion

What a rollback restores is what was active before the version it withdraws was promoted,
however often that was promoted in a row. In process memory a second promotion records the
version as its own target, and the way back is lost.
-/

namespace OratoriaEngine

open Runs (EveryStep Throughout)

namespace ModelRegistry

variable {σ : Type} (r : ModelRegistry σ)

def Serves (s : σ) (modality : Modality) (modelId : ModelVersionId) : Prop :=
  ∃ version, r.activeFor s modality = .ok version ∧ version.id = modelId

/-- The call promotes the version, for the modality, and goes through. -/
def Promotes (modality : Modality) (modelId : ModelVersionId) (s : σ) (c : RegistryCall) : Prop :=
  ∃ canaryPercent promoted s', c = .promote modelId canaryPercent ∧
    r.promote s modelId canaryPercent = .ok (promoted, s') ∧ promoted.modality = modality

def Loopless (s : σ) : Prop :=
  ∀ modelId version, r.get s modelId = some version → version.rollbackTo ≠ some modelId

/-- Over the calls, a rollback after promotions of one version restores what they replaced. -/
structure RestoresPrevious (s : σ) (calls : List RegistryCall) : Prop where
  restores : ∀ before promotions rest modality previous modelId,
    calls = before ++ promotions ++ rest → promotions ≠ [] → modelId ≠ previous →
      r.Serves (before.foldl r.step s) modality previous →
        EveryStep r.step (r.Promotes modality modelId) (before.foldl r.step s) promotions →
          ∃ restored s', r.rollback ((before ++ promotions).foldl r.step s) modality =
            .ok (restored, s') ∧ restored.id = previous ∧ r.Serves s' modality previous
  loopless : Throughout r.step r.Loopless s calls

section Step

variable {r} {s s' : σ} {e : Failure} {result : ModelVersion × σ}

theorem step_register_of_ok {version : ModelVersion} {makeActive : Bool}
    (h : r.register s version makeActive = .ok s') :
    r.step s (.register version makeActive) = s' := by
  simp only [step, h]
  rfl

theorem step_register_of_error {version : ModelVersion} {makeActive : Bool}
    (h : r.register s version makeActive = .error e) :
    r.step s (.register version makeActive) = s := by
  simp only [step, h]
  rfl

theorem step_promote_of_ok {modelId : ModelVersionId} {canaryPercent : ℤ}
    (h : r.promote s modelId canaryPercent = .ok result) :
    r.step s (.promote modelId canaryPercent) = result.2 := by
  simp only [step, h]
  rfl

theorem step_promote_of_error {modelId : ModelVersionId} {canaryPercent : ℤ}
    (h : r.promote s modelId canaryPercent = .error e) :
    r.step s (.promote modelId canaryPercent) = s := by
  simp only [step, h]
  rfl

theorem step_rollback_of_ok {modality : Modality} (h : r.rollback s modality = .ok result) :
    r.step s (.rollback modality) = result.2 := by
  simp only [step, h]
  rfl

theorem step_rollback_of_error {modality : Modality} (h : r.rollback s modality = .error e) :
    r.step s (.rollback modality) = s := by
  simp only [step, h]
  rfl

end Step

end ModelRegistry

namespace InMemoryModelRegistry

variable {registry : InMemoryModelRegistry} {modality : Modality} {modelId : ModelVersionId}

theorem activeFor_eq_ok_iff {version : ModelVersion} :
    registry.activeFor modality = .ok version ↔
      registry.active.get? modality = some version.id ∧ registry.get version.id = some version := by
  unfold activeFor get
  constructor
  · intro h
    cases hactive : registry.active.get? modality with
    | none =>
        rw [hactive] at h
        cases h
    | some found =>
        simp only [hactive] at h
        cases hversion : registry.versions.get? found with
        | none =>
            rw [hversion] at h
            cases h
        | some stored =>
            rw [hversion] at h
            cases h
            obtain rfl := registry.keyed _ _ hversion
            exact ⟨rfl, hversion⟩
  · rintro ⟨hactive, hversion⟩
    simp only [hactive, hversion]

theorem promote_eq_ok_iff {canaryPercent : ℤ} {promoted : ModelVersion}
    {after : InMemoryModelRegistry} :
    registry.promote modelId canaryPercent = .ok (promoted, after) ↔
      ∃ version, registry.get modelId = some version ∧ version.approval ∈ promotable ∧
        (0 ≤ canaryPercent ∧ canaryPercent ≤ 100) ∧
        promoted = { version with
          approval := approvalAt canaryPercent
          rollbackTo := registry.active.get? version.modality } ∧
        after = (registry.put promoted).activate promoted.modality promoted.id := by
  unfold promote get
  cases hversion : registry.versions.get? modelId with
  | none => simp
  | some version =>
      simp only [Option.some.injEq, exists_eq_left']
      by_cases happroval : version.approval ∈ promotable
      · by_cases hpercent : 0 ≤ canaryPercent ∧ canaryPercent ≤ 100
        · rw [if_neg (not_not.2 happroval), if_neg (not_not.2 hpercent)]
          constructor
          · rintro ⟨⟩
            exact ⟨happroval, hpercent, rfl, rfl⟩
          · rintro ⟨-, -, rfl, rfl⟩
            rfl
        · simp [happroval, hpercent]
      · simp [happroval]

theorem rollback_eq_ok_iff {restored : ModelVersion} {after : InMemoryModelRegistry} :
    registry.rollback modality = .ok (restored, after) ↔
      ∃ current, registry.activeFor modality = .ok current ∧
        current.rollbackTo = some restored.id ∧ registry.get restored.id = some restored ∧
        after = (registry.put { current with approval := .rolledBack }).activate modality
          restored.id := by
  unfold rollback
  cases hcurrent : registry.activeFor modality with
  | error e => simp [bind, Except.bind]
  | ok current =>
      simp only [bind, Except.bind, Except.ok.injEq, exists_eq_left']
      cases htarget : current.rollbackTo with
      | none => simp
      | some targetId =>
          simp only [Option.some.injEq]
          cases hversion : registry.versions.get? targetId with
          | none =>
              simp only [reduceCtorEq, false_iff, not_and]
              rintro rfl hget
              rw [get, hversion] at hget
              cases hget
          | some target =>
              obtain rfl := registry.keyed _ _ hversion
              constructor
              · rintro ⟨⟩
                exact ⟨rfl, hversion, rfl⟩
              · rintro ⟨hid, hget, rfl⟩
                rw [get, ← hid, hversion] at hget
                cases hget
                rfl

@[simp] theorem get_activate (registry : InMemoryModelRegistry) (modality : Modality)
    (modelId : ModelVersionId) : (registry.activate modality modelId).get = registry.get := rfl

theorem get_put (registry : InMemoryModelRegistry) (version : ModelVersion) (key : ModelVersionId) :
    (registry.put version).get key = if key = version.id then some version else registry.get key :=
  Dict.get?_set _ _ _ _

@[simp] theorem get_register (registry : InMemoryModelRegistry) (version : ModelVersion)
    (makeActive : Bool) :
    (registry.register version makeActive).get = (registry.put version).get := by
  unfold register
  split_ifs <;> rfl

/-- A version that does not name itself goes in, and none is promoted that is active already. -/
def KeepsTarget (registry : InMemoryModelRegistry) : RegistryCall → Prop
  | .register version _ => version.rollbackTo ≠ some version.id
  | .promote modelId canaryPercent => ∀ version, registry.get modelId = some version →
      version.approval ∈ promotable → 0 ≤ canaryPercent ∧ canaryPercent ≤ 100 →
        registry.active.get? version.modality ≠ some modelId
  | .rollback _ => True

theorem loopless_put (h : port.Loopless registry) {version : ModelVersion}
    (hversion : version.rollbackTo ≠ some version.id) : port.Loopless (registry.put version) := by
  intro key stored hget
  change (registry.put version).get key = some stored at hget
  rw [get_put] at hget
  split_ifs at hget with hkey
  · cases hget
    rwa [hkey]
  · exact h key stored hget

theorem loopless_step (h : port.Loopless registry) {c : RegistryCall}
    (hc : registry.KeepsTarget c) : port.Loopless (port.step registry c) := by
  cases c with
  | register version makeActive =>
      intro key stored hget
      change (registry.register version makeActive).get key = some stored at hget
      rw [get_register] at hget
      exact loopless_put h hc key stored hget
  | promote modelId canaryPercent =>
      cases hresult : registry.promote modelId canaryPercent with
      | error e => rwa [port.step_promote_of_error hresult]
      | ok result =>
          rw [port.step_promote_of_ok hresult]
          obtain ⟨version, hget, happroval, hpercent, hpromoted, hafter⟩ :=
            promote_eq_ok_iff.1 hresult
          have hid : version.id = modelId := registry.keyed _ _ hget
          rw [hafter]
          refine loopless_put h ?_
          rw [hpromoted]
          have hinactive := hc version hget happroval hpercent
          rwa [← hid] at hinactive
  | rollback modality =>
      cases hresult : registry.rollback modality with
      | error e => rwa [port.step_rollback_of_error hresult]
      | ok result =>
          rw [port.step_rollback_of_ok hresult]
          obtain ⟨current, hcurrent, -, -, hafter⟩ := rollback_eq_ok_iff.1 hresult
          rw [hafter]
          refine loopless_put h ?_
          exact h current.id current (activeFor_eq_ok_iff.1 hcurrent).2

/-- A call that does not meet the condition leaves a version that names itself. -/
theorem not_loopless_step {c : RegistryCall} (hc : ¬registry.KeepsTarget c) :
    ¬port.Loopless (port.step registry c) := by
  intro h
  cases c with
  | register version makeActive =>
      refine hc fun hself => h version.id version ?_ hself
      change (registry.register version makeActive).get version.id = some version
      rw [get_register, get_put, if_pos rfl]
  | promote modelId canaryPercent =>
      refine hc fun version hget happroval hpercent hactive => ?_
      have hid : version.id = modelId := registry.keyed _ _ hget
      have hresult := promote_eq_ok_iff.2 ⟨version, hget, happroval, hpercent, rfl, rfl⟩
      rw [port.step_promote_of_ok hresult] at h
      exact h version.id _ ((get_put _ _ _).trans (if_pos rfl))
        (hactive.trans (congrArg some hid.symm))
  | rollback modality => exact hc trivial

theorem restores_of_promotes {previous : ModelVersionId} (hne : modelId ≠ previous)
    (hserves : port.Serves registry modality previous) {c : RegistryCall}
    (hc : port.Promotes modality modelId registry c) :
    ∃ restored after, (port.step registry c).rollback modality = .ok (restored, after) ∧
      restored.id = previous ∧ port.Serves after modality previous := by
  obtain ⟨canaryPercent, promoted, s', rfl, hresult, rfl⟩ := hc
  rw [port.step_promote_of_ok hresult]
  obtain ⟨version, hget, -, -, rfl, rfl⟩ := promote_eq_ok_iff.1 hresult
  obtain ⟨active, hactive, rfl⟩ := hserves
  obtain ⟨hserving, hstored⟩ := activeFor_eq_ok_iff.1 hactive
  have hid : version.id = modelId := registry.keyed _ _ hget
  have hother : active.id ≠ version.id := fun heq => hne (hid.symm.trans heq.symm)
  have hkept : ∀ (registry' : InMemoryModelRegistry) (version' : ModelVersion),
      version'.id = version.id → registry'.get active.id = some active →
        (registry'.put version').get active.id = some active := by
    intro registry' version' hversion' hget'
    rw [get_put, if_neg (hversion' ▸ hother), hget']
  have hpromoted := hkept registry { version with
    approval := approvalAt canaryPercent
    rollbackTo := registry.active.get? version.modality } rfl hstored
  refine ⟨active, _, rollback_eq_ok_iff.2 ⟨_, activeFor_eq_ok_iff.2 ⟨Dict.get?_set_self _ _ _,
    (get_put _ _ _).trans (if_pos rfl)⟩, hserving, hpromoted, rfl⟩, rfl, active, ?_, rfl⟩
  exact activeFor_eq_ok_iff.2 ⟨Dict.get?_set_self _ _ _, hkept _ _ rfl hpromoted⟩

theorem not_promotes_of_keepsTarget {c c' : RegistryCall}
    (hc : port.Promotes modality modelId registry c)
    (hkeeps : (port.step registry c).KeepsTarget c') :
    ¬port.Promotes modality modelId (port.step registry c) c' := by
  rintro ⟨again, promoted', after', rfl, hresult', hmodality⟩
  obtain ⟨version', hget', happroval', hpercent', rfl, -⟩ := promote_eq_ok_iff.1 hresult'
  refine hkeeps version' hget' happroval' hpercent' ?_
  obtain ⟨canaryPercent, promoted, after, rfl, hresult, rfl⟩ := hc
  rw [port.step_promote_of_ok hresult]
  obtain ⟨version, hget, -, -, rfl, rfl⟩ := promote_eq_ok_iff.1 hresult
  have hid : version.id = modelId := registry.keyed _ _ hget
  change (registry.active.set version.modality version.id).get? version'.modality = _
  change version'.modality = version.modality at hmodality
  rw [hmodality, Dict.get?_set_self, hid]

/-- In process memory a rollback restores what was promoted away exactly when no version goes in
that names itself and none is promoted that is active already. -/
theorem restoresPrevious_iff (calls : List RegistryCall) :
    port.RestoresPrevious empty calls ↔ EveryStep port.step KeepsTarget empty calls := by
  have hloopless : EveryStep port.step KeepsTarget empty calls ↔
      Throughout port.step port.Loopless empty calls := by
    have hkeep : ∀ (registry : InMemoryModelRegistry) (c : RegistryCall),
        port.Loopless registry → registry.KeepsTarget c → port.Loopless (port.step registry c) :=
      fun _ _ h hc => loopless_step h hc
    have hbreak : ∀ (registry : InMemoryModelRegistry) (c : RegistryCall),
        port.Loopless registry → ¬registry.KeepsTarget c → ¬port.Loopless (port.step registry c) :=
      fun _ _ _ hc => not_loopless_step hc
    apply Runs.everyStep_iff_throughout (fun _ h => h) hkeep hbreak
    intro key version hget
    cases hget
  constructor
  · exact fun h => hloopless.2 h.loopless
  · intro h
    refine ⟨?_, hloopless.1 h⟩
    rintro before promotions rest modality previous modelId rfl hsome hne hserves hpromotes
    cases promotions with
    | nil => exact absurd rfl hsome
    | cons c promotions =>
        obtain ⟨hfirst, hothers⟩ := Runs.everyStep_cons.1 hpromotes
        cases promotions with
        | nil =>
            rw [List.foldl_append]
            exact restores_of_promotes hne hserves hfirst
        | cons c' promotions =>
            have hkeeps := h (before ++ [c]) c' (promotions ++ rest) (by simp)
            rw [List.foldl_append] at hkeeps
            exact absurd (Runs.everyStep_cons.1 hothers).1
              (not_promotes_of_keepsTarget hfirst hkeeps)

end InMemoryModelRegistry

namespace PostgresModelRegistry

variable {registry : PostgresModelRegistry} {modality : Modality} {modelId : ModelVersionId}

theorem active?_eq_some_iff {row : ModelVersionRow} :
    registry.active? modality = some row ↔ registry.rows.get? row.id = some row ∧
      row.modality = modality ∧ row.isActive = true := by
  have hfind : ∀ found, registry.active? modality = some found →
      registry.rows.get? found.id = some found ∧ found.modality = modality ∧
        found.isActive = true := by
    intro found h
    obtain ⟨key, hget⟩ := (Dict.mem_values_iff _ _).1 (List.mem_of_find?_eq_some h)
    have hprop := List.find?_some h
    rw [decide_eq_true_eq] at hprop
    rw [registry.keyed key found hget]
    exact ⟨hget, hprop⟩
  refine ⟨hfind row, ?_⟩
  rintro ⟨hget, hmodality, hactive⟩
  cases hfound : registry.active? modality with
  | none =>
      have hnone := List.find?_eq_none.1 hfound row (Dict.mem_values_of_get? hget)
      simp [hmodality, hactive] at hnone
  | some found =>
      obtain ⟨hget', hmodality', hactive'⟩ := hfind found hfound
      have hsame := registry.onePerModality _ _ _ _ hget hget' hactive hactive'
        (hmodality.trans hmodality'.symm)
      rw [← hsame, hget] at hget'
      exact congrArg some (Option.some.inj hget').symm

theorem flush_eq_ok_iff {row : ModelVersionRow} {after : PostgresModelRegistry} :
    registry.flush row = .ok after ↔
      registry.Admits row ∧ after.rows = registry.rows.set row.id row := by
  unfold flush
  split_ifs with hadmits
  · constructor
    · rintro ⟨⟩
      exact ⟨hadmits, rfl⟩
    · rintro ⟨-, hrows⟩
      obtain ⟨rows, keyed, onePerModality⟩ := after
      cases hrows
      rfl
  · simp [hadmits]

theorem get?_of_flush {row : ModelVersionRow} {after : PostgresModelRegistry}
    (h : registry.flush row = .ok after) (key : ModelVersionId) :
    after.rows.get? key = if key = row.id then some row else registry.rows.get? key := by
  rw [(flush_eq_ok_iff.1 h).2, Dict.get?_set]

theorem exists_flush {row : ModelVersionRow} (hadmits : registry.Admits row) :
    ∃ after, registry.flush row = .ok after := by
  unfold flush
  rw [dif_pos hadmits]
  exact ⟨_, rfl⟩

theorem admits_of_inactive (registry : PostgresModelRegistry) {row : ModelVersionRow}
    (hrow : row.isActive = false) : registry.Admits row := by
  intro hactive
  rw [hrow] at hactive
  cases hactive

theorem replaced_eq_some_iff {row previous : ModelVersionRow} :
    registry.replaced row = some previous ↔
      registry.active? row.modality = some previous ∧ previous.id ≠ row.id := by
  rw [replaced, Option.filter_eq_some_iff, decide_eq_true_eq]

theorem restored_id (target current : ModelVersionRow) :
    (target.restored current).id = target.id := by
  unfold ModelVersionRow.restored
  split_ifs with hid
  · exact hid.symm
  · rfl

theorem restored_modality {target current : ModelVersionRow}
    (hcurrent : registry.rows.get? current.id = some current)
    (htarget : registry.rows.get? target.id = some target) :
    (target.restored current).modality = target.modality := by
  unfold ModelVersionRow.restored
  split_ifs with hid
  · rw [hid, hcurrent] at htarget
    rw [← Option.some.inj htarget]
    rfl
  · rfl

theorem promote_effects {canaryPercent : ℤ} {promoted : ModelVersion}
    {after : PostgresModelRegistry}
    (h : registry.promote modelId canaryPercent = .ok (promoted, after)) :
    ∃ row, registry.rows.get? modelId = some row ∧ row.approval ∈ promotable ∧
      promoted = (row.promoted (registry.replaced row) canaryPercent).toModelVersion ∧
      after.rows.get? modelId = some (row.promoted (registry.replaced row) canaryPercent) ∧
      (∀ previous, registry.replaced row = some previous →
        after.rows.get? previous.id = some { previous with isActive := false }) ∧
      ∀ key, key ≠ modelId → (∀ previous, registry.replaced row = some previous →
        key ≠ previous.id) → after.rows.get? key = registry.rows.get? key := by
  unfold promote at h
  split_ifs at h
  cases hrow : registry.rows.get? modelId with
  | none =>
      rw [hrow] at h
      cases h
  | some row =>
      simp only [hrow] at h
      split_ifs at h with happroval
      obtain rfl := registry.keyed _ _ hrow
      obtain ⟨retired, hretired, h⟩ := Except.bind_eq_ok.1 h
      obtain ⟨final, hfinal, h⟩ := Except.bind_eq_ok.1 h
      cases h
      have hget : ∀ key, after.rows.get? key =
          if key = row.id then some (row.promoted (registry.replaced row) canaryPercent)
          else retired.rows.get? key := get?_of_flush hfinal
      refine ⟨row, rfl, happroval, rfl, (hget _).trans (if_pos rfl), ?_, ?_⟩
      · intro previous hprevious
        have hne := (replaced_eq_some_iff.1 hprevious).2
        rw [hprevious] at hretired
        rw [hget, if_neg hne, get?_of_flush hretired, if_pos rfl]
      · intro key hne hothers
        rw [hget, if_neg hne]
        cases hreplaced : registry.replaced row with
        | none =>
            rw [hreplaced] at hretired
            cases hretired
            rfl
        | some previous =>
            rw [hreplaced] at hretired
            rw [get?_of_flush hretired, if_neg (hothers previous hreplaced)]

theorem rollback_effects {restored : ModelVersion} {after : PostgresModelRegistry}
    (h : registry.rollback modality = .ok (restored, after)) :
    ∃ current target, registry.active? modality = some current ∧
      current.rollbackTo = some target.id ∧ registry.rows.get? target.id = some target ∧
      restored = (target.restored current).toModelVersion ∧
      (∀ other, registry.active? target.modality = some other →
        other.id = current.id ∨ other.id = target.id) ∧
      ∀ key, after.rows.get? key = if key = target.id then some (target.restored current)
        else if key = current.id then some current.withdrawn else registry.rows.get? key := by
  unfold rollback at h
  cases hcurrent : registry.active? modality with
  | none =>
      rw [hcurrent] at h
      cases h
  | some current =>
      simp only [hcurrent] at h
      cases htarget : current.rollbackTo with
      | none =>
          rw [htarget] at h
          cases h
      | some targetId =>
          simp only [htarget] at h
          cases hrow : registry.rows.get? targetId with
          | none =>
              rw [hrow] at h
              cases h
          | some target =>
              simp only [hrow] at h
              obtain rfl := registry.keyed _ _ hrow
              obtain ⟨retired, hretired, h⟩ := Except.bind_eq_ok.1 h
              obtain ⟨final, hfinal, h⟩ := Except.bind_eq_ok.1 h
              cases h
              refine ⟨current, target, rfl, htarget, hrow, rfl, fun other hother => ?_,
                fun key => ?_⟩
              · obtain ⟨hget, hmodality, hactive⟩ := active?_eq_some_iff.1 hother
                refine or_iff_not_imp_left.2 fun hne => ?_
                have hkept : retired.rows.get? other.id = some other :=
                  (get?_of_flush hretired _).trans ((if_neg hne).trans hget)
                have hstored := (active?_eq_some_iff.1 hcurrent).1
                rw [← restored_id target current]
                exact (flush_eq_ok_iff.1 hfinal).1.get? retired hkept (by rfl) hactive
                  (hmodality.trans (restored_modality hstored hrow).symm)
              · rw [get?_of_flush hfinal, restored_id, get?_of_flush hretired]
                rfl

theorem exists_restored (registry : PostgresModelRegistry) {current target : ModelVersionRow}
    (hcurrent : registry.active? modality = some current)
    (htarget : current.rollbackTo = some target.id)
    (hget : registry.rows.get? target.id = some target)
    (hfree : ∀ other, registry.active? target.modality = some other →
      other.id = current.id ∨ other.id = target.id) :
    ∃ result, registry.rollback modality = .ok result := by
  have hstored := (active?_eq_some_iff.1 hcurrent).1
  obtain ⟨retired, hretired⟩ := exists_flush
    (registry.admits_of_inactive (rfl : current.withdrawn.isActive = false))
  have hmodality := restored_modality hstored hget
  have hadmits : retired.Admits (target.restored current) := by
    intro _ other hother hactive hsame
    obtain ⟨key, hkey⟩ := (Dict.mem_values_iff _ _).1 hother
    obtain rfl := retired.keyed _ _ hkey
    rw [get?_of_flush hretired] at hkey
    rw [restored_id]
    split_ifs at hkey with hid
    · cases hkey
      cases hactive
    · have hfound := active?_eq_some_iff.2 ⟨hkey, hsame.trans hmodality, hactive⟩
      exact (hfree other hfound).resolve_left hid
  obtain ⟨after, hafter⟩ := exists_flush hadmits
  refine ⟨((target.restored current).toModelVersion, after), ?_⟩
  unfold rollback
  simp only [hcurrent, htarget, hget, hretired, bind, Except.bind, hafter]
  rfl

/-- A version that goes in does not name itself. -/
def KeepsTarget (registry : PostgresModelRegistry) : RegistryCall → Prop
  | .register version makeActive => registry.rows.get? version.id = none →
      (makeActive = true → registry.active? version.modality = none) →
        version.rollbackTo ≠ some version.id
  | _ => True

theorem loopless_iff : port.Loopless registry ↔
    ∀ key row, registry.rows.get? key = some row → row.rollbackTo ≠ some key := by
  constructor
  · intro h key row hget
    exact h key row.toModelVersion (congrArg (Option.map _) hget)
  · intro h key version hget
    obtain ⟨row, hrow, rfl⟩ := Option.map_eq_some_iff.1 hget
    exact h key row hrow

theorem active?_eq_none_iff : registry.active? modality = none ↔
    ∀ key row, registry.rows.get? key = some row → row.modality = modality →
      row.isActive = false := by
  unfold active?
  rw [List.find?_eq_none]
  constructor
  · intro h key row hget hmodality
    have hnot := h row (Dict.mem_values_of_get? hget)
    simpa [hmodality] using hnot
  · intro h row hrow
    obtain ⟨key, hget⟩ := (Dict.mem_values_iff _ _).1 hrow
    rw [decide_eq_true_eq]
    rintro ⟨hmodality, hactive⟩
    rw [h key row hget hmodality] at hactive
    cases hactive

theorem admits_new_iff {version : ModelVersion} (hnew : registry.rows.get? version.id = none)
    (makeActive : Bool) : registry.Admits { version with isActive := makeActive } ↔
      (makeActive = true → registry.active? version.modality = none) := by
  refine forall_congr' fun _ => ?_
  rw [active?_eq_none_iff]
  constructor
  · intro h key row hget hmodality
    by_contra hactive
    have hkey := h row (Dict.mem_values_of_get? hget) (by simpa using hactive) hmodality
    rw [registry.keyed _ _ hget] at hkey
    rw [hkey, hnew] at hget
    cases hget
  · intro h other hother hactive hmodality
    obtain ⟨key, hget⟩ := (Dict.mem_values_iff _ _).1 hother
    rw [h key other hget hmodality] at hactive
    cases hactive

/-- A row goes in under a new key, and active only where none of its modality is. -/
theorem insert_eq_ok_iff {version : ModelVersion} {makeActive : Bool}
    {after : PostgresModelRegistry} :
    registry.insert version makeActive = .ok after ↔ registry.rows.get? version.id = none ∧
      (makeActive = true → registry.active? version.modality = none) ∧
      after.rows = registry.rows.set version.id { version with isActive := makeActive } := by
  unfold insert Dict.contains
  cases hrow : registry.rows.get? version.id with
  | some row => simp
  | none =>
      simp only [Option.isSome_none, Bool.false_eq_true, if_false, true_and]
      rw [flush_eq_ok_iff, admits_new_iff hrow]

theorem exists_insert {version : ModelVersion} {makeActive : Bool}
    (hnew : registry.rows.get? version.id = none)
    (hfree : makeActive = true → registry.active? version.modality = none) :
    ∃ after, registry.insert version makeActive = .ok after := by
  obtain ⟨after, hafter⟩ := exists_flush ((admits_new_iff hnew makeActive).2 hfree)
  refine ⟨after, insert_eq_ok_iff.2 ⟨hnew, hfree, (flush_eq_ok_iff.1 hafter).2⟩⟩

theorem promoted_rollbackTo_ne {row : ModelVersionRow}
    (h : ∀ key row, registry.rows.get? key = some row → row.rollbackTo ≠ some key)
    (hrow : registry.rows.get? modelId = some row) (canaryPercent : ℤ) :
    (row.promoted (registry.replaced row) canaryPercent).rollbackTo ≠ some modelId := by
  cases hreplaced : registry.replaced row with
  | none => exact h modelId row hrow
  | some previous =>
      intro hself
      have hid : previous.id = modelId := Option.some.inj hself
      exact (replaced_eq_some_iff.1 hreplaced).2 (hid.trans (registry.keyed _ _ hrow).symm)

theorem rollbackTo_of_promote {canaryPercent : ℤ} {promoted : ModelVersion}
    {after : PostgresModelRegistry}
    (h : registry.promote modelId canaryPercent = .ok (promoted, after)) {key : ModelVersionId}
    {stored : ModelVersionRow} (hkey : key ≠ modelId) (hget : after.rows.get? key = some stored) :
    ∃ before, registry.rows.get? key = some before ∧ before.rollbackTo = stored.rollbackTo := by
  obtain ⟨row, -, -, -, -, hprevious, hothers⟩ := promote_effects h
  by_cases hreplaced : ∃ previous, registry.replaced row = some previous ∧ key = previous.id
  · obtain ⟨previous, hreplaced, rfl⟩ := hreplaced
    rw [hprevious previous hreplaced] at hget
    cases hget
    exact ⟨previous, (active?_eq_some_iff.1 (replaced_eq_some_iff.1 hreplaced).1).1, rfl⟩
  · rw [hothers key hkey fun previous hprevious hid => hreplaced ⟨previous, hprevious, hid⟩]
      at hget
    exact ⟨stored, hget, rfl⟩

theorem rollbackTo_of_rollback {restored : ModelVersion} {after : PostgresModelRegistry}
    (h : registry.rollback modality = .ok (restored, after)) {key : ModelVersionId}
    {stored : ModelVersionRow} (hget : after.rows.get? key = some stored) :
    ∃ before, registry.rows.get? key = some before ∧ before.rollbackTo = stored.rollbackTo := by
  obtain ⟨current, target, hcurrent, -, htarget, -, -, hafter⟩ := rollback_effects h
  have hstored := (active?_eq_some_iff.1 hcurrent).1
  rw [hafter] at hget
  split_ifs at hget with hkey hkey
  · cases hget
    unfold ModelVersionRow.restored
    split_ifs with hid
    · exact ⟨current, by rw [hkey, hid, hstored], rfl⟩
    · exact ⟨target, by rw [hkey, htarget], rfl⟩
  · cases hget
    exact ⟨current, by rw [hkey, hstored], rfl⟩
  · exact ⟨stored, hget, rfl⟩

theorem loopless_step (h : port.Loopless registry) {c : RegistryCall}
    (hc : registry.KeepsTarget c) : port.Loopless (port.step registry c) := by
  rw [loopless_iff] at h ⊢
  cases c with
  | register version makeActive =>
      cases hresult : registry.insert version makeActive with
      | error e => rwa [port.step_register_of_error hresult]
      | ok after =>
          rw [port.step_register_of_ok hresult]
          obtain ⟨hnew, hfree, hrows⟩ := insert_eq_ok_iff.1 hresult
          intro key row hget
          rw [hrows, Dict.get?_set] at hget
          split_ifs at hget with hkey
          · cases hget
            rw [hkey]
            exact hc hnew hfree
          · exact h key row hget
  | promote modelId canaryPercent =>
      cases hresult : registry.promote modelId canaryPercent with
      | error e => rwa [port.step_promote_of_error hresult]
      | ok result =>
          rw [port.step_promote_of_ok hresult]
          intro key stored hget
          by_cases hkey : key = modelId
          · obtain ⟨row, hrow, -, -, hpromoted, -, -⟩ := promote_effects hresult
            rw [hkey, hpromoted] at hget
            cases hget
            rw [hkey]
            exact promoted_rollbackTo_ne h hrow canaryPercent
          · obtain ⟨before, hbefore, htarget⟩ := rollbackTo_of_promote hresult hkey hget
            rw [← htarget]
            exact h key before hbefore
  | rollback modality =>
      cases hresult : registry.rollback modality with
      | error e => rwa [port.step_rollback_of_error hresult]
      | ok result =>
          rw [port.step_rollback_of_ok hresult]
          intro key stored hget
          obtain ⟨before, hbefore, htarget⟩ := rollbackTo_of_rollback hresult hget
          rw [← htarget]
          exact h key before hbefore

theorem not_loopless_step {c : RegistryCall} (hc : ¬registry.KeepsTarget c) :
    ¬port.Loopless (port.step registry c) := by
  cases c with
  | register version makeActive =>
      simp only [KeepsTarget, not_forall, not_not] at hc
      obtain ⟨hnew, hfree, hself⟩ := hc
      obtain ⟨after, hafter⟩ := exists_insert hnew hfree
      rw [port.step_register_of_ok hafter, loopless_iff]
      intro h
      have hstored : after.rows.get? version.id =
          some { version with isActive := makeActive } := by
        rw [(insert_eq_ok_iff.1 hafter).2.2, Dict.get?_set_self]
      exact h version.id _ hstored hself
  | promote modelId canaryPercent => exact absurd trivial hc
  | rollback modality => exact absurd trivial hc

/-- The version serves after it was promoted over the previous one, perhaps repeatedly. -/
structure Ramped (registry : PostgresModelRegistry) (modality : Modality)
    (previous modelId : ModelVersionId) : Prop where
  standing : ∃ row, registry.rows.get? previous = some row ∧ row.modality = modality
  serving : ∃ row, registry.active? modality = some row ∧ row.id = modelId ∧
    row.rollbackTo = some previous

theorem serves_iff {modelId : ModelVersionId} : port.Serves registry modality modelId ↔
    ∃ row, registry.active? modality = some row ∧ row.id = modelId := by
  change (∃ version, registry.activeFor modality = .ok version ∧ _) ↔ _
  unfold activeFor
  cases registry.active? modality with
  | none => simp
  | some row => simp

theorem ramped_step {previous : ModelVersionId} (hne : modelId ≠ previous)
    (h : port.Serves registry modality previous ∨ registry.Ramped modality previous modelId)
    {c : RegistryCall} (hc : port.Promotes modality modelId registry c) :
    (port.step registry c).Ramped modality previous modelId := by
  obtain ⟨canaryPercent, promoted, after, rfl, hresult, hmodality⟩ := hc
  rw [port.step_promote_of_ok hresult]
  obtain ⟨row, hrow, -, rfl, hpromoted, hprevious, hothers⟩ := promote_effects hresult
  have hid := registry.keyed _ _ hrow
  change row.modality = modality at hmodality
  have hserving : ∀ recorded, (row.promoted (registry.replaced row) canaryPercent).rollbackTo =
      some recorded → ∃ row', after.active? modality = some row' ∧ row'.id = modelId ∧
        row'.rollbackTo = some recorded := by
    intro recorded hrecorded
    rw [← hid] at hpromoted
    exact ⟨row.promoted (registry.replaced row) canaryPercent,
      active?_eq_some_iff.2 ⟨hpromoted, hmodality, rfl⟩, hid, hrecorded⟩
  rcases h with hserves | hramped
  · obtain ⟨active, hactive, rfl⟩ := serves_iff.1 hserves
    have hreplaced : registry.replaced row = some active :=
      replaced_eq_some_iff.2 ⟨hmodality ▸ hactive, fun heq => hne (hid.symm.trans heq.symm)⟩
    refine ⟨⟨_, hprevious active hreplaced, (active?_eq_some_iff.1 hactive).2.1⟩, hserving _ ?_⟩
    rw [hreplaced]
    rfl
  · obtain ⟨active, hactive, hactiveId, hrecorded⟩ := hramped.serving
    have hsame : row = active := by
      have hstored := (active?_eq_some_iff.1 hactive).1
      rw [hactiveId, hrow] at hstored
      exact Option.some.inj hstored
    have hreplaced : registry.replaced row = none := by
      rw [replaced, hmodality, hactive, hsame]
      simp
    obtain ⟨standing, hstanding, hstandingModality⟩ := hramped.standing
    refine ⟨⟨standing, ?_, hstandingModality⟩, hserving _ ?_⟩
    · rw [hothers previous (Ne.symm hne) (by simp [hreplaced]), hstanding]
    · rw [hreplaced, hsame]
      exact hrecorded

theorem Ramped.restores {previous : ModelVersionId} (hne : modelId ≠ previous)
    (h : registry.Ramped modality previous modelId) :
    ∃ restored after, registry.rollback modality = .ok (restored, after) ∧
      restored.id = previous ∧ port.Serves after modality previous := by
  obtain ⟨target, htarget, hmodality⟩ := h.standing
  obtain ⟨current, hcurrent, rfl, hrecorded⟩ := h.serving
  obtain rfl := registry.keyed _ _ htarget
  obtain ⟨⟨restored, after⟩, hresult⟩ := registry.exists_restored hcurrent hrecorded htarget
    fun other hother => by
      rw [hmodality, hcurrent] at hother
      exact .inl (congrArg (·.id) (Option.some.inj hother).symm)
  obtain ⟨current', target', hcurrent', hrecorded', htarget', hrestored, -, hafter⟩ :=
    rollback_effects hresult
  obtain rfl := Option.some.inj (hcurrent.symm.trans hcurrent')
  rw [hrecorded] at hrecorded'
  rw [← Option.some.inj hrecorded', htarget] at htarget'
  obtain rfl := Option.some.inj htarget'
  have hrow : target.restored current = { target with isActive := true } := by
    rw [ModelVersionRow.restored, if_neg (Ne.symm hne)]
  have hserving := hafter target.id
  rw [if_pos rfl, hrow] at hserving
  refine ⟨restored, after, hresult, ?_, ?_⟩
  · rw [hrestored, hrow]
  · exact serves_iff.2 ⟨{ target with isActive := true },
      active?_eq_some_iff.2 ⟨hserving, hmodality, rfl⟩, rfl⟩

/-- On Postgres a rollback restores what was promoted away exactly when no version goes in that
names itself. -/
theorem restoresPrevious_iff (calls : List RegistryCall) :
    port.RestoresPrevious empty calls ↔ EveryStep port.step KeepsTarget empty calls := by
  have hloopless : EveryStep port.step KeepsTarget empty calls ↔
      Throughout port.step port.Loopless empty calls := by
    have hkeep : ∀ (registry : PostgresModelRegistry) (c : RegistryCall),
        port.Loopless registry → registry.KeepsTarget c → port.Loopless (port.step registry c) :=
      fun _ _ h hc => loopless_step h hc
    have hbreak : ∀ (registry : PostgresModelRegistry) (c : RegistryCall),
        port.Loopless registry → ¬registry.KeepsTarget c → ¬port.Loopless (port.step registry c) :=
      fun _ _ _ hc => not_loopless_step hc
    apply Runs.everyStep_iff_throughout (fun _ h => h) hkeep hbreak
    intro key version hget
    cases hget
  constructor
  · exact fun h => hloopless.2 h.loopless
  · intro h
    refine ⟨?_, hloopless.1 h⟩
    rintro before promotions rest modality previous modelId - hsome hne hserves hpromotes
    rw [List.foldl_append]
    cases promotions with
    | nil => exact absurd rfl hsome
    | cons c promotions =>
        obtain ⟨hfirst, hothers⟩ := Runs.everyStep_cons.1 hpromotes
        have hramped := ramped_step hne (.inl hserves) hfirst
        have hstep : ∀ (registry : PostgresModelRegistry) (c : RegistryCall),
            registry.Ramped modality previous modelId → port.Promotes modality modelId registry c →
              (port.step registry c).Ramped modality previous modelId :=
          fun _ _ h hc => ramped_step hne (.inr h) hc
        exact (Runs.foldl_induction hstep hramped hothers).restores hne

end PostgresModelRegistry

/-- In either registry a rollback restores what was active before the version it withdraws was
promoted, over exactly the runs that let no version name itself as its target. In process
memory that takes that no active version is promoted again. -/
theorem restoresPrevious_iff_keepsTarget (calls : List RegistryCall) :
    (InMemoryModelRegistry.port.RestoresPrevious .empty calls ↔
        EveryStep InMemoryModelRegistry.port.step InMemoryModelRegistry.KeepsTarget .empty calls) ∧
      (PostgresModelRegistry.port.RestoresPrevious .empty calls ↔
        EveryStep PostgresModelRegistry.port.step PostgresModelRegistry.KeepsTarget .empty calls) :=
  ⟨InMemoryModelRegistry.restoresPrevious_iff calls,
    PostgresModelRegistry.restoresPrevious_iff calls⟩

def evaluatedModel (id : ModelVersionId) : ModelVersion where
  id := id
  modality := .audio
  artifactDigest := "sha256:" ++ id.value
  datasetVersion := "v1"
  approval := .evaluated
  metrics := .empty
  rollbackTo := none

def servingModel : ModelVersionId := ⟨⟨"m-1", by decide⟩⟩

def rampedModel : ModelVersionId := ⟨⟨"m-2", by decide⟩⟩

def canaryRamp : List RegistryCall :=
  [.register (evaluatedModel servingModel) true, .register (evaluatedModel rampedModel) false,
    .promote rampedModel 10, .promote rampedModel 100]

/-- In process memory the canary and the full promotion of one version lose the way back. -/
theorem not_restoresPrevious_canaryRamp :
    ¬InMemoryModelRegistry.port.RestoresPrevious .empty canaryRamp := by
  intro h
  have hserves : InMemoryModelRegistry.port.Serves
      ((canaryRamp.take 2).foldl InMemoryModelRegistry.port.step .empty) .audio servingModel :=
    ⟨evaluatedModel servingModel, by decide +kernel, rfl⟩
  have hpromotes : EveryStep InMemoryModelRegistry.port.step
      (InMemoryModelRegistry.port.Promotes .audio rampedModel)
      ((canaryRamp.take 2).foldl InMemoryModelRegistry.port.step .empty) (canaryRamp.drop 2) := by
    refine Runs.everyStep_cons.2 ⟨⟨10, _, _, rfl, rfl, rfl⟩, ?_⟩
    exact Runs.everyStep_cons.2 ⟨⟨100, _, _, rfl, rfl, rfl⟩, Runs.everyStep_nil _⟩
  obtain ⟨restored, after, hresult, hid, -⟩ := h.restores (canaryRamp.take 2) (canaryRamp.drop 2) []
    .audio servingModel rampedModel rfl (by decide +kernel) (by decide +kernel) hserves hpromotes
  have hunmoved : (InMemoryModelRegistry.port.rollback
      (canaryRamp.foldl InMemoryModelRegistry.port.step .empty) .audio).toOption.map (·.1.id) =
        some rampedModel := by decide +kernel
  rw [List.take_append_drop] at hresult
  rw [hresult] at hunmoved
  exact absurd (hid.symm.trans (Option.some.inj hunmoved)) (by decide +kernel)

end OratoriaEngine
