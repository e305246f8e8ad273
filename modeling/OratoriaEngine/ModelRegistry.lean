import OratoriaEngine.Floats
import OratoriaEngine.Identifiers
import OratoriaEngine.Lib.Dict
import OratoriaEngine.Lib.Except
import OratoriaEngine.Lib.Runs
import OratoriaEngine.Taxonomy

/-!
# The model registry

One version of a model serves a modality. Promoting another one records what it replaces as its
rollback target, and rolling back follows that link. There is a registry in process memory and
one on Postgres, where an index lets no two rows of a modality be active.
-/

namespace OratoriaEngine

inductive ApprovalState
  | draft
  | evaluated
  | approved
  | canary
  | production
  | rolledBack
  | disabled
  deriving DecidableEq, Repr

def ApprovalState.value : ApprovalState → String
  | .draft => "draft"
  | .evaluated => "evaluated"
  | .approved => "approved"
  | .canary => "canary"
  | .production => "production"
  | .rolledBack => "rolled_back"
  | .disabled => "disabled"

structure ModelVersion where
  id : ModelVersionId
  modality : Modality
  artifactDigest : String
  datasetVersion : String
  approval : ApprovalState
  metrics : Dict String PyFloat
  rollbackTo : Option ModelVersionId
  deriving DecidableEq

def promotable : List ApprovalState := [.evaluated, .approved, .canary]

def approvalAt (canaryPercent : ℤ) : ApprovalState :=
  if canaryPercent = 100 then .production else .canary

/-- The port. An operation that raises leaves the registry as it was. -/
structure ModelRegistry (σ : Type) where
  activeFor : σ → Modality → Except Failure ModelVersion
  get : σ → ModelVersionId → Option ModelVersion
  register : σ → ModelVersion → Bool → Except Failure σ
  promote : σ → ModelVersionId → ℤ → Except Failure (ModelVersion × σ)
  rollback : σ → Modality → Except Failure (ModelVersion × σ)

inductive RegistryCall
  | register (version : ModelVersion) (makeActive : Bool)
  | promote (modelId : ModelVersionId) (canaryPercent : ℤ)
  | rollback (modality : Modality)

def ModelRegistry.step {σ : Type} (r : ModelRegistry σ) (s : σ) : RegistryCall → σ
  | .register version makeActive => ((r.register s version makeActive).toOption).getD s
  | .promote modelId canaryPercent =>
      ((r.promote s modelId canaryPercent).toOption.map Prod.snd).getD s
  | .rollback modality => ((r.rollback s modality).toOption.map Prod.snd).getD s

structure InMemoryModelRegistry where
  versions : Dict ModelVersionId ModelVersion
  keyed : ∀ key version, versions.get? key = some version → version.id = key
  active : Dict Modality ModelVersionId

namespace InMemoryModelRegistry

def empty : InMemoryModelRegistry where
  versions := .empty
  keyed _ _ h := nomatch h
  active := .empty

variable (registry : InMemoryModelRegistry)

def put (version : ModelVersion) : InMemoryModelRegistry where
  versions := registry.versions.set version.id version
  keyed key version' h := by
    rw [Dict.get?_set] at h
    split_ifs at h with hkey
    · cases h
      exact hkey.symm
    · exact registry.keyed key version' h
  active := registry.active

def activate (modality : Modality) (modelId : ModelVersionId) : InMemoryModelRegistry :=
  { registry with active := registry.active.set modality modelId }

def register (version : ModelVersion) (makeActive : Bool) : InMemoryModelRegistry :=
  if makeActive then (registry.put version).activate version.modality version.id
  else registry.put version

def get (modelId : ModelVersionId) : Option ModelVersion := registry.versions.get? modelId

def activeFor (modality : Modality) : Except Failure ModelVersion :=
  match registry.active.get? modality with
  | none => .error (.configurationError
      (s!"no active model for {modality.value}; the pipeline cannot run a " ++
        "modality whose version it could not record (NFR-014)"))
  | some modelId =>
      match registry.versions.get? modelId with
      | some version => .ok version
      | none => .error (.foreign "KeyError" s!"'{modelId.value}'")

def promote (modelId : ModelVersionId) (canaryPercent : ℤ) :
    Except Failure (ModelVersion × InMemoryModelRegistry) :=
  match registry.versions.get? modelId with
  | none => .error (.configurationError s!"unknown model version {modelId.value}")
  | some version =>
      if version.approval ∉ promotable then
        .error (.configurationError
          (s!"model {modelId.value} is '{version.approval.value}'; only evaluated or " ++
            "approved artifacts may be promoted (US-007)"))
      else if ¬(0 ≤ canaryPercent ∧ canaryPercent ≤ 100) then
        .error (.configurationError s!"canary percentage out of range: {canaryPercent}")
      else
        -- the target is whatever is active, be it the version itself
        let promoted := { version with
          approval := approvalAt canaryPercent
          rollbackTo := registry.active.get? version.modality }
        .ok (promoted, (registry.put promoted).activate promoted.modality promoted.id)

def rollback (modality : Modality) : Except Failure (ModelVersion × InMemoryModelRegistry) := do
  let current ← registry.activeFor modality
  match current.rollbackTo with
  | none => .error (.configurationError
      (s!"no rollback target recorded for {modality.value}; " ++
        "a promotion without one cannot be undone"))
  | some targetId =>
      match registry.versions.get? targetId with
      | none => .error (.foreign "KeyError" s!"'{targetId.value}'")
      | some target =>
          .ok (target,
            (registry.put { current with approval := .rolledBack }).activate modality target.id)

def port : ModelRegistry InMemoryModelRegistry where
  activeFor := activeFor
  get := get
  register registry version makeActive := .ok (registry.register version makeActive)
  promote := promote
  rollback := rollback

end InMemoryModelRegistry

structure ModelVersionRow extends ModelVersion where
  isActive : Bool
  deriving DecidableEq

namespace ModelVersionRow

def promoted (row : ModelVersionRow) (previous : Option ModelVersionRow) (canaryPercent : ℤ) :
    ModelVersionRow :=
  { row with
    approval := approvalAt canaryPercent
    rollbackTo := previous.map (·.id) <|> row.rollbackTo
    isActive := true }

def withdrawn (row : ModelVersionRow) : ModelVersionRow :=
  { row with
    approval := .rolledBack
    isActive := false }

/-- Active again. A row that names itself is one object with the one that is withdrawn. -/
def restored (target current : ModelVersionRow) : ModelVersionRow :=
  { if target.id = current.id then current.withdrawn else target with isActive := true }

end ModelVersionRow

/-- The rows by their primary key, at most one of a modality active. -/
structure PostgresModelRegistry where
  rows : Dict ModelVersionId ModelVersionRow
  keyed : ∀ key row, rows.get? key = some row → row.id = key
  onePerModality : ∀ key row key' row', rows.get? key = some row → rows.get? key' = some row' →
    row.isActive = true → row'.isActive = true → row.modality = row'.modality → key = key'

namespace PostgresModelRegistry

def empty : PostgresModelRegistry where
  rows := .empty
  keyed _ _ h := nomatch h
  onePerModality _ _ _ _ h := nomatch h

variable (registry : PostgresModelRegistry)

def Admits (row : ModelVersionRow) : Prop :=
  row.isActive = true → ∀ other ∈ registry.rows.values,
    other.isActive = true → other.modality = row.modality → other.id = row.id

instance (row : ModelVersionRow) : Decidable (registry.Admits row) :=
  inferInstanceAs (Decidable (row.isActive = true → ∀ other ∈ registry.rows.values,
    other.isActive = true → other.modality = row.modality → other.id = row.id))

theorem Admits.get? {row : ModelVersionRow} (h : registry.Admits row) {key : ModelVersionId}
    {other : ModelVersionRow} (hget : registry.rows.get? key = some other)
    (hactive : row.isActive = true) (hother : other.isActive = true)
    (hmodality : other.modality = row.modality) : key = row.id :=
  (registry.keyed key other hget).symm.trans
    (h hactive other (Dict.mem_values_of_get? hget) hother hmodality)

/-- Write one row; the index refuses a second active one. -/
def flush (row : ModelVersionRow) : Except Failure PostgresModelRegistry :=
  if h : registry.Admits row then
    .ok {
      rows := registry.rows.set row.id row
      keyed := by
        intro key row' hget
        rw [Dict.get?_set] at hget
        split_ifs at hget with hkey
        · cases hget
          exact hkey.symm
        · exact registry.keyed key row' hget
      onePerModality := by
        intro key first key' second hfirst hsecond hactive hactive' hmodality
        rw [Dict.get?_set] at hfirst hsecond
        split_ifs at hfirst hsecond with hkey hkey' hkey'
        · rw [hkey, hkey']
        · cases hfirst
          rw [hkey, h.get? registry hsecond hactive hactive' hmodality.symm]
        · cases hsecond
          rw [hkey', h.get? registry hfirst hactive' hactive hmodality]
        · exact registry.onePerModality key first key' second hfirst hsecond hactive hactive'
            hmodality }
  else .error (.foreign "IntegrityError" "uq_model_active_per_modality")

def insert (version : ModelVersion) (isActive : Bool) : Except Failure PostgresModelRegistry :=
  if registry.rows.contains version.id then .error (.foreign "IntegrityError" "model_version_pkey")
  else registry.flush { version with isActive := isActive }

def active? (modality : Modality) : Option ModelVersionRow :=
  registry.rows.values.find? fun row => decide (row.modality = modality ∧ row.isActive = true)

def get (modelId : ModelVersionId) : Option ModelVersion :=
  (registry.rows.get? modelId).map (·.toModelVersion)

def activeFor (modality : Modality) : Except Failure ModelVersion :=
  match registry.active? modality with
  | none => .error (.foreign "ControlPlaneError"
      (s!"no active model for {modality.value}; the pipeline cannot run a " ++
        "modality whose version it could not record (NFR-014)"))
  | some row => .ok row.toModelVersion

def replaced (row : ModelVersionRow) : Option ModelVersionRow :=
  (registry.active? row.modality).filter fun previous => decide (previous.id ≠ row.id)

/-- Deactivated and flushed before another is activated, for the sake of the index. -/
def retire : Option ModelVersionRow → Except Failure PostgresModelRegistry
  | some previous => registry.flush { previous with isActive := false }
  | none => .ok registry

def promote (modelId : ModelVersionId) (canaryPercent : ℤ) :
    Except Failure (ModelVersion × PostgresModelRegistry) :=
  if ¬(0 ≤ canaryPercent ∧ canaryPercent ≤ 100) then
    .error (.foreign "ControlPlaneError" s!"canary percentage out of range: {canaryPercent}")
  else
    match registry.rows.get? modelId with
    | none => .error (.foreign "ControlPlaneError" s!"unknown model version {modelId.value}")
    | some row =>
        if row.approval ∉ promotable then
          .error (.foreign "ControlPlaneError"
            (s!"model {modelId.value} is '{row.approval.value}'; only evaluated or approved " ++
              "artifacts may be promoted (US-007)"))
        else do
          let previous := registry.replaced row
          let retired ← registry.retire previous
          let promoted := row.promoted previous canaryPercent
          let after ← retired.flush promoted
          return (promoted.toModelVersion, after)

def rollback (modality : Modality) : Except Failure (ModelVersion × PostgresModelRegistry) :=
  match registry.active? modality with
  | none => .error (.foreign "ControlPlaneError" s!"no active model for {modality.value}")
  | some current =>
      match current.rollbackTo with
      | none => .error (.foreign "ControlPlaneError"
          (s!"no rollback target recorded for {modality.value}; " ++
            "a promotion without one cannot be undone"))
      | some targetId =>
          match registry.rows.get? targetId with
          | none => .error (.foreign "ControlPlaneError"
              s!"rollback target {targetId.value} is missing from the registry")
          | some target => do
              let retired ← registry.flush current.withdrawn
              let restored := target.restored current
              let after ← retired.flush restored
              return (restored.toModelVersion, after)

def port : ModelRegistry PostgresModelRegistry where
  activeFor := activeFor
  get := get
  register := insert
  promote := promote
  rollback := rollback

end PostgresModelRegistry

end OratoriaEngine
