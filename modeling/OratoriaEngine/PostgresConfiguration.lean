import OratoriaEngine.Adapters
import OratoriaEngine.VersionText

/-!
# Configuration snapshots on Postgres

A snapshot is a row: its identifier, its three versions as text, and a document with the rest.
What the server itself refuses to insert, such as a text that is too long for its column or a
number that a document cannot hold, is a parameter.
-/

namespace OratoriaEngine

def FusionWindow.of (widthMs : ℤ) (configuration : ConfigurationSnapshotId) :
    Except Failure FusionWindow :=
  if h : 0 ≤ widthMs then .ok ⟨widthMs, configuration, h⟩
  else .error (.fusionViolation s!"fusion window cannot be negative: {widthMs}")

structure CalibrationPayload where
  baselineYawDegrees : PyFloat
  baselinePitchDegrees : PyFloat
  baselineTorsoDegrees : PyFloat
  gazeConeDegrees : PyFloat
  postureDeviationDegrees : PyFloat
  minLandmarkVisibility : PyFloat
  deriving DecidableEq

structure SnapshotPayload where
  fusionWindowMs : ℤ
  speechThresholds : Thresholds
  visualThresholds : Thresholds
  silenceThresholdMs : ℤ
  calibration : Option CalibrationPayload
  deriving DecidableEq

structure ConfigurationSnapshotRow where
  id : String
  taxonomyVersion : String
  pipelineVersion : String
  schemaVersion : String
  payload : SnapshotPayload
  createdAt : ℤ

def VisualCalibration.toPayload (c : VisualCalibration) : CalibrationPayload where
  baselineYawDegrees := c.baselineYawDegrees
  baselinePitchDegrees := c.baselinePitchDegrees
  baselineTorsoDegrees := c.baselineTorsoDegrees
  gazeConeDegrees := c.gazeConeDegrees
  postureDeviationDegrees := c.postureDeviationDegrees
  minLandmarkVisibility := c.minLandmarkVisibility

/-- `VisualCalibration(**calibration)`; the refusals leave out the number they end with. -/
def CalibrationPayload.read (p : CalibrationPayload) : Except Failure VisualCalibration :=
  if hcone : PyFloat.lt (.fin 0) p.gazeConeDegrees = true ∧
      p.gazeConeDegrees.lt (.fin 90) = true then
    if hposture : p.postureDeviationDegrees.le (.fin 0) = false then
      if hvisibility : PyFloat.le (.fin 0) p.minLandmarkVisibility = true ∧
          p.minLandmarkVisibility.le (.fin 1) = true then
        .ok {
          baselineYawDegrees := p.baselineYawDegrees
          baselinePitchDegrees := p.baselinePitchDegrees
          baselineTorsoDegrees := p.baselineTorsoDegrees
          gazeConeDegrees := p.gazeConeDegrees
          postureDeviationDegrees := p.postureDeviationDegrees
          minLandmarkVisibility := p.minLandmarkVisibility
          cone := hcone
          posture := hposture
          visibility := hvisibility }
      else .error (.foreign "CalibrationViolation" "landmark visibility must lie in [0, 1]")
    else .error (.foreign "CalibrationViolation" "posture threshold must be positive")
  else .error (.foreign "CalibrationViolation" "gaze cone must lie in (0, 90) degrees")

def snapshotToJson (snapshot : ConfigurationSnapshot) : SnapshotPayload where
  fusionWindowMs := snapshot.fusionWindow.widthMs
  speechThresholds := snapshot.speechThresholds
  visualThresholds := snapshot.visualThresholds
  silenceThresholdMs := snapshot.silenceThresholdMs
  calibration := snapshot.calibration.map (·.toPayload)

def rowToSnapshot (row : ConfigurationSnapshotRow) : Except Failure ConfigurationSnapshot := do
  let snapshotId ← ConfigurationSnapshotId.mk <$> Identifier.of "ConfigurationSnapshotId" row.id
  let taxonomyVersion ← SemanticVersion.parse row.taxonomyVersion
  let pipelineVersion ← SemanticVersion.parse row.pipelineVersion
  let schemaVersion ← SemanticVersion.parse row.schemaVersion
  let fusionWindow ← FusionWindow.of row.payload.fusionWindowMs snapshotId
  let calibration ← row.payload.calibration.mapM (·.read)
  return {
    id := snapshotId
    taxonomyVersion := taxonomyVersion
    pipelineVersion := pipelineVersion
    schemaVersion := schemaVersion
    fusionWindow := fusionWindow
    speechThresholds := row.payload.speechThresholds
    visualThresholds := row.payload.visualThresholds
    silenceThresholdMs := row.payload.silenceThresholdMs
    calibration := calibration }

def snapshotToRow (snapshot : ConfigurationSnapshot) (createdAt : ℤ) :
    ConfigurationSnapshotRow where
  id := snapshot.id.value
  taxonomyVersion := toString snapshot.taxonomyVersion
  pipelineVersion := toString snapshot.pipelineVersion
  schemaVersion := toString snapshot.schemaVersion
  payload := snapshotToJson snapshot
  createdAt := createdAt

theorem CalibrationPayload.read_toPayload (c : VisualCalibration) : c.toPayload.read = .ok c := by
  unfold CalibrationPayload.read VisualCalibration.toPayload
  rw [dif_pos c.cone, dif_pos c.posture, dif_pos c.visibility]

structure ReadsVersions (row : ConfigurationSnapshotRow) (snapshot : ConfigurationSnapshot) :
    Prop where
  taxonomy : SemanticVersion.parse row.taxonomyVersion = .ok snapshot.taxonomyVersion
  pipeline : SemanticVersion.parse row.pipelineVersion = .ok snapshot.pipelineVersion
  schema : SemanticVersion.parse row.schemaVersion = .ok snapshot.schemaVersion

theorem readsVersions_snapshotToRow (snapshot : ConfigurationSnapshot) (createdAt : ℤ) :
    ReadsVersions (snapshotToRow snapshot createdAt) snapshot :=
  ⟨SemanticVersion.parse_toString _, SemanticVersion.parse_toString _,
    SemanticVersion.parse_toString _⟩

section Read

variable {row : ConfigurationSnapshotRow} {snapshot : ConfigurationSnapshot}

theorem rowToSnapshot_of_payload (hid : row.id = snapshot.id.value)
    (hpayload : row.payload = snapshotToJson snapshot) :
    rowToSnapshot row = do
      let taxonomyVersion ← SemanticVersion.parse row.taxonomyVersion
      let pipelineVersion ← SemanticVersion.parse row.pipelineVersion
      let schemaVersion ← SemanticVersion.parse row.schemaVersion
      return { snapshot with
        taxonomyVersion := taxonomyVersion
        pipelineVersion := pipelineVersion
        schemaVersion := schemaVersion
        fusionWindow := ⟨snapshot.fusionWindow.widthMs, snapshot.id,
          snapshot.fusionWindow.nonneg⟩ } := by
  have hidentifier :
      ConfigurationSnapshotId.mk <$> Identifier.of "ConfigurationSnapshotId" row.id =
        .ok snapshot.id := by
    rw [hid, Identifier.of_value]
    rfl
  have hwindow : FusionWindow.of row.payload.fusionWindowMs snapshot.id =
      .ok ⟨snapshot.fusionWindow.widthMs, snapshot.id, snapshot.fusionWindow.nonneg⟩ := by
    rw [hpayload]
    exact dif_pos snapshot.fusionWindow.nonneg
  have hcalibration : row.payload.calibration.mapM (·.read) = .ok snapshot.calibration := by
    rw [hpayload]
    change (snapshot.calibration.map (·.toPayload)).mapM _ = _
    cases snapshot.calibration with
    | none => rfl
    | some c => exact congrArg (some <$> ·) (CalibrationPayload.read_toPayload c)
  simp only [rowToSnapshot, hidentifier, bind, Except.bind, hwindow, hcalibration]
  rw [hpayload]
  rfl

theorem rowToSnapshot_eq_ok_iff (hid : row.id = snapshot.id.value)
    (hpayload : row.payload = snapshotToJson snapshot) :
    rowToSnapshot row = .ok snapshot ↔
      ReadsVersions row snapshot ∧ snapshot.fusionWindow.configuration = snapshot.id := by
  rw [rowToSnapshot_of_payload hid hpayload]
  constructor
  · intro h
    obtain ⟨taxonomyVersion, htaxonomy, h⟩ := Except.bind_eq_ok.1 h
    obtain ⟨pipelineVersion, hpipeline, h⟩ := Except.bind_eq_ok.1 h
    obtain ⟨schemaVersion, hschema, h⟩ := Except.bind_eq_ok.1 h
    have hread := Except.ok.inj h
    refine ⟨⟨?_, ?_, ?_⟩, ?_⟩
    · rw [htaxonomy, ← congrArg ConfigurationSnapshot.taxonomyVersion hread]
    · rw [hpipeline, ← congrArg ConfigurationSnapshot.pipelineVersion hread]
    · rw [hschema, ← congrArg ConfigurationSnapshot.schemaVersion hread]
    · exact (congrArg (·.fusionWindow.configuration) hread).symm
  · rintro ⟨⟨htaxonomy, hpipeline, hschema⟩, hnames⟩
    have hwindow : (⟨snapshot.fusionWindow.widthMs, snapshot.id,
        snapshot.fusionWindow.nonneg⟩ : FusionWindow) = snapshot.fusionWindow :=
      FusionWindow.ext rfl hnames.symm
    rw [htaxonomy, hpipeline, hschema, hwindow]
    rfl

theorem rowToSnapshot_snapshotToRow_iff (createdAt : ℤ) :
    rowToSnapshot (snapshotToRow snapshot createdAt) = .ok snapshot ↔
      snapshot.fusionWindow.configuration = snapshot.id := by
  rw [rowToSnapshot_eq_ok_iff rfl rfl]
  exact and_iff_right (readsVersions_snapshotToRow snapshot createdAt)

end Read

/-- The first row of a query that orders the rows by their age, youngest first. Which of the
rows of one moment comes first is up to the server. -/
structure RowOrder where
  first : List ConfigurationSnapshotRow → Option ConfigurationSnapshotRow
  first_mem : ∀ rows row, first rows = some row → row ∈ rows
  youngest : ∀ rows row, first rows = some row → ∀ other ∈ rows, other.createdAt ≤ row.createdAt
  first_eq_none : ∀ rows, first rows = none → rows = []

/-- The rows by their primary key, and the build's default. -/
structure PostgresConfigurationStore where
  rows : Dict String ConfigurationSnapshotRow
  keyed : ∀ key row, rows.get? key = some row → row.id = key
  default : ConfigurationSnapshot

namespace PostgresConfigurationStore

variable (store : PostgresConfigurationStore)

def empty (default : ConfigurationSnapshot) : PostgresConfigurationStore :=
  ⟨.empty, fun _ _ h => (nomatch h), default⟩

def insert (row : ConfigurationSnapshotRow) : PostgresConfigurationStore where
  rows := store.rows.set row.id row
  keyed key row' h := by
    rw [Dict.get?_set] at h
    split_ifs at h with hkey
    · cases h
      exact hkey.symm
    · exact store.keyed key row' h
  default := store.default

/-- The snapshot a historical run was produced under. -/
def get (snapshotId : ConfigurationSnapshotId) : Except Failure (Option ConfigurationSnapshot) :=
  match store.rows.get? snapshotId.value with
  | some row => some <$> rowToSnapshot row
  | none => .ok (if snapshotId = store.default.id then some store.default else none)

/-- The snapshot a new session should freeze. The tenant is not part of the query. -/
def current (order : RowOrder) (_tenant : TenantId) : Except Failure ConfigurationSnapshot :=
  match order.first store.rows.values with
  | some row => rowToSnapshot row
  | none => .ok store.default

/-- Publish the snapshot if it is new; one transaction. The session is not recorded. -/
def freeze (refuses : ConfigurationSnapshotRow → Option Failure) (snapshot : ConfigurationSnapshot)
    (_sessionId : SessionId) (createdAt : ℤ) : Except Failure Unit × PostgresConfigurationStore :=
  match store.rows.get? snapshot.id.value with
  | none =>
      match refuses (snapshotToRow snapshot createdAt) with
      | some e => (.error e, store)
      | none => (.ok (), store.insert (snapshotToRow snapshot createdAt))
  | some existing =>
      if existing.payload ≠ snapshotToJson snapshot then
        (.error (.foreign "ControlPlaneError"
          (s!"configuration {snapshot.id.value} is already published with different " ++
            "content; published versions are immutable (US-008)")), store)
      else (.ok (), store)

end PostgresConfigurationStore

end OratoriaEngine
