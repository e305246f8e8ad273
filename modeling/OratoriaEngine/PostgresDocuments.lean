import OratoriaEngine.EvidenceRepositories
import OratoriaEngine.Rendering

/-!
# Published documents on Postgres

The document of a session is stored whole, as it is published, beside the rows of its evidence.
It is rebuilt from its stored manifest and the rows of its run. Deleting the evidence of a session
deletes the rows of its runs, table by table, and its document.
-/

namespace OratoriaEngine

namespace Json

def typeName : Json → String
  | .null => "NoneType"
  | .bool _ => "bool"
  | .int _ => "int"
  | .float _ => "float"
  | .str _ => "str"
  | .arr _ => "list"
  | .obj _ => "dict"

def noAttribute (node : Json) (name : String) : Failure :=
  .foreign "AttributeError" s!"'{node.typeName}' object has no attribute '{name}'"

def subscript (node : Json) (key : String) : Except Failure Json :=
  match node with
  | .obj entries =>
      match entries.lookup key with
      | some value => .ok value
      | none => .error (.foreign "KeyError" s!"'{key}'")
  | .arr _ =>
      .error (.foreign "TypeError" "list indices must be integers or slices, not str")
  | .str _ => .error (.foreign "TypeError" "string indices must be integers, not 'str'")
  | _ => .error (.foreign "TypeError" s!"'{node.typeName}' object is not subscriptable")

/-- A text, on which the given method is called; nothing else has it. -/
def textWith (method : String) : Json → Except Failure String
  | .str text => .ok text
  | node => .error (node.noAttribute method)

def items : Json → Except Failure (List (String × Json))
  | .obj entries => .ok entries
  | node => .error (node.noAttribute "items")

end Json

/-- `SemanticVersion.parse(node)`. -/
def readVersion (node : Json) : Except Failure SemanticVersion :=
  node.textWith "split" >>= SemanticVersion.parse

def readModel (entry : String × Json) : Except Failure (Modality × ModelVersionId) := do
  let modality ← parseMember Modality.enumeration entry.1
  let version ← entry.2.textWith "strip" >>= Identifier.of "ModelVersionId"
  return (modality, ⟨version⟩)

def readManifest (manifest : Json) : Except Failure ProvenanceManifest := do
  let pipelineVersion ← manifest.subscript "pipeline_version" >>= readVersion
  let schemaVersion ← manifest.subscript "schema_version" >>= readVersion
  let taxonomyVersion ← manifest.subscript "taxonomy_version" >>= readVersion
  let configuration ← manifest.subscript "configuration_id" >>= Json.textWith "strip" >>=
    Identifier.of "ConfigurationSnapshotId"
  let entries ← manifest.subscript "models" >>= Json.items
  let models ← entries.mapM readModel
  ProvenanceManifest.of pipelineVersion schemaVersion taxonomyVersion ⟨configuration⟩
    (Dict.empty.setAll models)

structure EvidenceDocumentRow where
  tenantId : String
  sessionId : String
  runId : String
  schemaVersion : String
  document : Json

/-- The server refuses some documents, and hands back an object with its members in an order of
its own. -/
structure DocumentServer extends EvidenceServer where
  takes : Json → Bool
  column : Json → Json
  text : ∀ text, column (.str text) = .str text
  members : ∀ entries : List (String × Json), (entries.map Prod.fst).Nodup →
    ∃ answered : List (String × Json), column (.obj entries) = .obj answered ∧
      answered.Perm (entries.map fun entry => (entry.1, column entry.2))

namespace EvidenceRows

variable (rows : EvidenceRows)

/-- The rows that a condition on the run and the tenant selects. -/
def whose (p : String → String → Bool) : EvidenceRows where
  wordTokens := rows.wordTokens.filter fun r => p r.runId r.tenantId
  speechEvents := rows.speechEvents.filter fun r => p r.runId r.tenantId
  visualEvents := rows.visualEvents.filter fun r => p r.runId r.tenantId
  prosodyReadings := rows.prosodyReadings.filter fun r => p r.runId r.tenantId
  qualityAssessments := rows.qualityAssessments.filter fun r => p r.runId r.tenantId
  modalityAvailability := rows.modalityAvailability.filter fun r => p r.runId r.tenantId
  cooccurrences := rows.cooccurrences.filter fun r => p r.runId r.tenantId

def size : ℕ :=
  rows.wordTokens.length + rows.speechEvents.length + rows.visualEvents.length +
    rows.prosodyReadings.length + rows.qualityAssessments.length +
    rows.modalityAvailability.length + rows.cooccurrences.length

end EvidenceRows

/-- The evidence tables with the published documents, by tenant and session. -/
structure EvidenceDatabase where
  tables : EvidenceTables
  documents : Dict (String × String) EvidenceDocumentRow

def EvidenceDocument.holding (document : EvidenceDocument) (bundle : EvidenceBundle) :
    EvidenceDocument :=
  { document with
    transcript := bundle.transcript
    quality := bundle.quality
    speechEvents := bundle.speechEvents
    visualEvents := bundle.visualEvents
    prosody := bundle.prosody
    cooccurrences := bundle.cooccurrences }

def documentFrom (row : EvidenceDocumentRow) (bundle : EvidenceBundle) :
    Except Failure EvidenceDocument := do
  let stored ← row.document.subscript "manifest"
  let sessionId ← SessionId.of row.sessionId
  let runId ← RunId.mk <$> Identifier.of "RunId" row.runId
  let manifest ← readManifest stored
  return {
    sessionId := sessionId
    runId := runId
    manifest := manifest
    transcript := bundle.transcript
    quality := bundle.quality
    speechEvents := bundle.speechEvents
    visualEvents := bundle.visualEvents
    prosody := bundle.prosody
    cooccurrences := bundle.cooccurrences }

namespace EvidenceDatabase

variable (d : EvidenceDatabase) (server : DocumentServer)

def fresh : EvidenceDatabase := ⟨.fresh, .empty⟩

def saveRun (run : ProcessingRunRow) : EvidenceDatabase := { d with tables := d.tables.saveRun run }

def store (bundle : EvidenceBundle) : Option EvidenceDatabase :=
  (d.tables.store bundle).map fun tables => { d with tables := tables }

def documentRow (schemaVersion : String) (document : EvidenceDocument) (tenantId : String) :
    EvidenceDocumentRow where
  tenantId := tenantId
  sessionId := document.sessionId.value
  runId := document.runId.value
  schemaVersion := toString document.manifest.schemaVersion
  document := server.column (renderDocument document schemaVersion)

def storeDocument (schemaVersion : String) (document : EvidenceDocument) (tenant : TenantId) :
    Option EvidenceDatabase :=
  if server.takes (renderDocument document schemaVersion) then
    some { d with
      documents := d.documents.set (tenant.value, document.sessionId.value)
        (documentRow server schemaVersion document tenant.value) }
  else none

def loadDocument (tenant : TenantId) (sessionId : SessionId) :
    Except Failure (Option EvidenceDocument) :=
  match d.documents.get? (tenant.value, sessionId.value) with
  | none => .ok none
  | some row => do
      let runId ← RunId.mk <$> Identifier.of "RunId" row.runId
      match ← d.tables.load server.toEvidenceServer tenant runId with
      | none => return none
      | some bundle => some <$> documentFrom row bundle

def loadDocumentPayload (tenant : TenantId) (sessionId : SessionId) : Option Json :=
  (d.documents.get? (tenant.value, sessionId.value)).map (·.document)

def runIds (sessionId : SessionId) : List String :=
  (d.tables.runs.values.filter fun run => run.sessionId = sessionId.value).map (·.id)

def matched (tenant : TenantId) (sessionId : SessionId) (runId tenantId : String) : Bool :=
  decide (runId ∈ d.runIds sessionId) && decide (tenantId = tenant.value)

/-- `purge_session_rows`, with the number of rows the statements deleted. -/
def purgeSessionRows (tenant : TenantId) (sessionId : SessionId) : ℕ × EvidenceDatabase :=
  let rows := d.tables.rows
  let (removed, kept) :=
    if d.runIds sessionId = [] then (0, rows)
    else ((rows.whose (d.matched tenant sessionId)).size,
      rows.whose fun runId tenantId => !d.matched tenant sessionId runId tenantId)
  let key := (tenant.value, sessionId.value)
  (removed + if d.documents.contains key then 1 else 0,
    ⟨{ d.tables with rows := kept }, d.documents.erase key⟩)

end EvidenceDatabase

theorem filter_filter_key {ρ : Type} (p : String → String → Bool) (run tenant : ρ → String)
    (runId tenantId : String) (l : List ρ) :
    (l.filter fun r => p (run r) (tenant r)).filter
        (fun r => run r = runId ∧ tenant r = tenantId) =
      if p runId tenantId then l.filter fun r => run r = runId ∧ tenant r = tenantId else [] := by
  rw [List.filter_filter]
  split_ifs with h
  · refine List.filter_congr fun r _ => ?_
    by_cases hr : run r = runId ∧ tenant r = tenantId
    · simp [hr, h]
    · simp [hr]
  · refine List.filter_eq_nil_iff.2 fun r _ hr => ?_
    obtain ⟨⟨hrun, htenant⟩, hp⟩ : (run r = runId ∧ tenant r = tenantId) ∧
        p (run r) (tenant r) = true := by simpa using hr
    rw [hrun, htenant] at hp
    exact h hp

namespace EvidenceRows

variable (rows more : EvidenceRows) (p : String → String → Bool)

theorem whose_append : (rows.append more).whose p = (rows.whose p).append (more.whose p) := by
  simp only [append, whose, List.filter_append]

theorem size_append : (rows.append more).size = rows.size + more.size := by
  simp only [append, size, List.length_append]
  omega

theorem size_whose_add :
    (rows.whose p).size + (rows.whose fun runId tenantId => !p runId tenantId).size =
      rows.size := by
  have htokens := List.length_eq_length_filter_add (l := rows.wordTokens)
    fun r => p r.runId r.tenantId
  have hspeech := List.length_eq_length_filter_add (l := rows.speechEvents)
    fun r => p r.runId r.tenantId
  have hvisual := List.length_eq_length_filter_add (l := rows.visualEvents)
    fun r => p r.runId r.tenantId
  have hprosody := List.length_eq_length_filter_add (l := rows.prosodyReadings)
    fun r => p r.runId r.tenantId
  have hassessments := List.length_eq_length_filter_add (l := rows.qualityAssessments)
    fun r => p r.runId r.tenantId
  have havailability :=
    List.length_eq_length_filter_add (l := rows.modalityAvailability)
    fun r => p r.runId r.tenantId
  have hpairs := List.length_eq_length_filter_add (l := rows.cooccurrences)
    fun r => p r.runId r.tenantId
  simp only [size, whose]
  omega

theorem ofRun_whose (runId tenantId : String) :
    (rows.whose p).ofRun runId tenantId =
      if p runId tenantId then rows.ofRun runId tenantId else .empty := by
  simp only [whose, ofRun, filter_filter_key p]
  split_ifs <;> rfl

end EvidenceRows

/-- The same manifest; of the models, which version each modality ran under. -/
structure ProvenanceManifest.Same (manifest other : ProvenanceManifest) : Prop where
  pipelineVersion : manifest.pipelineVersion = other.pipelineVersion
  schemaVersion : manifest.schemaVersion = other.schemaVersion
  taxonomyVersion : manifest.taxonomyVersion = other.taxonomyVersion
  configuration : manifest.configuration = other.configuration
  models : ∀ modality, manifest.models.get? modality = other.models.get? modality

theorem readModel_render (entry : Modality × ModelVersionId) :
    readModel (entry.1.value, .str entry.2.value) = .ok entry := by
  have hmodality : parseMember Modality.enumeration entry.1.value = .ok entry.1 :=
    parseMember_value Modality.enumeration _
  have hversion : Identifier.of "ModelVersionId" entry.2.value = .ok entry.2.toIdentifier :=
    Identifier.of_value _ _
  simp only [readModel, hmodality, Json.textWith, hversion, bind, Except.bind]
  rfl

section Column

variable (server : DocumentServer)

theorem subscript_column {entries : List (String × Json)} (hnodup : (entries.map Prod.fst).Nodup)
    {key : String} {value : Json} (hmem : (key, value) ∈ entries) :
    (server.column (.obj entries)).subscript key = .ok (server.column value) := by
  obtain ⟨answered, hanswered, hperm⟩ := server.members entries hnodup
  have hkeys : (answered.map Prod.fst).Nodup := by
    refine (hperm.map Prod.fst).nodup_iff.2 ?_
    rwa [List.map_map]
  have hlookup : answered.lookup key = some (server.column value) :=
    (Dict.lookup_eq_some_iff_mem hkeys key _).2
      (hperm.mem_iff.2 (List.mem_map.2 ⟨_, hmem, rfl⟩))
  rw [hanswered, Json.subscript, hlookup]

theorem readVersion_column (version : SemanticVersion) :
    readVersion (server.column (.str (toString version))) = .ok version := by
  have hparse := SemanticVersion.parse_toString version
  simp only [readVersion, server.text, Json.textWith, hparse, bind, Except.bind]

theorem readModels_column (models : Dict Modality ModelVersionId) :
    ∃ stored entries, (server.column (.obj (models.entries.map fun entry =>
        (entry.1.value, .str entry.2.value)))).items = .ok stored ∧
      stored.mapM readModel = .ok entries ∧ entries.Perm models.entries := by
  have hkeys : (models.entries.map fun entry : Modality × ModelVersionId =>
      (entry.1.value, Json.str entry.2.value)).map Prod.fst =
        (models.entries.map Prod.fst).map Modality.enumeration.value := by
    rw [List.map_map, List.map_map]
    rfl
  have hnodup := models.nodup.map Modality.enumeration.value_injective
  rw [← hkeys] at hnodup
  obtain ⟨stored, hstored, hperm⟩ := server.members _ hnodup
  have hrows : stored.Perm (models.entries.map fun entry =>
      (entry.1.value, Json.str entry.2.value)) := by
    refine hperm.trans (List.Perm.of_eq ?_)
    rw [List.map_map]
    exact List.map_congr_left fun entry _ => Prod.ext rfl (server.text _)
  obtain ⟨entries, hread, hsame⟩ :=
    Except.mapM_perm_self readModel hrows fun entry _ => readModel_render entry
  exact ⟨stored, entries, by rw [hstored]; rfl, hread, hsame⟩

theorem readManifest_column (manifest : ProvenanceManifest) :
    ∃ read, readManifest (server.column (renderManifest manifest)) = .ok read ∧
      read.Same manifest := by
  obtain ⟨stored, entries, hitems, hread, hperm⟩ := readModels_column server manifest.models
  have hkeys : ∀ entries, renderManifest manifest = .obj entries →
      (entries.map Prod.fst).Nodup := by
    intro members h
    cases h
    simp
  have hpipeline : (server.column (renderManifest manifest)).subscript "pipeline_version" =
      .ok (server.column (.str (toString manifest.pipelineVersion))) :=
    subscript_column server (hkeys _ rfl) (by simp)
  have hschema : (server.column (renderManifest manifest)).subscript "schema_version" =
      .ok (server.column (.str (toString manifest.schemaVersion))) :=
    subscript_column server (hkeys _ rfl) (by simp)
  have htaxonomy : (server.column (renderManifest manifest)).subscript "taxonomy_version" =
      .ok (server.column (.str (toString manifest.taxonomyVersion))) :=
    subscript_column server (hkeys _ rfl) (by simp)
  have hconfiguration : (server.column (renderManifest manifest)).subscript "configuration_id" =
      .ok (server.column (.str manifest.configuration.value)) :=
    subscript_column server (hkeys _ rfl) (by simp)
  have hmodels : (server.column (renderManifest manifest)).subscript "models" =
      .ok (server.column (.obj (manifest.models.entries.map fun entry =>
        (entry.1.value, .str entry.2.value)))) :=
    subscript_column server (hkeys _ rfl) (by simp)
  have hid : Identifier.of "ConfigurationSnapshotId" manifest.configuration.value =
      .ok manifest.configuration.toIdentifier := Identifier.of_value _ _
  have htext : (server.column (.str manifest.configuration.value)).textWith "strip" =
      .ok manifest.configuration.value := by
    rw [server.text]
    rfl
  refine ⟨{ manifest with models := Dict.empty.setAll entries }, ?_,
    rfl, rfl, rfl, rfl, Dict.get?_setAll_of_perm hperm⟩
  simp only [readManifest, hpipeline, hschema, htaxonomy, hconfiguration, hmodels, hitems, hread,
    readVersion_column, htext, hid, bind, Except.bind]
  exact dif_pos manifest.current

theorem documentFrom_documentRow (schemaVersion : String) (document : EvidenceDocument)
    (tenantId : String) (bundle : EvidenceBundle) :
    ∃ manifest : ProvenanceManifest, manifest.Same document.manifest ∧
      documentFrom (EvidenceDatabase.documentRow server schemaVersion document tenantId) bundle =
        .ok { document.holding bundle with manifest := manifest } := by
  obtain ⟨manifest, hmanifest, hsame⟩ := readManifest_column server document.manifest
  have hkeys : ∀ entries, renderDocument document schemaVersion = .obj entries →
      (entries.map Prod.fst).Nodup := by
    intro members h
    cases h
    simp
  have hstored : (server.column (renderDocument document schemaVersion)).subscript "manifest" =
      .ok (server.column (renderManifest document.manifest)) :=
    subscript_column server (hkeys _ rfl) (by simp)
  have hrun : Identifier.of "RunId" document.runId.value = .ok document.runId.toIdentifier :=
    Identifier.of_value _ _
  refine ⟨manifest, hsame, ?_⟩
  simp only [documentFrom, EvidenceDatabase.documentRow, hstored, SessionId.of_value, hrun,
    hmanifest, bind, Except.bind]
  rfl

end Column

namespace EvidenceDatabase

variable (d : EvidenceDatabase) (tenant : TenantId) (sessionId : SessionId)

def size : ℕ := d.tables.rows.size + d.documents.entries.length

theorem mem_runIds_iff (runId : String) :
    runId ∈ d.runIds sessionId ↔
      ∃ run, d.tables.runs.get? runId = some run ∧ run.sessionId = sessionId.value := by
  constructor
  · intro h
    obtain ⟨run, hrun, rfl⟩ := List.mem_map.1 h
    obtain ⟨hmem, hsession⟩ := List.mem_filter.1 hrun
    obtain ⟨key, hkey⟩ := (Dict.mem_values_iff _ _).1 hmem
    rw [d.tables.keyed key run hkey]
    exact ⟨run, hkey, of_decide_eq_true hsession⟩
  · rintro ⟨run, hrun, hsession⟩
    refine List.mem_map.2 ⟨run, List.mem_filter.2 ⟨Dict.mem_values_of_get? hrun, ?_⟩,
      d.tables.keyed _ _ hrun⟩
    exact decide_eq_true hsession

theorem purgeSessionRows_eq :
    d.purgeSessionRows tenant sessionId =
      ((d.tables.rows.whose (d.matched tenant sessionId)).size +
          (if d.documents.contains (tenant.value, sessionId.value) then 1 else 0),
        ⟨{ d.tables with
            rows := d.tables.rows.whose fun runId tenantId =>
              !d.matched tenant sessionId runId tenantId },
          d.documents.erase (tenant.value, sessionId.value)⟩) := by
  by_cases h : d.runIds sessionId = []
  · have hnone : d.matched tenant sessionId = fun _ _ => false := by
      funext runId tenantId
      simp [matched, h]
    have hsize : (d.tables.rows.whose fun _ _ => false).size = 0 := by
      simp [EvidenceRows.whose, EvidenceRows.size]
    have hsame : (d.tables.rows.whose fun _ _ => true) = d.tables.rows := by
      simp [EvidenceRows.whose]
    simp only [purgeSessionRows, h, if_true, hnone, hsize, Bool.not_false, hsame]
  · simp only [purgeSessionRows, h, if_false]

theorem purgeSessionRows_size :
    (d.purgeSessionRows tenant sessionId).1 + (d.purgeSessionRows tenant sessionId).2.size =
      d.size := by
  have hrows := d.tables.rows.size_whose_add (d.matched tenant sessionId)
  have hdocuments : (d.documents.erase (tenant.value, sessionId.value)).entries.length +
      (if d.documents.contains (tenant.value, sessionId.value) then 1 else 0) =
        d.documents.entries.length := Dict.length_erase _ _
  rw [purgeSessionRows_eq, size, size]
  dsimp only
  omega

theorem purgeSessionRows_again :
    ((d.purgeSessionRows tenant sessionId).2.purgeSessionRows tenant sessionId).1 = 0 := by
  have hrows : ((d.tables.rows.whose fun runId tenantId =>
      !d.matched tenant sessionId runId tenantId).whose (d.matched tenant sessionId)) = .empty := by
    simp [EvidenceRows.whose, EvidenceRows.empty, List.filter_filter]
  have hdocument : (d.documents.erase (tenant.value, sessionId.value)).contains
      (tenant.value, sessionId.value) = false := by
    rw [Dict.contains_eq_false_iff, Dict.get?_erase_self]
  rw [purgeSessionRows_eq d]
  change (_ : ℕ × EvidenceDatabase).1 = 0
  rw [purgeSessionRows_eq]
  change (EvidenceRows.whose _ (d.matched tenant sessionId)).size + _ = 0
  rw [hrows, hdocument]
  rfl

end EvidenceDatabase

end OratoriaEngine
