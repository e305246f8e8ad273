import OratoriaEngine.Cooccurrence
import OratoriaEngine.Json
import OratoriaEngine.Lib.Dict
import OratoriaEngine.Quality
import OratoriaEngine.Transcript

/-!
# The evidence document

What one run derived, in its stored and in its published shape. The published
shape carries the versions that produced it, and is refused when it declares
another taxonomy than the one this build runs or carries a ranking field.
-/

namespace OratoriaEngine

/-- Everything one run derived, ready to be stored. -/
structure EvidenceBundle where
  runId : RunId
  sessionId : SessionId
  tenant : TenantId
  transcript : Transcript
  quality : QualityReport
  speechEvents : List SpeechEvent
  visualEvents : List VisualEvent
  prosody : List ProsodyReading
  cooccurrences : List MultimodalCooccurrence

structure ProvenanceManifest where
  pipelineVersion : SemanticVersion
  schemaVersion : SemanticVersion
  taxonomyVersion : SemanticVersion
  configuration : ConfigurationSnapshotId
  models : Dict Modality ModelVersionId
  current : taxonomyVersion = OratoriaEngine.taxonomyVersion

def ProvenanceManifest.of (pipelineVersion schemaVersion taxonomyVersion : SemanticVersion)
    (configuration : ConfigurationSnapshotId) (models : Dict Modality ModelVersionId) :
    Except Failure ProvenanceManifest :=
  if h : taxonomyVersion = OratoriaEngine.taxonomyVersion then
    .ok ⟨pipelineVersion, schemaVersion, taxonomyVersion, configuration, models, h⟩
  else .error (.resultViolation
    (s!"manifest declares taxonomy {taxonomyVersion} but this build " ++
      s!"runs {OratoriaEngine.taxonomyVersion}; historical documents must be read with " ++
      "their own manifest, not re-stamped with the current one"))

/-- The complete, unranked result of one processing run. -/
structure EvidenceDocument where
  sessionId : SessionId
  runId : RunId
  manifest : ProvenanceManifest
  transcript : Transcript
  quality : QualityReport
  speechEvents : List SpeechEvent
  visualEvents : List VisualEvent
  prosody : List ProsodyReading
  cooccurrences : List MultimodalCooccurrence

/-- `models.setdefault`: the first version a modality is seen under stays. -/
def setDefault (models : Dict Modality ModelVersionId) (provenance : Provenance) :
    Dict Modality ModelVersionId :=
  if models.contains provenance.modality then models
  else models.set provenance.modality provenance.modelVersion

/-- The model version each modality contributed under. -/
def modelsUsed (speechEvents : List SpeechEvent) (visualEvents : List VisualEvent) :
    Dict Modality ModelVersionId :=
  visualEvents.foldl (fun models e => setDefault models e.provenance)
    (speechEvents.foldl (fun models e => setDefault models e.provenance) .empty)

def forbiddenResultKeys : List String :=
  ["rank", "ranking", "ranked", "score", "scores", "priority", "priority_score", "severity",
    "top_k", "topk", "selected", "recommendation", "recommendations", "intervention",
    "interventions", "exercise", "exercises"]

/-- `str.lower` as far as it yields ASCII letters: of all other characters only the Kelvin sign has
one for its lower case. -/
def lowerChar (c : Char) : Char := if c = Char.ofNat 0x212a then 'k' else c.toLower

def lower (key : String) : String := String.ofList (key.toList.map lowerChar)

def isForbidden (key : String) : Bool := lower key ∈ forbiddenResultKeys

def joinPath (path key : String) : String := if path = "" then key else s!"{path}.{key}"

mutual

def forbiddenKeysIn (path : String) : Json → List String
  | .obj entries => forbiddenKeysInEntries path entries
  | .arr items => forbiddenKeysInItems path 0 items
  | _ => []

def forbiddenKeysInEntries (path : String) : List (String × Json) → List String
  | [] => []
  | (key, value) :: rest =>
      (if isForbidden key then [joinPath path key] else []) ++
        forbiddenKeysIn (joinPath path key) value ++ forbiddenKeysInEntries path rest

def forbiddenKeysInItems (path : String) (index : ℕ) : List Json → List String
  | [] => []
  | value :: rest =>
      forbiddenKeysIn s!"{path}[{index}]" value ++ forbiddenKeysInItems path (index + 1) rest

end

def pythonList (items : List String) : String :=
  "[" ++ ", ".intercalate (items.map fun item => s!"'{item}'") ++ "]"

def assertCarriesNoRanking (payload : Json) : Except Failure Unit :=
  let offenders := (forbiddenKeysIn "" payload).dedup.insertionSort (· ≤ ·)
  if offenders.isEmpty then .ok ()
  else .error (.resultViolation
    (s!"result payload carries ranking fields {pythonList offenders}; FR-029 keeps this " ++
      "service an observer - selecting and ordering findings belongs to the " ++
      "consuming application"))

/-- What completion shows the guard: the identity and class of every event. -/
def rankingPayload (speechEvents : List SpeechEvent) (visualEvents : List VisualEvent) : Json :=
  .obj [
    ("speech_events", .arr (speechEvents.map fun e =>
      .obj [("id", .str e.id.value), ("type", .str e.type.value)])),
    ("visual_events", .arr (visualEvents.map fun e =>
      .obj [("id", .str e.id.value), ("type", .str e.type.value)]))]

theorem forbiddenKeysInItems_events (path : String) (index : ℕ) (events : List (String × String)) :
    forbiddenKeysInItems path index (events.map fun e =>
      .obj [("id", .str e.1), ("type", .str e.2)]) = [] := by
  have hid : isForbidden "id" = false := by decide
  have htype : isForbidden "type" = false := by decide
  induction events generalizing index with
  | nil => rfl
  | cons e events ih =>
      simp [forbiddenKeysInItems, forbiddenKeysIn, forbiddenKeysInEntries, hid, htype, ih]

/-- Completion never trips the guard: the keys it shows are its own. -/
theorem assertCarriesNoRanking_rankingPayload (speechEvents : List SpeechEvent)
    (visualEvents : List VisualEvent) :
    assertCarriesNoRanking (rankingPayload speechEvents visualEvents) = .ok () := by
  have hspeech : isForbidden "speech_events" = false := by decide
  have hvisual : isForbidden "visual_events" = false := by decide
  have hs := forbiddenKeysInItems_events (joinPath "" "speech_events") 0
    (speechEvents.map fun e => (e.id.value, e.type.value))
  have hv := forbiddenKeysInItems_events (joinPath "" "visual_events") 0
    (visualEvents.map fun e => (e.id.value, e.type.value))
  rw [List.map_map] at hs hv
  have hnone : forbiddenKeysIn "" (rankingPayload speechEvents visualEvents) = [] := by
    simp only [rankingPayload, forbiddenKeysIn, forbiddenKeysInEntries, hspeech, hvisual,
      Bool.false_eq_true, if_false, List.nil_append, List.append_nil]
    exact List.append_eq_nil_iff.2 ⟨hs, hv⟩
  simp [assertCarriesNoRanking, hnone]

end OratoriaEngine
