import Mathlib.Data.List.Sort
import Mathlib.Data.String.Basic
import OratoriaEngine.Corpus.Recording
import OratoriaEngine.Lib.Except
import OratoriaEngine.Lib.Xml

/-!
# Reading ELAN files

From the tree of an `.eaf` document to a recording: its properties and time slots, the aligned
annotations of the words and disfluency tiers, and the annotations of the role, text and note
tiers, which refer to a disfluency by its id.
-/

namespace OratoriaEngine.Corpus

open Xml

def wordsTier : String := "words"
def disfluencyTier : String := "disfluency"
def roleTier : String := "role"
def textTier : String := "text"
def noteTier : String := "note"

def propAnnotator : String := "annotator_id"
def propSpeaker : String := "speaker_pseudonym"
def propPass : String := "annotation_pass"
def propTaxonomy : String := "taxonomy_version"
def propRecording : String := "recording_id"

structure AlignedAnnotation where
  annotationId : String
  startMs : ℤ
  endMs : ℤ
  value : String

/-- `path.stem` of a file name. -/
def stem (fileName : String) : String :=
  let reversed := fileName.toList.reverse
  let suffix := reversed.takeWhile (· ≠ '.')
  let rest := reversed.drop (suffix.length + 1)
  if suffix ≠ [] ∧ rest ≠ [] then String.ofList rest.reverse else fileName

/-- `int(text)`; a text with too many digits has another message. -/
def readTime (text : String) : Except CorpusError ℤ :=
  match Literal.int? text.toList with
  | some value => .ok value
  | none => .error (.valueError s!"invalid literal for int() with base 10: '{text}'")

def speechEventTypes : List SpeechEventType :=
  [.filledPause, .lexicalFiller, .repetition, .falseStart, .selfRepair, .cutOff, .prolongation,
    .silentPause, .unintelligible]

def contextualRoles : List ContextualRole := [.filler, .semantic, .discourseMarker, .uncertain]

def annotationPasses : List AnnotationPass := [.first, .second, .adjudicated]

/-- `AnnotationPass(value)`. -/
def AnnotationPass.of (value : String) : Except CorpusError AnnotationPass :=
  match annotationPasses.find? fun pass => pass.value = value with
  | some pass => .ok pass
  | none => .error (.valueError s!"'{value}' is not a valid AnnotationPass")

def propertiesOf (root : Element) : Dict String String :=
  Dict.empty.setAll ((root.findAll ["HEADER", "PROPERTY"]).filterMap fun element =>
    (element.get "NAME").map fun name => (name, stripText (element.text.getD "")))

def requiredProperty (properties : Dict String String) (name fileName : String) :
    Except CorpusError String :=
  let value := (properties.get? name).getD ""
  if value = "" then
    .error (.elanError (s!"{fileName} has no '{name}' property. Agreement is computed between " ++
      "named annotators over a named speaker; a file that says neither cannot " ++
      "take part. Use a template from `corpus template`."))
  else .ok value

/-- The elements that define a time slot, with id and value. -/
def slotTexts (root : Element) : List (String × String) :=
  (root.findAll ["TIME_ORDER", "TIME_SLOT"]).filterMap fun element => do
    let slotId ← element.get "TIME_SLOT_ID"
    let value ← element.get "TIME_VALUE"
    return (slotId, value)

def timeSlots (root : Element) : Except CorpusError (Dict String ℤ) :=
  (slotTexts root).foldlM (fun slots e => do return slots.set e.1 (← readTime e.2)) Dict.empty

/-- The annotation elements of the given kind on the tiers of the given name. -/
def annotationsOf (root : Element) (tierId kind : String) : List Element :=
  ((root.findAll ["TIER"]).filter fun tier => tier.get "TIER_ID" = some tierId).flatMap
    fun tier => tier.findAll ["ANNOTATION", kind]

def annotationValue (element : Element) : String := stripText (element.childText "ANNOTATION_VALUE")

def slotTime (slots : Dict String ℤ) (element : Element) (reference : String) : Option ℤ :=
  slots.get? ((element.get reference).getD "")

def alignedItem (tierId : String) (slots : Dict String ℤ) (element : Element) :
    Except CorpusError AlignedAnnotation :=
  match element.get "ANNOTATION_ID", slotTime slots element "TIME_SLOT_REF1",
      slotTime slots element "TIME_SLOT_REF2" with
  | some annotationId, some startMs, some endMs =>
      .ok ⟨annotationId, startMs, endMs, annotationValue element⟩
  | annotationId, _, _ =>
      let shown := annotationId.getD "None"
      .error (.elanError (s!"annotation {shown} on tier '{tierId}' " ++
        "references a time slot that does not exist"))

/-- The order of the keys `(start, end, annotation id)`. -/
def AlignedAnnotation.orderingLe (a b : AlignedAnnotation) : Prop :=
  a.startMs < b.startMs ∨ a.startMs = b.startMs ∧
    (a.endMs < b.endMs ∨ a.endMs = b.endMs ∧ a.annotationId ≤ b.annotationId)

instance : DecidableRel AlignedAnnotation.orderingLe :=
  fun _ _ => inferInstanceAs (Decidable (_ ∨ _))

/-- `_aligned`: time-aligned annotations on a tier, in temporal order. -/
def aligned (root : Element) (tierId : String) (slots : Dict String ℤ) :
    Except CorpusError (List AlignedAnnotation) := do
  let found ← (annotationsOf root tierId "ALIGNABLE_ANNOTATION").mapM
    (alignedItem tierId slots)
  return found.insertionSort AlignedAnnotation.orderingLe

def references (root : Element) (tierId : String) : List (String × String) :=
  (annotationsOf root tierId "REF_ANNOTATION").filterMap fun element =>
    (element.get "ANNOTATION_REF").map fun reference => (reference, annotationValue element)

/-- `_referenced`: symbolic associations, keyed by the id they refer to. -/
def referenced (root : Element) (tierId : String) : Dict String String :=
  Dict.empty.setAll (references root tierId)

/-- `_duration`: the furthest point anyone annotated. -/
def duration (slots : Dict String ℤ) (words : List Word)
    (disfluencies : List DisfluencyAnnotation) : Except CorpusError ℤ :=
  let latest := slots.values.foldl max (slots.values.headD 0)
  let duration := (words.map (·.interval.endMs) ++ disfluencies.map (·.interval.endMs)).foldl max
    latest
  if duration ≤ 0 then
    .error (.elanError "the file contains no annotations and no time slots")
  else .ok duration

/-- `_parse_version`: an unreadable version is recorded as absent. -/
def parseVersion (raw : Option String) : Option SemanticVersion :=
  match raw with
  | none => none
  | some text =>
      if text = "" then none
      else
        match SemanticVersion.parse text with
        | .ok version => some version
        | .error _ => none

def toWord (item : AlignedAnnotation) : Except CorpusError Word := do
  Word.of item.value (← Interval.of item.startMs item.endMs)

def toEventType (fileName value : String) : Except CorpusError SpeechEventType :=
  match speechEventTypes.find? fun event => event.value = value with
  | some event => .ok event
  | none =>
      .error (.elanError (s!"{fileName}: '{value}' is not a published class. The controlled " ++
        "vocabulary should have prevented this - the template is probably stale; " ++
        "regenerate it with `corpus template`."))

def toRole (fileName : String) (value : Option String) :
    Except CorpusError (Option ContextualRole) :=
  match value with
  | none => .ok none
  | some value =>
      if value = "" then .ok none
      else
        match contextualRoles.find? fun role => role.value = value with
        | some role => .ok (some role)
        | none => .error (.elanError s!"{fileName}: '{value}' is not a contextual role")

/-- The last `except` of `_to_disfluency`: a refused record names the file and the position. -/
def translated {α : Type} (fileName : String) (item : AlignedAnnotation) :
    Except CorpusError α → Except CorpusError α
  | .error (.schemaViolation message) =>
      .error (.elanError (s!"{fileName} at {item.startMs}-{item.endMs} ms ({item.value}): " ++
        message))
  | result => result

def toDisfluency (fileName annotatorId : String) (roles texts notes : Dict String String)
    (item : AlignedAnnotation) : Except CorpusError DisfluencyAnnotation := do
  let eventType ← toEventType fileName item.value
  let role ← toRole fileName (roles.get? item.annotationId)
  translated fileName item (do
    let interval ← Interval.of item.startMs item.endMs
    DisfluencyAnnotation.of eventType interval annotatorId
      ((texts.get? item.annotationId).getD "") role 1 ((notes.get? item.annotationId).getD ""))

/-- `properties.get(PROP_RECORDING) or path.stem`. -/
def recordingIdOf (properties : Dict String String) (fileName : String) : String :=
  let recordingId := (properties.get? propRecording).getD ""
  if recordingId = "" then stem fileName else recordingId

/-- Parse the tree of one annotator's file into the canonical record. -/
def read (fileName : String) (root : Element) : Except CorpusError AnnotatedRecording := do
  let properties := propertiesOf root
  let slots ← timeSlots root
  let annotatorId ← requiredProperty properties propAnnotator fileName
  let recordingId := recordingIdOf properties fileName
  let words ← (← aligned root wordsTier slots).mapM toWord
  let roles := referenced root roleTier
  let texts := referenced root textTier
  let notes := referenced root noteTier
  let disfluencies ← (← aligned root disfluencyTier slots).mapM
    (toDisfluency fileName annotatorId roles texts notes)
  let durationMs ← duration slots words disfluencies
  let speaker ← Speaker.of (← requiredProperty properties propSpeaker fileName)
  let annotationPass ← AnnotationPass.of
    ((properties.get? propPass).getD AnnotationPass.first.value)
  AnnotatedRecording.of recordingId speaker annotatorId annotationPass durationMs words
    disfluencies (parseVersion (properties.get? propTaxonomy))

end OratoriaEngine.Corpus
