import OratoriaEngine.Corpus.ElanSteps

/-!
# The exceptions of the ELAN reader

The reader translates the refusals of a disfluency. Times, words, the pseudonym, the pass and the
id of the recording are refused with the exceptions of `int`, of an enumeration and of the records,
which leave the reader as they are.
-/

namespace OratoriaEngine.Corpus

open Except Xml

variable (fileName : String) (root : Element)

def Attributed : Prop := propertyText root propAnnotator ≠ ""

def WordsAnchored : Prop := TierAnchored root wordsTier (slotsOf root)

def WordsSound : Prop :=
  ∀ item ∈ itemsOf root wordsTier (slotsOf root), item.Lasts ∧ isBlank item.value = false

def DisfluenciesAnchored : Prop := TierAnchored root disfluencyTier (slotsOf root)

def DisfluenciesSound : Prop :=
  ∀ item ∈ itemsOf root disfluencyTier (slotsOf root),
    SoundDisfluency (referenced root roleTier) (referenced root textTier) item

def SpeakerGiven : Prop := propertyText root propSpeaker ≠ ""

def SpeakerPseudonymous : Prop := looksLikeIdentifier (propertyText root propSpeaker) = false

def passText : String := ((propertiesOf root).get? propPass).getD AnnotationPass.first.value

def PassKnown : Prop := ∃ pass : AnnotationPass, pass.value = passText root

def RecordingNamed : Prop := isBlank (recordingIdOf (propertiesOf root) fileName) = false

/-- The trees that are read. -/
def Accepted : Prop :=
  TimesReadable root ∧ Attributed root ∧ WordsAnchored root ∧ WordsSound root ∧
    DisfluenciesAnchored root ∧ DisfluenciesSound root ∧ Lasting (slotsOf root) ∧
      SpeakerGiven root ∧ SpeakerPseudonymous root ∧ PassKnown root ∧ RecordingNamed fileName root

/-- The trees that are refused with an error of the reader: a check whose refusal is translated
fails before any other does. -/
def Refused : Prop :=
  TimesReadable root ∧ (¬Attributed root ∨ ¬WordsAnchored root ∨ WordsSound root ∧
    (¬DisfluenciesAnchored root ∨ ¬DisfluenciesSound root ∨ ¬Lasting (slotsOf root) ∨
      ¬SpeakerGiven root))

/-- Every check whose refusal is not translated passes if it is reached. -/
def UntranslatedPass : Prop :=
  TimesReadable root ∧ (Attributed root → WordsAnchored root → WordsSound root ∧
    (DisfluenciesAnchored root → DisfluenciesSound root → Lasting (slotsOf root) →
      SpeakerGiven root →
        SpeakerPseudonymous root ∧ PassKnown root ∧ RecordingNamed fileName root))

theorem end_mem_of_words {words : List Word} (hanchored : WordsAnchored root)
    (hwords : List.Forall₂ WordFrom (itemsOf root wordsTier (slotsOf root)) words) :
    ∀ w ∈ words, w.interval.endMs ∈ (slotsOf root).values := by
  intro w hw
  obtain ⟨item, hitem, hfrom⟩ := exists_mem_of_forall₂ hwords hw
  rw [hfrom.endMs]
  exact exists_slot_of_mem_itemsOf root wordsTier (slotsOf root) hanchored hitem

theorem end_mem_of_disfluencies {annotatorId : String} {roles texts notes : Dict String String}
    {disfluencies : List DisfluencyAnnotation} (hanchored : DisfluenciesAnchored root)
    (h : List.Forall₂ (RecordFrom annotatorId roles texts notes)
      (itemsOf root disfluencyTier (slotsOf root)) disfluencies) :
    ∀ a ∈ disfluencies, a.interval.endMs ∈ (slotsOf root).values := by
  intro a ha
  obtain ⟨item, hitem, hfrom⟩ := exists_mem_of_forall₂ h ha
  rw [hfrom.endMs]
  exact exists_slot_of_mem_itemsOf root disfluencyTier (slotsOf root) hanchored hitem

theorem valueError_ne (n m : String) : CorpusError.valueError n ≠ CorpusError.elanError m := by
  simp

theorem schemaViolation_ne (n m : String) :
    CorpusError.schemaViolation n ≠ CorpusError.elanError m := by
  simp

theorem header_reports {annotatorId : String} {durationMs : ℤ} (words : List Word)
    {disfluencies : List DisfluencyAnnotation} (hlasting : 0 < durationMs)
    (hattributed : ∀ a ∈ disfluencies, a.annotatorId = annotatorId)
    (hwithin : ∀ a ∈ disfluencies, a.interval.endMs ≤ durationMs) :
    Reports (SpeakerGiven root ∧ SpeakerPseudonymous root ∧ PassKnown root ∧
        RecordingNamed fileName root) (¬SpeakerGiven root)
      (fun recording => recording.words = words ∧ recording.disfluencies = disfluencies)
      CorpusError.elanError (do
      let speaker ← Speaker.of (← requiredProperty (propertiesOf root) propSpeaker fileName)
      let annotationPass ← AnnotationPass.of (passText root)
      AnnotatedRecording.of (recordingIdOf (propertiesOf root) fileName) speaker annotatorId
        annotationPass durationMs words disfluencies
        (parseVersion ((propertiesOf root).get? propTaxonomy))) := by
  have hrefused : ¬SpeakerGiven root ∨ SpeakerPseudonymous root ∧ PassKnown root ∧ False ↔
      ¬SpeakerGiven root := by simp
  refine Reports.of_iff ?_ Iff.rfl hrefused
  refine (requiredProperty_spec root propSpeaker fileName).bind_reports
    fun pseudonym hgiven hpseudonym => ?_
  subst hpseudonym
  refine (speaker_spec (isBlank_propertyText hgiven)).bind_reports_of_ne schemaViolation_ne
    fun speaker _ _ => ?_
  refine (annotationPass_spec (passText root)).bind_reports_of_ne valueError_ne
    fun annotationPass _ _ => ?_
  exact (annotatedRecording_spec _ speaker annotationPass words _ hlasting hattributed
    hwithin).reports_of_ne schemaViolation_ne

def Gathered (recording : AnnotatedRecording) : Prop :=
  List.Forall₂ WordFrom (itemsOf root wordsTier (slotsOf root)) recording.words ∧
    List.Forall₂ (RecordFrom (propertyText root propAnnotator) (referenced root roleTier)
      (referenced root textTier) (referenced root noteTier))
      (itemsOf root disfluencyTier (slotsOf root)) recording.disfluencies

theorem read_reports :
    Reports (Accepted fileName root) (Refused root) (Gathered root) CorpusError.elanError
      (read fileName root) := by
  unfold Accepted Refused read
  refine (timeSlots_spec root).bind_reports_of_ne valueError_ne fun slots _ hslots => ?_
  subst hslots
  refine (requiredProperty_spec root propAnnotator fileName).bind_reports
    fun annotatorId hgiven hannotatorId => ?_
  subst hannotatorId
  refine (aligned_spec root wordsTier (slotsOf root)).bind_reports
    fun items hwordsAnchored hitems => ?_
  subst hitems
  refine (decides_mapM fun item _ => toWord_spec item).bind_reports_of_ne
    schemaViolation_ne fun words _ hwords => ?_
  refine (aligned_spec root disfluencyTier (slotsOf root)).bind_reports
    fun items hanchored hitems => ?_
  subst hitems
  refine (decides_mapM fun item _ => toDisfluency_spec fileName (isBlank_propertyText hgiven) _ _ _
    item).bind_reports fun disfluencies _ hdisfluencies => ?_
  refine (duration_spec (end_mem_of_words root hwordsAnchored hwords)
    (end_mem_of_disfluencies root hanchored hdisfluencies)).bind_reports
      fun durationMs _ hduration => ?_
  have hattributed : ∀ a ∈ disfluencies, a.annotatorId = propertyText root propAnnotator := by
    intro a ha
    obtain ⟨item, -, hfrom⟩ := exists_mem_of_forall₂ hdisfluencies ha
    exact hfrom.annotatorId
  refine (header_reports fileName root words hduration.1 hattributed hduration.2).mono
    fun recording h => ?_
  rw [Gathered, h.1, h.2]
  exact ⟨hwords, hdisfluencies⟩

/-- Nothing but the reader's own error comes out exactly if no check whose refusal is not
translated is the first to fail. -/
theorem read_failsOnly_iff :
    FailsOnly CorpusError.elanError (read fileName root) ↔ UntranslatedPass fileName root := by
  have hheader : SpeakerGiven root ∧ SpeakerPseudonymous root ∧ PassKnown root ∧
      RecordingNamed fileName root ∨ ¬SpeakerGiven root ↔
        (SpeakerGiven root →
          SpeakerPseudonymous root ∧ PassKnown root ∧ RecordingNamed fileName root) := by
    simpa using and_or_not_or_iff (SpeakerGiven root)
      (SpeakerPseudonymous root ∧ PassKnown root ∧ RecordingNamed fileName root) False
  rw [(read_reports fileName root).failsOnly_iff]
  simp only [Accepted, Refused, UntranslatedPass, ← and_or_left, and_or_not_or_iff, hheader]

def fractionalTime : Element :=
  .node "ANNOTATION_DOCUMENT" Dict.empty none [.node "TIME_ORDER" Dict.empty none
    [.node "TIME_SLOT" (Dict.empty.setAll [("TIME_SLOT_ID", "ts1"), ("TIME_VALUE", "12.5")])
      none []]]

/-- The exception of `int` leaves the reader. -/
theorem not_failsOnly_fractionalTime :
    ¬FailsOnly CorpusError.elanError (read "session.eaf" fractionalTime) := by
  intro h
  have hread : read "session.eaf" fractionalTime =
      .error (.valueError "invalid literal for int() with base 10: '12.5'") := by
    rfl
  obtain ⟨m, heq⟩ := h _ hread
  cases heq

end OratoriaEngine.Corpus
