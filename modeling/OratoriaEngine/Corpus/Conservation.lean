import OratoriaEngine.Corpus.Coefficients
import OratoriaEngine.Corpus.Report
import OratoriaEngine.Corpus.Symmetry

/-!
# Every annotation is counted once

An annotation is matched or left alone; matched it is counted with its class by the confusion
matrix, as agreed or as called something else, and alone it is added to its class.
-/

namespace OratoriaEngine.Corpus

theorem mem_confusion_labels {pairs : List (String × String)} {label : String} :
    label ∈ (confusion pairs).labels ↔ ∃ p ∈ pairs, p.1 = label ∨ p.2 = label := by
  simp [confusion, mem_sortedSet, eq_comm]

theorem forLabel_left (pairs : List (String × String)) (label : String) :
    ((confusion pairs).forLabel label).1 + ((confusion pairs).forLabel label).2.1 =
      pairs.countP fun p => p.1 = label := by
  simp only [ConfusionMatrix.forLabel, confusion, Dict.getD_tally, Dict.sumWhere_tally]
  rw [List.countP_eq_countP_filter_add pairs (fun p => p.1 = label) fun p => p.2 = label,
    List.countP_filter, List.countP_filter]
  congr 1 <;>
  · apply List.countP_congr
    intro p _
    simp [Prod.ext_iff]

theorem forLabel_right (pairs : List (String × String)) (label : String) :
    ((confusion pairs).forLabel label).1 + ((confusion pairs).forLabel label).2.2 =
      pairs.countP fun p => p.2 = label := by
  simp only [ConfusionMatrix.forLabel, confusion, Dict.getD_tally, Dict.sumWhere_tally]
  rw [List.countP_eq_countP_filter_add pairs (fun p => p.2 = label) fun p => p.1 = label,
    List.countP_filter, List.countP_filter]
  congr 1 <;>
  · apply List.countP_congr
    intro p _
    simp [Prod.ext_iff, and_comm]

theorem mem_keys_tally {l : List String} {k : String} : k ∈ (Dict.tally l).keys ↔ k ∈ l := by
  rw [← not_iff_not, ← Dict.get?_eq_none_iff, Dict.get?_tally]
  split_ifs with h <;> simp [h]

section PerClass

variable (m : Matching) (label : String)

theorem classAgreement_counts :
    let e := classAgreement (confusion (classPairs m)) (Dict.tally (m.leftOnly.map classLabel))
      (Dict.tally (m.rightOnly.map classLabel)) label
    e.both + e.leftOnly =
        (m.pairs.map (·.left) ++ m.leftOnly).countP (fun a => classLabel a = label) ∧
      e.both + e.rightOnly =
        (m.pairs.map (·.right) ++ m.rightOnly).countP fun a => classLabel a = label := by
  have hleft := forLabel_left (classPairs m) label
  have hright := forLabel_right (classPairs m) label
  simp only [classPairs, List.countP_map] at hleft hright
  simp only [classAgreement, Dict.getD_tally, List.countP_append, List.countP_map, ← Nat.add_assoc]
  exact ⟨congrArg (· + _) hleft, congrArg (· + _) hright⟩

theorem perClass_eventTypes :
    (perClass (confusion (classPairs m)) m).map ClassAgreement.eventType =
      sortedSet ((confusion (classPairs m)).labels ++
        (Dict.tally (m.leftOnly.map classLabel)).keys ++
        (Dict.tally (m.rightOnly.map classLabel)).keys) := by
  rw [perClass, List.map_map]
  exact List.map_id _

theorem mem_perClass_eventTypes :
    label ∈ (perClass (confusion (classPairs m)) m).map ClassAgreement.eventType ↔
      (∃ a ∈ m.pairs.map (·.left) ++ m.leftOnly, classLabel a = label) ∨
        ∃ a ∈ m.pairs.map (·.right) ++ m.rightOnly, classLabel a = label := by
  rw [perClass_eventTypes, mem_sortedSet]
  simp only [List.mem_append, mem_keys_tally, mem_confusion_labels, classPairs, List.mem_map]
  constructor
  · rintro ((⟨_, ⟨p, hp, rfl⟩, hlabel | hlabel⟩ | ⟨a, ha, hlabel⟩) | ⟨a, ha, hlabel⟩)
    · exact Or.inl ⟨_, Or.inl ⟨p, hp, rfl⟩, hlabel⟩
    · exact Or.inr ⟨_, Or.inl ⟨p, hp, rfl⟩, hlabel⟩
    · exact Or.inl ⟨a, Or.inr ha, hlabel⟩
    · exact Or.inr ⟨a, Or.inr ha, hlabel⟩
  · rintro (⟨a, ⟨p, hp, rfl⟩ | ha, hlabel⟩ | ⟨a, ⟨p, hp, rfl⟩ | ha, hlabel⟩)
    · exact Or.inl (Or.inl ⟨_, ⟨p, hp, rfl⟩, Or.inl hlabel⟩)
    · exact Or.inl (Or.inr ⟨a, ha, hlabel⟩)
    · exact Or.inl (Or.inl ⟨_, ⟨p, hp, rfl⟩, Or.inr hlabel⟩)
    · exact Or.inr ⟨a, ha, hlabel⟩

end PerClass

/-- The figures of the report account for all annotations of both recordings. -/
structure Conserved (left right : AnnotatedRecording) (report : AgreementReport) : Prop where
  one_entry : (report.perClass.map ClassAgreement.eventType).Nodup
  entry : ∀ c : SpeechEventType, ∀ e ∈ report.perClass, e.eventType = c.value →
    e.both + e.leftOnly = left.disfluencies.countP (fun a => a.eventType = c) ∧
      e.both + e.rightOnly = right.disfluencies.countP fun a => a.eventType = c
  no_entry : ∀ c : SpeechEventType, (∀ e ∈ report.perClass, e.eventType ≠ c.value) →
    left.disfluencies.countP (fun a => a.eventType = c) = 0 ∧
      right.disfluencies.countP (fun a => a.eventType = c) = 0
  total : report.totalAnnotations = left.disfluencies.length + right.disfluencies.length

theorem conserved_of_perm {left right : AnnotatedRecording} {m : Matching}
    (hleft : (m.pairs.map (·.left) ++ m.leftOnly).Perm left.disfluencies)
    (hright : (m.pairs.map (·.right) ++ m.rightOnly).Perm right.disfluencies)
    (classKappa classAlpha roleKappa : Option ℚ) :
    Conserved left right (agreementReport left right m classKappa classAlpha roleKappa) := by
  refine ⟨?_, ?_, ?_, ?_⟩
  · change ((perClass _ _).map _).Nodup
    rw [perClass_eventTypes]
    exact nodup_sortedSet _
  · intro c e he hlabel
    obtain ⟨label, -, rfl⟩ := List.mem_map.1 he
    obtain rfl : label = c.value := hlabel
    have hcounts := classAgreement_counts m c.value
    simp only [hleft.countP_eq, hright.countP_eq, classLabel, eventType_value_inj] at hcounts
    exact hcounts
  · intro c hnone
    have hlabel : c.value ∉ (perClass (confusion (classPairs m)) m).map
        ClassAgreement.eventType := by
      intro hmem
      obtain ⟨e, he, heq⟩ := List.mem_map.1 hmem
      exact hnone e he heq
    rw [mem_perClass_eventTypes, not_or] at hlabel
    simp only [hleft.mem_iff, hright.mem_iff, classLabel, eventType_value_inj, not_exists,
      not_and] at hlabel
    simpa only [List.countP_eq_zero, decide_eq_true_eq] using hlabel
  · have hleftLength := hleft.length_eq
    have hrightLength := hright.length_eq
    simp only [List.length_append, List.length_map] at hleftLength hrightLength
    change m.pairs.length * 2 + m.leftOnly.length + m.rightOnly.length = _
    omega

theorem conserved_of_compare {rule : MatchRule} {left right : AnnotatedRecording}
    {report : AgreementReport} (h : compare rule left right = .ok report) :
    Conserved left right report := by
  obtain ⟨classKappa, classAlpha, roleKappa, rfl⟩ := compare_eq_ok h
  exact conserved_of_perm (left_perm .double rule _ _) (right_perm .double rule _ _) classKappa
    classAlpha roleKappa

/-- The coefficients never fail, so two recordings that belong together always get a report. -/
theorem exists_report (rule : MatchRule) {left right : AnnotatedRecording}
    (h : mismatch left right = none) : ∃ report, compare rule left right = .ok report := by
  let m := matchAnnotations .double rule left.disfluencies right.disfluencies
  obtain ⟨classKappa, hkappa⟩ := cohensKappa_isOk .double (confusion (classPairs m))
  obtain ⟨classAlpha, halpha⟩ := krippendorffsAlpha_isOk .double (confusion (classPairs m))
  obtain ⟨roleKappa, hrole⟩ := cohensKappa_isOk .double (confusion (rolePairs m))
  exact ⟨_, compare_of_coefficients h hkappa halpha hrole⟩

def speakerOne : Speaker where
  pseudonym := "S-one"
  named := by decide
  pseudonymous := by decide

/-- What one annotator made of the first six seconds of `r-one`. -/
def sixSeconds (annotatorId : String) (disfluencies : List DisfluencyAnnotation)
    (attributed : ∀ a ∈ disfluencies, a.annotatorId = annotatorId)
    (within : ∀ a ∈ disfluencies, a.interval.endMs ≤ 6000) : AnnotatedRecording where
  recordingId := "r-one"
  speaker := speakerOne
  annotatorId
  annotationPass := .first
  durationMs := 6000
  words := []
  disfluencies
  taxonomyVersion := none
  named := by decide
  lasting := by decide
  attributed
  within

theorem beto_named : isBlank "beto" = false := by decide

def wordlessAt (annotatorId : String) (named : isBlank annotatorId = false)
    (eventType : SpeechEventType) (roles : RoleRules eventType "" none) (interval : Interval) :
    DisfluencyAnnotation :=
  ⟨eventType, interval, annotatorId, "", none, 1, "", named, full_confidence, roles⟩

def anaThree : AnnotatedRecording :=
  sixSeconds "ana"
    [wordlessAt "ana" ana_named .filledPause (by decide) ⟨110, 900, by decide, by decide⟩,
      wordlessAt "ana" ana_named .prolongation (by decide) ⟨1500, 2000, by decide, by decide⟩,
      wordlessAt "ana" ana_named .cutOff (by decide) ⟨3010, 3400, by decide, by decide⟩]
    (by decide) (by decide)

def betoThree : AnnotatedRecording :=
  sixSeconds "beto"
    [wordlessAt "beto" beto_named .filledPause (by decide) ⟨160, 1000, by decide, by decide⟩,
      wordlessAt "beto" beto_named .cutOff (by decide) ⟨1500, 2100, by decide, by decide⟩,
      wordlessAt "beto" beto_named .filledPause (by decide) ⟨4000, 4300, by decide, by decide⟩]
    (by decide) (by decide)

/-- One pair of a class, one pair of two classes, and one annotation alone on either side. -/
theorem conserved_of_compare_anaBeto :
    ∃ report, compare {} anaThree betoThree = .ok report ∧
      (report.matched, report.leftOnly, report.rightOnly) = (2, 1, 1) ∧
        report.classConfusion.agreements = 1 ∧ Conserved anaThree betoThree report := by
  obtain ⟨report, h⟩ := exists_report {} (show mismatch anaThree betoThree = none by decide)
  obtain ⟨classKappa, classAlpha, roleKappa, rfl⟩ := compare_eq_ok h
  let m := matchAnnotations .double {} anaThree.disfluencies betoThree.disfluencies
  have hfound : (m.pairs.length, m.leftOnly.length, m.rightOnly.length) = (2, 1, 1) := by
    decide +kernel
  have hagreed : (confusion (classPairs m)).agreements = 1 := by decide +kernel
  exact ⟨_, h, hfound, hagreed, conserved_of_compare h⟩

end OratoriaEngine.Corpus
