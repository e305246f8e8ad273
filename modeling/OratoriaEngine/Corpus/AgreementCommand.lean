import OratoriaEngine.Corpus.Conservation
import OratoriaEngine.Corpus.Elan
import OratoriaEngine.Corpus.OverlapFindings

/-!
# The command that measures agreement

The command reads two files and compares them. It asks that they are two people's work on one
recording, and neither validates them nor looks at their passes, so it also reports on files that
may not enter the computation.
-/

namespace OratoriaEngine.Corpus

open Xml

/-- `_agreement` on two files, each given by its name and its tree. -/
def agreement (rule : MatchRule) (left right : String × Element) :
    Except CorpusError AgreementReport := do
  let leftRecording ← read left.1 left.2
  let rightRecording ← read right.1 right.2
  compare rule leftRecording rightRecording

/-- The recording may enter the agreement computation: it is usable and an independent pass. -/
def MayEnter (lower : String → String) (recording : AnnotatedRecording) : Prop :=
  (validate lower recording).isUsable = true ∧ recording.annotationPass ≠ .adjudicated

/-- There is a report on the two files only if both recordings may enter the computation. -/
def ReportsOnlyEntrants (lower : String → String) (rule : MatchRule)
    (left right : String × Element) : Prop :=
  (∃ report, agreement rule left right = .ok report) →
    ∃ leftRecording rightRecording, read left.1 left.2 = .ok leftRecording ∧
      read right.1 right.2 = .ok rightRecording ∧ MayEnter lower leftRecording ∧
        MayEnter lower rightRecording

/-- Some word is transcribed, no two annotations of one class overlap, and nothing was settled
between the annotators. -/
structure Clean (recording : AnnotatedRecording) : Prop where
  transcribed : recording.words ≠ []
  disjoint : recording.disfluencies.Pairwise fun a b =>
    a.eventType = b.eventType → ¬a.interval.overlaps b.interval
  independent : recording.annotationPass ≠ .adjudicated

section Usable

variable (lower : String → String) (recording : AnnotatedRecording)

theorem severity_of_mem_wordOrdering {f : Finding} (h : f ∈ wordOrdering recording.words) :
    f.severity ≠ .error := by
  simp [wordOrdering_code h]

theorem severity_of_mem_orthography {f : Finding} (h : f ∈ orthography recording.words) :
    f.severity ≠ .error := by
  obtain ⟨word, -, hf⟩ := List.mem_filterMap.1 h
  dsimp only at hf
  split_ifs at hf
  obtain rfl := Option.some.inj hf
  exact Severity.noConfusion

theorem severity_of_mem_unattestedExpressions {f : Finding}
    (h : f ∈ unattestedExpressions lower recording) : f.severity ≠ .error := by
  obtain ⟨item, -, hf⟩ := List.mem_filterMap.1 h
  dsimp only at hf
  split_ifs at hf
  obtain rfl := Option.some.inj hf
  exact Severity.noConfusion

theorem severity_of_mem_abstention {f : Finding} (h : f ∈ abstention recording) :
    f.severity ≠ .error := by
  simp only [abstention] at h
  split_ifs at h <;> simp_all

theorem exists_coverage_error_iff :
    (∃ f ∈ coverage recording, f.severity = .error) ↔ recording.words = [] := by
  simp only [coverage]
  split_ifs <;> simp_all

/-- A recording is usable if some word is transcribed and the annotations of one class are
disjoint; the other checks only warn. -/
theorem isUsable_iff : (validate lower recording).isUsable = true ↔
    recording.words ≠ [] ∧ recording.disfluencies.Pairwise fun a b =>
      a.eventType = b.eventType → ¬a.interval.overlaps b.interval := by
  have husable : (validate lower recording).isUsable = true ↔
      ∀ f ∈ (validate lower recording).findings, f.severity ≠ .error := by
    simp [ValidationReport.isUsable, ValidationReport.errors, List.filter_eq_nil_iff]
  have hoverlaps : (∀ f ∈ sameClassOverlaps recording.disfluencies, f.severity ≠ .error) ↔
      sameClassOverlaps recording.disfluencies = [] := by
    rw [List.eq_nil_iff_forall_not_mem]
    exact forall₂_congr fun f hf => iff_of_false (by simp [sameClassOverlaps_code hf]) (by simp)
  have hcoverage : (∀ f ∈ coverage recording, f.severity ≠ .error) ↔ recording.words ≠ [] := by
    rw [ne_eq, ← exists_coverage_error_iff]
    push Not
    exact Iff.rfl
  rw [husable]
  simp only [validate, List.mem_append, or_imp, forall_and, hoverlaps, hcoverage,
    sameClassOverlaps_eq_nil_iff]
  constructor
  · rintro ⟨⟨⟨⟨⟨hdisjoint, -⟩, -⟩, -⟩, htranscribed⟩, -⟩
    exact ⟨htranscribed, hdisjoint⟩
  · rintro ⟨htranscribed, hdisjoint⟩
    exact ⟨⟨⟨⟨⟨hdisjoint, fun _ => severity_of_mem_wordOrdering recording⟩,
      fun _ => severity_of_mem_orthography recording⟩,
      fun _ => severity_of_mem_unattestedExpressions lower recording⟩, htranscribed⟩,
      fun _ => severity_of_mem_abstention recording⟩

theorem mayEnter_iff : MayEnter lower recording ↔ Clean recording := by
  rw [MayEnter, isUsable_iff]
  constructor
  · rintro ⟨⟨htranscribed, hdisjoint⟩, hindependent⟩
    exact ⟨htranscribed, hdisjoint, hindependent⟩
  · rintro ⟨htranscribed, hdisjoint, hindependent⟩
    exact ⟨⟨htranscribed, hdisjoint⟩, hindependent⟩

end Usable

theorem mismatch_eq_none_iff {left right : AnnotatedRecording} :
    mismatch left right = none ↔
      left.recordingId = right.recordingId ∧ left.annotatorId ≠ right.annotatorId := by
  unfold mismatch
  split_ifs with hrecording hannotator <;> simp_all

theorem agreement_isOk_iff {rule : MatchRule} {left right : String × Element} :
    (∃ report, agreement rule left right = .ok report) ↔
      ∃ leftRecording rightRecording, read left.1 left.2 = .ok leftRecording ∧
        read right.1 right.2 = .ok rightRecording ∧
          mismatch leftRecording rightRecording = none := by
  constructor
  · rintro ⟨report, h⟩
    obtain ⟨leftRecording, hleft, h⟩ := Except.bind_eq_ok.1 h
    obtain ⟨rightRecording, hright, h⟩ := Except.bind_eq_ok.1 h
    refine ⟨leftRecording, rightRecording, hleft, hright, ?_⟩
    cases hmismatch : mismatch leftRecording rightRecording with
    | none => rfl
    | some message =>
        simp only [compare, hmismatch] at h
        cases h
  · rintro ⟨leftRecording, rightRecording, hleft, hright, hmismatch⟩
    obtain ⟨report, hreport⟩ := exists_report rule hmismatch
    exact ⟨report, Except.bind_eq_ok.2 ⟨leftRecording, hleft,
      Except.bind_eq_ok.2 ⟨rightRecording, hright, hreport⟩⟩⟩

theorem clean_of_reportsOnlyEntrants {lower : String → String} {rule : MatchRule}
    {left right : String × Element} {leftRecording rightRecording : AnnotatedRecording}
    (h : ReportsOnlyEntrants lower rule left right)
    (hleft : read left.1 left.2 = .ok leftRecording)
    (hright : read right.1 right.2 = .ok rightRecording)
    (hrecording : leftRecording.recordingId = rightRecording.recordingId)
    (hannotator : leftRecording.annotatorId ≠ rightRecording.annotatorId) :
    Clean leftRecording ∧ Clean rightRecording := by
  have hmismatch := mismatch_eq_none_iff.2 ⟨hrecording, hannotator⟩
  obtain ⟨l, r, hl, hr, hentrants⟩ :=
    h (agreement_isOk_iff.2 ⟨leftRecording, rightRecording, hleft, hright, hmismatch⟩)
  rw [hleft] at hl
  rw [hright] at hr
  cases hl
  cases hr
  rwa [mayEnter_iff, mayEnter_iff] at hentrants

/-- The command reports on entrants only, exactly if two files that can be read are of different
recordings, or by one annotator, or both clean. -/
theorem reportsOnlyEntrants_iff (lower : String → String) (rule : MatchRule)
    (left right : String × Element) :
    ReportsOnlyEntrants lower rule left right ↔
      ∀ leftRecording rightRecording, read left.1 left.2 = .ok leftRecording →
        read right.1 right.2 = .ok rightRecording →
          leftRecording.recordingId ≠ rightRecording.recordingId ∨
            leftRecording.annotatorId = rightRecording.annotatorId ∨
              Clean leftRecording ∧ Clean rightRecording := by
  constructor
  · intro h leftRecording rightRecording hleft hright
    by_cases hrecording : leftRecording.recordingId = rightRecording.recordingId
    · by_cases hannotator : leftRecording.annotatorId = rightRecording.annotatorId
      · exact Or.inr (Or.inl hannotator)
      · exact Or.inr (Or.inr
          (clean_of_reportsOnlyEntrants h hleft hright hrecording hannotator))
    · exact Or.inl hrecording
  · intro h hreport
    obtain ⟨leftRecording, rightRecording, hleft, hright, hmismatch⟩ :=
      agreement_isOk_iff.1 hreport
    obtain ⟨hrecording, hannotator⟩ := mismatch_eq_none_iff.1 hmismatch
    have hclean := ((h leftRecording rightRecording hleft hright).resolve_left
      (not_not.2 hrecording)).resolve_left hannotator
    rw [← mayEnter_iff lower, ← mayEnter_iff lower] at hclean
    exact ⟨leftRecording, rightRecording, hleft, hright, hclean⟩

def wordEste : Element :=
  .node "ALIGNABLE_ANNOTATION" (Dict.empty.setAll [("ANNOTATION_ID", "a1"),
    ("TIME_SLOT_REF1", "ts1"), ("TIME_SLOT_REF2", "ts2")]) none
    [.node "ANNOTATION_VALUE" Dict.empty (some "este") []]

def fileBy (annotatorId pass : String) (words : List Element) : String × Element :=
  let property (name value : String) : Element :=
    .node "PROPERTY" (Dict.empty.setAll [("NAME", name)]) (some value) []
  let slot (slotId time : String) : Element :=
    .node "TIME_SLOT" (Dict.empty.setAll [("TIME_SLOT_ID", slotId), ("TIME_VALUE", time)]) none []
  (annotatorId ++ ".eaf", .node "ANNOTATION_DOCUMENT" Dict.empty none
    [.node "HEADER" Dict.empty none [property propAnnotator annotatorId,
        property propSpeaker "s01", property propPass pass, property propRecording "r-one"],
      .node "TIME_ORDER" Dict.empty none [slot "ts1" "700", slot "ts2" "900"],
      .node "TIER" (Dict.empty.setAll [("TIER_ID", wordsTier)]) none
        [.node "ANNOTATION" Dict.empty none words]])

def ReadAs (file : String × Element) (annotatorId : String) (pass : AnnotationPass) (words : ℕ) :
    Prop :=
  ∃ recording, read file.1 file.2 = .ok recording ∧ recording.recordingId = "r-one" ∧
    recording.annotatorId = annotatorId ∧ recording.annotationPass = pass ∧
      recording.words.length = words

theorem not_reportsOnlyEntrants_of_readAs {left right : String × Element}
    {leftAnnotator rightAnnotator : String} {leftPass rightPass : AnnotationPass}
    {leftWords rightWords : ℕ} (hleft : ReadAs left leftAnnotator leftPass leftWords)
    (hright : ReadAs right rightAnnotator rightPass rightWords)
    (hannotator : leftAnnotator ≠ rightAnnotator)
    (hunclean : leftPass = .adjudicated ∨ rightWords = 0) (lower : String → String)
    (rule : MatchRule) : ¬ReportsOnlyEntrants lower rule left right := by
  intro h
  obtain ⟨l, hl, hlRecording, rfl, rfl, -⟩ := hleft
  obtain ⟨r, hr, hrRecording, rfl, -, rfl⟩ := hright
  obtain ⟨hcleanLeft, hcleanRight⟩ := clean_of_reportsOnlyEntrants h hl hr
    (hlRecording.trans hrRecording.symm) hannotator
  rcases hunclean with hadjudicated | hnone
  · exact hcleanLeft.independent hadjudicated
  · exact hcleanRight.transcribed (List.length_eq_zero_iff.1 hnone)

/-- There are reports on an adjudicated pass, and on a file that the validator finds unusable. -/
theorem not_reportsOnlyEntrants_fileBy :
    ¬ReportsOnlyEntrants id {} (fileBy "ana" "adjudicated" [wordEste])
        (fileBy "beto" "second" [wordEste]) ∧
      ¬ReportsOnlyEntrants id {} (fileBy "ana" "first" [wordEste]) (fileBy "beto" "second" []) := by
  have hadjudicated : ReadAs (fileBy "ana" "adjudicated" [wordEste]) "ana" .adjudicated 1 :=
    ⟨_, rfl, rfl, rfl, rfl, rfl⟩
  have hfirst : ReadAs (fileBy "ana" "first" [wordEste]) "ana" .first 1 :=
    ⟨_, rfl, rfl, rfl, rfl, rfl⟩
  have hsecond : ReadAs (fileBy "beto" "second" [wordEste]) "beto" .second 1 :=
    ⟨_, rfl, rfl, rfl, rfl, rfl⟩
  have hempty : ReadAs (fileBy "beto" "second" []) "beto" .second 0 :=
    ⟨_, rfl, rfl, rfl, rfl, rfl⟩
  have hne : "ana" ≠ "beto" := by decide
  exact ⟨not_reportsOnlyEntrants_of_readAs hadjudicated hsecond hne (Or.inl rfl) _ _,
    not_reportsOnlyEntrants_of_readAs hfirst hempty hne (Or.inr rfl) _ _⟩

end OratoriaEngine.Corpus
