import OratoriaEngine.Corpus.Report
import OratoriaEngine.Corpus.Validation

/-!
# The overlap checks miss nothing

Each of the two checks has a finding exactly when two annotations of one class, or two words,
overlap, wherever they stand in the list; so the annotations of one class in a usable recording
are disjoint.
-/

namespace OratoriaEngine.Corpus

open Spans

section Neighbours

variable {α : Type} (interval : α → Interval)

instance : Std.Total fun a b => (interval a).timeLe (interval b) :=
  ⟨fun a b => by unfold Interval.timeLe; omega⟩

instance : IsTrans α fun a b => (interval a).timeLe (interval b) :=
  ⟨fun a b c => by unfold Interval.timeLe; omega⟩

theorem sortedByTime_pairwise (l : List α) :
    (sortedByTime interval l).Pairwise
      fun a b => (interval a).startMs ≤ (interval b).startMs := by
  apply (List.pairwise_insertionSort (fun a b => (interval a).timeLe (interval b)) l).imp
  intro a b h
  unfold Interval.timeLe at h
  omega

/-- Two different positions of the list hold elements that overlap and satisfy the relation. -/
def ExistsOverlap (l : List α) (r : α → α → Prop) : Prop :=
  ∃ (i j : ℕ) (a b : α), i ≠ j ∧ l[i]? = some a ∧ l[j]? = some b ∧ r a b ∧
    (interval a).overlaps (interval b)

theorem overlapFindings_ne_nil_iff (finding : α → α → Finding) (l : List α) :
    overlapFindings interval finding l ≠ [] ↔ ExistsOverlap interval l fun _ _ => True := by
  have hneighbours : overlapFindings interval finding l ≠ [] ↔
      ∃ p ∈ neighbours (sortedByTime interval l),
        Overlap (fun a => (interval a).startMs) (fun a => (interval a).endMs) p.1 p.2 := by
    rw [overlapFindings, ne_eq, List.filterMap_eq_nil_iff]
    push Not
    apply exists_congr
    intro p
    apply and_congr_right
    intro _
    change (if _ then _ else _) ≠ none ↔ (interval p.1).overlaps (interval p.2)
    split_ifs with h <;> simp [h]
  have hperm : (sortedByTime interval l).Perm l := List.perm_insertionSort _ l
  rw [hneighbours, exists_neighbours_iff_of_perm (fun a => (interval a).lt) hperm
    (sortedByTime_pairwise interval l)]
  simp only [ExistsOverlap, true_and]
  rfl

theorem mem_overlapFindings {finding : α → α → Finding} {l : List α} {f : Finding}
    (h : f ∈ overlapFindings interval finding l) : ∃ a b, f = finding a b := by
  obtain ⟨⟨a, b⟩, -, hf⟩ := List.mem_filterMap.1 h
  dsimp only at hf
  split_ifs at hf
  exact ⟨a, b, (Option.some.inj hf).symm⟩

theorem exists_group_overlap_iff {κ : Type} [DecidableEq κ] (key : α → κ) (l : List α) :
    (∃ k, ExistsOverlap interval (l.filter fun a => key a = k) fun _ _ => True) ↔
      ExistsOverlap interval l fun a b => key a = key b := by
  have hiff : ∀ k, ExistsOverlap interval (l.filter fun a => key a = k) (fun _ _ => True) ↔
      ExistsOverlap interval l fun a b => key a = k ∧ key b = k := by
    intro k
    have hgroup := not_pairwise_iff (R := fun a b => (interval a).overlaps (interval b))
      (l := l.filter fun a => key a = k) fun _ _ h => ⟨h.2, h.1⟩
    have hlist := not_pairwise_iff
      (R := fun a b => (key a = k ∧ key b = k) ∧ (interval a).overlaps (interval b)) (l := l)
      fun _ _ h => ⟨⟨h.1.2, h.1.1⟩, h.2.2, h.2.1⟩
    simp only [ExistsOverlap, true_and]
    rw [← hgroup, ← hlist, List.pairwise_filter]
    simp only [decide_eq_true_eq, not_and, and_imp]
  simp only [hiff]
  constructor
  · rintro ⟨k, i, j, a, b, hne, ha, hb, ⟨hka, hkb⟩, hoverlap⟩
    exact ⟨i, j, a, b, hne, ha, hb, hka.trans hkb.symm, hoverlap⟩
  · rintro ⟨i, j, a, b, hne, ha, hb, hk, hoverlap⟩
    exact ⟨key b, i, j, a, b, hne, ha, hb, ⟨hk, rfl⟩, hoverlap⟩

end Neighbours

theorem sameClassOverlaps_ne_nil_iff (disfluencies : List DisfluencyAnnotation) :
    sameClassOverlaps disfluencies ≠ [] ↔
      ExistsOverlap (·.interval) disfluencies fun a b => a.eventType = b.eventType := by
  rw [sameClassOverlaps, ne_eq, List.flatMap_eq_nil_iff]
  push Not
  have hkey := exists_group_overlap_iff DisfluencyAnnotation.interval
    (fun a => a.eventType.value) disfluencies
  simp only [eventType_value_inj] at hkey
  rw [← hkey]
  constructor
  · rintro ⟨⟨k, group⟩, hgroup, hfindings⟩
    obtain ⟨-, rfl⟩ := Dict.mem_groupBy_entries.1 hgroup
    exact ⟨k, (overlapFindings_ne_nil_iff _ _ _).1 hfindings⟩
  · rintro ⟨k, hoverlap⟩
    have hmember : ∃ a ∈ disfluencies, a.eventType.value = k := by
      obtain ⟨i, -, a, -, -, ha, -⟩ := hoverlap
      obtain ⟨hmem, hk⟩ := List.mem_filter.1 (List.mem_of_getElem? ha)
      exact ⟨a, hmem, by simpa using hk⟩
    exact ⟨(k, _), Dict.mem_groupBy_entries.2 ⟨hmember, rfl⟩,
      (overlapFindings_ne_nil_iff _ _ _).2 hoverlap⟩

theorem sameClassOverlaps_eq_nil_iff (disfluencies : List DisfluencyAnnotation) :
    sameClassOverlaps disfluencies = [] ↔ disfluencies.Pairwise fun a b =>
      a.eventType = b.eventType → ¬a.interval.overlaps b.interval := by
  have hoverlap := not_pairwise_iff (l := disfluencies)
    (R := fun a b => a.eventType = b.eventType ∧ a.interval.overlaps b.interval)
    fun _ _ h => ⟨h.1.symm, h.2.2, h.2.1⟩
  simp only [not_and] at hoverlap
  rw [← not_iff_not, hoverlap, ← ne_eq]
  exact sameClassOverlaps_ne_nil_iff disfluencies

theorem wordOrdering_ne_nil_iff (words : List Word) :
    wordOrdering words ≠ [] ↔ ExistsOverlap (·.interval) words fun _ _ => True :=
  overlapFindings_ne_nil_iff _ _ _

section Codes

variable {lower : String → String} {recording : AnnotatedRecording} {f : Finding}

theorem sameClassOverlaps_code {disfluencies : List DisfluencyAnnotation}
    (h : f ∈ sameClassOverlaps disfluencies) :
    f.severity = .error ∧ f.code = "overlapping_same_class" := by
  obtain ⟨⟨k, group⟩, -, hf⟩ := List.mem_flatMap.1 h
  obtain ⟨a, b, rfl⟩ := mem_overlapFindings _ hf
  exact ⟨rfl, rfl⟩

theorem wordOrdering_code {words : List Word} (h : f ∈ wordOrdering words) :
    f.severity = .warning ∧ f.code = "overlapping_words" := by
  obtain ⟨a, b, rfl⟩ := mem_overlapFindings _ h
  exact ⟨rfl, rfl⟩

theorem orthography_code {words : List Word} (h : f ∈ orthography words) :
    f.code = "orthographic_marks" := by
  obtain ⟨word, -, hf⟩ := List.mem_filterMap.1 h
  dsimp only at hf
  split_ifs at hf
  obtain rfl := Option.some.inj hf
  rfl

theorem unattestedExpressions_code (h : f ∈ unattestedExpressions lower recording) :
    f.code = "unattested_expression" := by
  obtain ⟨item, -, hf⟩ := List.mem_filterMap.1 h
  dsimp only at hf
  split_ifs at hf
  obtain rfl := Option.some.inj hf
  rfl

theorem coverage_code (h : f ∈ coverage recording) :
    f.code = "no_transcription" ∨ f.code = "low_coverage" := by
  simp only [coverage] at h
  split_ifs at h <;> simp_all

theorem abstention_code (h : f ∈ abstention recording) : f.code = "abstention_rate" := by
  simp only [abstention] at h
  split_ifs at h <;> simp_all

variable (lower recording)

/-- What neither of the two checks found is reported under a code of its own. -/
theorem mem_findings_cases (h : f ∈ (validate lower recording).findings) :
    f ∈ sameClassOverlaps recording.disfluencies ∨ f ∈ wordOrdering recording.words ∨
      f.code ≠ "overlapping_same_class" ∧ f.code ≠ "overlapping_words" := by
  simp only [validate, List.mem_append] at h
  rcases h with ((((h | h) | h) | h) | h) | h
  · exact Or.inl h
  · exact Or.inr (Or.inl h)
  · simp [orthography_code h]
  · simp [unattestedExpressions_code h]
  · rcases coverage_code h with hcode | hcode <;> simp [hcode]
  · simp [abstention_code h]

theorem exists_sameClass_iff :
    (∃ f ∈ (validate lower recording).findings,
      f.severity = .error ∧ f.code = "overlapping_same_class") ↔
      sameClassOverlaps recording.disfluencies ≠ [] := by
  constructor
  · rintro ⟨f, hf, -, hcode⟩
    rcases mem_findings_cases lower recording hf with h | h | ⟨hne, -⟩
    · exact List.ne_nil_of_mem h
    · simp [wordOrdering_code h] at hcode
    · exact absurd hcode hne
  · intro hne
    obtain ⟨f, hf⟩ := List.exists_mem_of_ne_nil _ hne
    exact ⟨f, by simp [validate, hf], sameClassOverlaps_code hf⟩

theorem exists_words_iff :
    (∃ f ∈ (validate lower recording).findings,
      f.severity = .warning ∧ f.code = "overlapping_words") ↔
      wordOrdering recording.words ≠ [] := by
  constructor
  · rintro ⟨f, hf, -, hcode⟩
    rcases mem_findings_cases lower recording hf with h | h | ⟨-, hne⟩
    · simp [sameClassOverlaps_code h] at hcode
    · exact List.ne_nil_of_mem h
    · exact absurd hcode hne
  · intro hne
    obtain ⟨f, hf⟩ := List.exists_mem_of_ne_nil _ hne
    exact ⟨f, by simp [validate, hf], wordOrdering_code hf⟩

end Codes

/-- What the validator reports of overlaps. -/
structure OverlapsReported (recording : AnnotatedRecording) (report : ValidationReport) : Prop where
  same_class : (∃ f ∈ report.findings,
      f.severity = .error ∧ f.code = "overlapping_same_class") ↔
    ExistsOverlap (·.interval) recording.disfluencies fun a b => a.eventType = b.eventType
  words : (∃ f ∈ report.findings, f.severity = .warning ∧ f.code = "overlapping_words") ↔
    ExistsOverlap (·.interval) recording.words fun _ _ => True
  usable : report.isUsable = true →
    recording.disfluencies.Pairwise fun a b =>
      a.eventType = b.eventType → ¬a.interval.overlaps b.interval

theorem overlaps_reported (lower : String → String) (recording : AnnotatedRecording) :
    OverlapsReported recording (validate lower recording) := by
  have hclass := exists_sameClass_iff lower recording
  rw [sameClassOverlaps_ne_nil_iff] at hclass
  refine ⟨hclass,
    (exists_words_iff lower recording).trans (wordOrdering_ne_nil_iff recording.words), ?_⟩
  intro husable
  rw [← sameClassOverlaps_eq_nil_iff]
  by_contra hoverlap
  have hexists := (sameClassOverlaps_ne_nil_iff recording.disfluencies).1 hoverlap
  obtain ⟨f, hf, hseverity, -⟩ := hclass.2 hexists
  have herrors : f ∈ (validate lower recording).errors :=
    List.mem_filter.2 ⟨hf, by simpa using hseverity⟩
  exact List.ne_nil_of_mem herrors (List.isEmpty_iff.1 husable)

end OratoriaEngine.Corpus
