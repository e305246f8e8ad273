import OratoriaEngine.Lib.Runs
import OratoriaEngine.TranscriptFinality

/-!
# The frontier between final and provisional words

A word becomes final by where it ends, and a hypothesis is refused by where its words start. Of
two overlapping words the first may become final while the second stays provisional, behind the
frontier; then no hypothesis that contains it is taken any more.
-/

namespace OratoriaEngine.Transcript

open Runs

variable {t t' : Transcript} {incoming : List WordToken}

def Separated (t : Transcript) : Prop :=
  ∀ w ∈ t.provisionalTokens, t.finalizedFrontier.ms ≤ w.interval.start.ms

/-- The frontier separates, and a hypothesis of the same provisional tokens is taken again. -/
def Redecodes (t : Transcript) : Prop :=
  t.Separated ∧ ∃ t', t.withProvisional t.provisionalTokens = .ok t'

/-- Where the call is accepted, no token that stays provisional starts before the end of one that
becomes final. -/
def Apart (t : Transcript) : Call → Prop
  | .withProvisional incoming =>
      (∀ w ∈ incoming, t.finalizedFrontier.ms ≤ w.interval.start.ms) →
        ∀ v ∈ incoming, ∀ w ∈ incoming, v.isFinal = true → w.isFinal = false →
          v.interval.stop.ms ≤ w.interval.start.ms
  | .finalizeThrough boundary =>
      t.finalizedFrontier.ms ≤ boundary.ms →
        ∀ v ∈ t.provisionalTokens, ∀ w ∈ t.provisionalTokens,
          v.interval.stop.ms ≤ boundary.ms → boundary.ms < w.interval.stop.ms →
            v.interval.stop.ms ≤ w.interval.start.ms

theorem separated_iff :
    t.Separated ↔ ∀ v ∈ t.finalTokens, ∀ w ∈ t.provisionalTokens,
      v.interval.stop.ms ≤ w.interval.start.ms := by
  constructor
  · intro h v hv w hw
    exact (frontier_le_iff.1 (h w hw)).2 v hv
  · intro h w hw
    exact frontier_le_iff.2 ⟨w.interval.start.nonneg, fun v hv => h v hv w hw⟩

theorem redecodes_iff : t.Redecodes ↔ t.Separated := by
  rw [Redecodes, exists_withProvisional_iff]
  exact and_self_iff

theorem mem_finalTokens_withProvisional (h : t.withProvisional incoming = .ok t')
    {w : WordToken} :
    w ∈ t'.finalTokens ↔ w ∈ t.finalTokens ∨ w ∈ incoming ∧ w.isFinal = true := by
  simp only [finalTokens, List.mem_filter, (tokens_perm_withProvisional h).mem_iff,
    List.mem_append]
  tauto

theorem mem_provisionalTokens_withProvisional (h : t.withProvisional incoming = .ok t')
    {w : WordToken} : w ∈ t'.provisionalTokens ↔ w ∈ incoming ∧ w.isFinal = false := by
  simp only [provisionalTokens, finalTokens, List.mem_filter,
    (tokens_perm_withProvisional h).mem_iff, List.mem_append, Bool.not_eq_true']
  grind

theorem separated_withProvisional_iff (h : t.withProvisional incoming = .ok t') :
    t'.Separated ↔ t.Apart (.withProvisional incoming) := by
  have hahead := exists_withProvisional_iff.1 ⟨t', h⟩
  rw [separated_iff]
  constructor
  · intro hseparated _ v hv w hw hfinal hprovisional
    exact hseparated v ((mem_finalTokens_withProvisional h).2 (Or.inr ⟨hv, hfinal⟩)) w
      ((mem_provisionalTokens_withProvisional h).2 ⟨hw, hprovisional⟩)
  · intro hapart v hv w hw
    obtain ⟨hw, hprovisional⟩ := (mem_provisionalTokens_withProvisional h).1 hw
    rcases (mem_finalTokens_withProvisional h).1 hv with hv | ⟨hv, hfinal⟩
    · exact (frontier_le_iff.1 (hahead w hw)).2 v hv
    · exact hapart hahead v hv w hw hfinal hprovisional

theorem exists_mem_finalTokens_promoted {ms : ℤ} {v : WordToken}
    (h : v ∈ (t.promoted ms).finalTokens) :
    v ∈ t.finalTokens ∨ ∃ w ∈ t.provisionalTokens, w.interval.stop.ms ≤ ms ∧
      v.interval = w.interval := by
  obtain ⟨hmem, hfinal⟩ := List.mem_filter.1 h
  obtain ⟨w, hw, rfl⟩ := List.mem_map.1 hmem
  by_cases hwas : w.isFinal = true
  · left
    rw [WordToken.finalize_of_isFinal hwas, ite_self]
    exact List.mem_filter.2 ⟨hw, hwas⟩
  · rw [isFinal_freeze] at hfinal
    have hend : w.interval.stop.ms ≤ ms := by simpa [hwas] using hfinal
    refine Or.inr ⟨w, List.mem_filter.2 ⟨hw, by simp [hwas]⟩, hend, ?_⟩
    rw [if_pos hend, WordToken.finalize_interval]

theorem mem_finalTokens_promoted {ms : ℤ} {w : WordToken} (hw : w ∈ t.tokens)
    (hend : w.interval.stop.ms ≤ ms) : w.finalize ∈ (t.promoted ms).finalTokens :=
  List.mem_filter.2 ⟨List.mem_map.2 ⟨w, hw, if_pos hend⟩, w.finalize_isFinal⟩

theorem mem_provisionalTokens_promoted {ms : ℤ} {w : WordToken} :
    w ∈ (t.promoted ms).provisionalTokens ↔
      w ∈ t.provisionalTokens ∧ ms < w.interval.stop.ms := by
  simp only [provisionalTokens, promoted, List.mem_filter, List.mem_map]
  constructor
  · rintro ⟨⟨v, hv, rfl⟩, hprovisional⟩
    rw [isFinal_freeze] at hprovisional
    simp only [Bool.not_or, Bool.and_eq_true, Bool.not_eq_true', decide_eq_false_iff_not,
      not_le] at hprovisional
    rw [if_neg (not_le.2 hprovisional.2)]
    exact ⟨⟨hv, by simp [hprovisional.1]⟩, hprovisional.2⟩
  · rintro ⟨⟨hw, hprovisional⟩, hend⟩
    exact ⟨⟨w, hw, if_neg (not_le.2 hend)⟩, hprovisional⟩

theorem separated_promoted_iff {boundary : MonotonicTime} (h : t.Separated)
    (hahead : t.finalizedFrontier.ms ≤ boundary.ms) :
    (t.promoted boundary.ms).Separated ↔ t.Apart (.finalizeThrough boundary) := by
  rw [separated_iff] at h ⊢
  constructor
  · intro hseparated _ v hv w hw hvEnd hwEnd
    have hle := hseparated v.finalize (mem_finalTokens_promoted (List.mem_filter.1 hv).1 hvEnd) w
      (mem_provisionalTokens_promoted.2 ⟨hw, hwEnd⟩)
    rwa [WordToken.finalize_interval] at hle
  · intro hapart v hv w hw
    obtain ⟨hw, hwEnd⟩ := mem_provisionalTokens_promoted.1 hw
    rcases exists_mem_finalTokens_promoted hv with hv | ⟨u, hu, huEnd, hsame⟩
    · exact h v hv w hw
    · rw [hsame]
      exact hapart hahead u hu w hw huEnd hwEnd

/-- From a transcript that the frontier separates, a call leads to another exactly if no token it
leaves provisional starts before the end of one it makes final. -/
theorem separated_after_iff (h : t.Separated) (call : Call) :
    (t.after call).Separated ↔ t.Apart call := by
  rcases after_cases t call with
    ⟨⟨failure, hrefused⟩, heq⟩ | ⟨incoming, t', rfl, htaken, heq⟩ | ⟨boundary, rfl, hahead, heq⟩
  · rw [heq]
    apply iff_of_true h
    cases call with
    | withProvisional incoming =>
        intro hahead
        obtain ⟨t', htaken⟩ := exists_withProvisional_iff.2 hahead
        exact nomatch hrefused.symm.trans htaken
    | finalizeThrough boundary =>
        intro hahead
        have htaken : t.answer (.finalizeThrough boundary) = .ok _ := if_neg (not_lt.2 hahead)
        exact nomatch hrefused.symm.trans htaken
  · rw [heq]
    exact separated_withProvisional_iff htaken
  · rw [heq]
    exact separated_promoted_iff h hahead

/-- The frontier separates all along a run exactly if every call keeps apart what it makes final
and what it leaves provisional. -/
theorem everyStep_apart_iff (calls : List Call) :
    EveryStep after Apart empty calls ↔ Throughout after Redecodes empty calls := by
  refine everyStep_iff_throughout (I := Separated) (fun t h => redecodes_iff.2 h)
    (fun t call h => (separated_after_iff h call).2)
    (fun t call h hnot hbroken => hnot ?_) (by simp [Separated, provisionalTokens, empty]) calls
  exact (separated_after_iff h call).1 (redecodes_iff.1 hbroken)

/-- Two words of one hypothesis, of which the second begins before the first ends, and the
boundary at the end of the first. -/
def overlappingWords : List Call :=
  let word (value rawText : String) (h : isBlank value = false) (spoken : rawText ≠ "")
      (start stop : MonotonicTime) (ordered : start.ms ≤ stop.ms) : WordToken :=
    ⟨⟨⟨value, h⟩⟩, rawText,
      ⟨start, stop, Interval.defaultToleranceMs, ordered, Interval.defaultToleranceMs_nonneg⟩,
      ⟨1, .raw, Confidence.certain.nonneg, Confidence.certain.le_one⟩, .provisional, spoken⟩
  [.withProvisional
      [word "tok-0" "buenas" (by decide) (by decide) .zero ⟨410, by decide⟩ (by decide),
        word "tok-1" "noches" (by decide) (by decide) ⟨310, by decide⟩ ⟨720, by decide⟩
          (by decide)],
    .finalizeThrough ⟨410, by decide⟩]

/-- The second word stays provisional behind the frontier. -/
theorem not_redecodes_overlappingWords : ¬(reached overlappingWords).Redecodes := by
  rw [redecodes_iff, Separated]
  decide

end OratoriaEngine.Transcript
