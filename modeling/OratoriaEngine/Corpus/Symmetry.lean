import OratoriaEngine.Corpus.Traceback

/-!
# Exchanging the two annotators

The table of best totals is the same from either side, and so is the test for a pair; but
where an annotation of either side can be left out the traceback leaves out one of the side
called left. The agreement is the same both ways exactly when this choice does not change the
number of pairs.
-/

namespace OratoriaEngine.Corpus

open Alignment

variable (ρ : Rounding ℚ) (rule : MatchRule) (left right : List DisfluencyAnnotation)

theorem MatchRule.score_comm (a b : DisfluencyAnnotation) :
    rule.score ρ a b = rule.score ρ b a := by
  simp only [MatchRule.score, Interval.iou_comm a.interval,
    ρ.abs_sub_comm (midpoint ρ a.interval)]

theorem orderedScores_swap :
    orderedScores ρ rule right left = (orderedScores ρ rule left right).transpose := by
  funext j i
  simp only [orderedScores, scores, Weights.transpose]
  cases (ordered right)[j]? with
  | none => cases (ordered left)[i]? <;> rfl
  | some b =>
      cases (ordered left)[i]? with
      | none => rfl
      | some a => exact rule.score_comm ρ b a

/-- The pairs found with the sides exchanged are as many as a walk finds that leaves out right
annotations where it can. -/
theorem length_indices_swap :
    (indices ρ rule right left).length =
      (walk ρ (orderedScores ρ rule left right) tightness .right left.length right.length).count
        .pair := by
  rw [length_indices, orderedScores_swap, walk_transpose, count_pair_map_swap]
  rfl

theorem positiveSpecificAgreement_eq :
    (matchAnnotations ρ rule left right).positiveSpecificAgreement ρ =
      if left.length + right.length = 0 then 1
      else ρ (2 * ((indices ρ rule left right).length : ℚ) /
        ((left.length + right.length : ℕ) : ℚ)) := by
  have hleft := (left_perm ρ rule left right).length_eq
  have hright := (right_perm ρ rule left right).length_eq
  simp only [List.length_append, List.length_map, length_pairs] at hleft hright
  have htotal : 2 * (indices ρ rule left right).length +
      ((matchAnnotations ρ rule left right).leftOnly.length +
        (matchAnnotations ρ rule left right).rightOnly.length) = left.length + right.length := by
    omega
  simp only [Matching.positiveSpecificAgreement, length_pairs]
  rw [← htotal]
  push_cast
  split_ifs <;> first | rfl | omega

/-- It does not matter which annotator is called left. -/
structure Symmetric : Prop where
  agreement : (matchAnnotations ρ rule left right).positiveSpecificAgreement ρ =
    (matchAnnotations ρ rule right left).positiveSpecificAgreement ρ
  matched : (matchAnnotations ρ rule left right).pairs.length =
    (matchAnnotations ρ rule right left).pairs.length

/-- All alignments that lose nothing and pair where they can have equally many pairs: where the
last annotation of either side could be left out, it does not matter which one is. -/
def EquallyMany (w : Weights ℚ) (n m : ℕ) : Prop :=
  ∀ u v, Eager ρ w tightness (n, m) u → Eager ρ w tightness (n, m) v →
    u.count .pair = v.count .pair

theorem symmetric_iff_length_eq :
    Symmetric ρ rule left right ↔
      (indices ρ rule left right).length = (indices ρ rule right left).length := by
  constructor
  · intro h
    simpa only [length_pairs] using h.matched
  · intro h
    refine ⟨?_, by simpa only [length_pairs] using h⟩
    rw [positiveSpecificAgreement_eq, positiveSpecificAgreement_eq, h, add_comm right.length]

/-- Neither annotator's agreement nor the number of pairs depends on the side, unless leaving out
the one or the other annotation of a tie leads to different numbers of pairs. -/
theorem symmetric_of_equallyMany
    (h : EquallyMany ρ (orderedScores ρ rule left right) left.length right.length) :
    Symmetric ρ rule left right := by
  rw [symmetric_iff_length_eq, length_indices, length_indices_swap]
  exact h _ _ (eager_walk tightness_pos .left _ _) (eager_walk tightness_pos .right _ _)

theorem ana_named : isBlank "ana" = false := by decide

theorem full_confidence : (0 : ℚ) ≤ 1 ∧ (1 : ℚ) ≤ 1 := ⟨zero_le_one, le_rfl⟩

theorem filledPause_roles : RoleRules .filledPause "" none := by decide

def filledPauseAt (interval : Interval) : DisfluencyAnnotation :=
  ⟨.filledPause, interval, "ana", "", none, 1, "", ana_named, full_confidence, filledPause_roles⟩

def twoPauses : List DisfluencyAnnotation :=
  [filledPauseAt ⟨1000, 2000, by decide, by decide⟩,
    filledPauseAt ⟨3000, 3600, by decide, by decide⟩]

def threePauses : List DisfluencyAnnotation :=
  [filledPauseAt ⟨0, 300, by decide, by decide⟩,
    filledPauseAt ⟨1000, 1900, by decide, by decide⟩,
    filledPauseAt ⟨3000, 3700, by decide, by decide⟩]

/-- Two events that both annotators found are paired whoever is called left. -/
theorem symmetric_twoPauses : Symmetric .double {} twoPauses threePauses := by
  apply symmetric_of_equallyMany
  have hlast := (isTight_iff .double (weights .double {} (ordered twoPauses) (ordered threePauses))
    (n := 2) (m := 3) (i := 1) (j := 2) (by decide) (by decide)).1 (by decide +kernel)
  have hfirst := (isTight_iff .double (weights .double {} (ordered twoPauses) (ordered threePauses))
    (n := 2) (m := 3) (i := 0) (j := 1) (by decide) (by decide)).1 (by decide +kernel)
  rw [weightsOf_weights] at hlast hfirst
  have hword : ∀ u, Eager .double (orderedScores .double {} twoPauses threePauses) tightness
      (2, 3) u → u = [.pair, .pair] := by
    intro u hu
    obtain ⟨v, hv, rfl⟩ := hu.of_keeps_pair hlast
    obtain ⟨t, ht, rfl⟩ := hv.of_keeps_pair hfirst
    cases ht
    rfl
  intro u v hu hv
  rw [hword u hu, hword v hv]

def nestedLeft : List DisfluencyAnnotation :=
  [filledPauseAt ⟨1000, 2000, by decide, by decide⟩,
    filledPauseAt ⟨1100, 3100, by decide, by decide⟩]

def nestedRight : List DisfluencyAnnotation :=
  [filledPauseAt ⟨0, 2000, by decide, by decide⟩,
    filledPauseAt ⟨0, 4000, by decide, by decide⟩,
    filledPauseAt ⟨1000, 2000, by decide, by decide⟩]

/-- One pair of score 1 and two pairs of score 1/2 weigh the same; from one side the single pair
is chosen, from the other the two. -/
theorem not_symmetric_nested :
    (matchAnnotations .double {} nestedLeft nestedRight).positiveSpecificAgreement .double =
        Rounding.double (2 / 5) ∧
      (matchAnnotations .double {} nestedRight nestedLeft).positiveSpecificAgreement .double =
        Rounding.double (4 / 5) ∧
      ¬Symmetric .double {} nestedLeft nestedRight := by
  have hone : (matchAnnotations .double {} nestedLeft nestedRight).positiveSpecificAgreement
      .double = Rounding.double (2 / 5) := by decide +kernel
  have htwo : (matchAnnotations .double {} nestedRight nestedLeft).positiveSpecificAgreement
      .double = Rounding.double (4 / 5) := by decide +kernel
  refine ⟨hone, htwo, fun h => ?_⟩
  have heq := h.agreement
  rw [hone, htwo] at heq
  exact absurd heq (by decide +kernel)

end OratoriaEngine.Corpus
