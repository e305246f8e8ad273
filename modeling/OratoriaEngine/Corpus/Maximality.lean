import OratoriaEngine.Corpus.Symmetry

/-!
# What the matching leaves unmatched

An admissible pair of unmatched annotations that crosses no chosen pair adds nothing to the best
total. The traceback passes it by where it leaves out the left annotation before it comes to the
right one.
-/

namespace OratoriaEngine.Corpus

open Alignment

variable (ρ : Rounding ℚ) (rule : MatchRule) (left right : List DisfluencyAnnotation)

def Crosses (p q : ℕ × ℕ) : Prop := (p.1 < q.1 ∧ q.2 < p.2) ∨ (q.1 < p.1 ∧ p.2 < q.2)

structure HasRoom (pairs : List (ℕ × ℕ)) (q : ℕ × ℕ) : Prop where
  left_only : q.1 ∉ pairs.map Prod.fst
  right_only : q.2 ∉ pairs.map Prod.snd
  crosses_none : ∀ p ∈ pairs, ¬Crosses p q

theorem hasRoom_iff {pairs : List (ℕ × ℕ)} {q : ℕ × ℕ} :
    HasRoom pairs q ↔ ∀ p ∈ pairs, Compatible p q := by
  constructor
  · intro h p hp
    have hleft : p.1 ≠ q.1 := fun heq => h.left_only (heq ▸ List.mem_map_of_mem hp)
    have hright : p.2 ≠ q.2 := fun heq => h.right_only (heq ▸ List.mem_map_of_mem hp)
    have hcross := h.crosses_none p hp
    unfold Crosses at hcross
    unfold Compatible
    omega
  · intro h
    refine ⟨?_, ?_, ?_⟩
    · intro hmem
      obtain ⟨p, hp, heq⟩ := List.mem_map.1 hmem
      have hcompatible := h p hp
      unfold Compatible at hcompatible
      omega
    · intro hmem
      obtain ⟨p, hp, heq⟩ := List.mem_map.1 hmem
      have hcompatible := h p hp
      unfold Compatible at hcompatible
      omega
    · intro p hp hcross
      have hcompatible := h p hp
      unfold Crosses at hcross
      unfold Compatible at hcompatible
      omega

/-- No admissible pair is left that has room beside the pairs chosen. -/
def Maximal : Prop :=
  ∀ i j, i < left.length → j < right.length →
    (orderedScores ρ rule left right i j).isSome → ¬HasRoom (indices ρ rule left right) (i, j)

theorem Interval.iou_nonneg (a b : Interval) : 0 ≤ a.iou b ρ := by
  unfold Interval.iou
  split_ifs
  · apply ρ.nonneg
    apply div_nonneg
    · exact Int.cast_nonneg (le_max_left _ _)
    · exact Int.cast_nonneg (a.unionMs_pos b).le
  · exact le_rfl

theorem orderedScores_nonneg {i j : ℕ} {x : ℚ}
    (h : orderedScores ρ rule left right i j = some x) : 0 ≤ x := by
  simp only [orderedScores, scores, Option.bind_eq_bind, Option.bind_eq_some_iff] at h
  obtain ⟨a, -, b, -, hscore⟩ := h
  have hiou : x = a.interval.iou b.interval ρ := by
    unfold MatchRule.score at hscore
    cases hcriterion : rule.criterion <;> simp only [hcriterion] at hscore <;>
      split_ifs at hscore <;> exact (Option.some.inj hscore).symm
  rw [hiou]
  exact a.interval.iou_nonneg ρ b.interval

/-- However the ties are broken, an alignment that loses nothing and pairs where it can comes to no
place where a left annotation could have been paired with an earlier right one, since neither it
nor the right ones from there on add anything. -/
def NoneForgone (w : Weights ℚ) (n m : ℕ) : Prop :=
  ∀ i b, Reaches ρ w tightness n m (i + 1, b + 1) → ¬Forgone ρ w tightness i b

/-- Where no annotation is forgone no admissible pair is left that has room. -/
theorem maximal_of_noneForgone
    (h : NoneForgone ρ (orderedScores ρ rule left right) left.length right.length) :
    Maximal ρ rule left right := by
  intro i j hi hj hadmissible hroom
  obtain ⟨x, hx⟩ := Option.isSome_iff_exists.1 hadmissible
  rw [indices_eq] at hroom
  obtain ⟨b, hreach, hforgone⟩ := exists_forgone tightness_pos .all hi hj hx
    (orderedScores_nonneg ρ rule left right hx) (hasRoom_iff.1 hroom)
  exact h i b hreach hforgone

/-- Where every score adds to the best total before it, nothing is forgone. -/
theorem noneForgone_of_adds {w : Weights ℚ} {n m : ℕ}
    (h : ∀ i j x, w i j = some x → best ρ w i j < ρ (best ρ w i j + x)) :
    NoneForgone ρ w n m := by
  rintro i b - ⟨-, j, hj, hadmissible, hbest⟩
  obtain ⟨x, hx⟩ := Option.isSome_iff_exists.1 hadmissible
  have hadds := (h i j x hx).trans_le (best_pair_le ρ w hx)
  have hle := best_mono ρ w (le_refl (i + 1)) (Nat.succ_le_succ hj.le)
  rw [hbest] at hle
  exact absurd hle (not_le.2 hadds)

def nearMiss : List DisfluencyAnnotation := [filledPauseAt ⟨700, 800, by decide, by decide⟩]

def nearMissAndLater : List DisfluencyAnnotation :=
  [filledPauseAt ⟨900, 1000, by decide, by decide⟩,
    filledPauseAt ⟨5000, 5100, by decide, by decide⟩]

def nearMissAndCommon : List DisfluencyAnnotation :=
  [filledPauseAt ⟨700, 800, by decide, by decide⟩,
    filledPauseAt ⟨5000, 5200, by decide, by decide⟩]

/-- Beside the later event the near miss is matched. -/
theorem maximal_nearMissAndCommon :
    Maximal .double { criterion := .midpointTolerance } nearMissAndCommon nearMissAndLater := by
  apply maximal_of_noneForgone
  have hlast := (isTight_iff .double (weights .double { criterion := .midpointTolerance }
    (ordered nearMissAndCommon) (ordered nearMissAndLater)) (n := 2) (m := 2) (i := 1) (j := 1)
    (by decide) (by decide)).1 (by decide +kernel)
  have hfirst := (isTight_iff .double (weights .double { criterion := .midpointTolerance }
    (ordered nearMissAndCommon) (ordered nearMissAndLater)) (n := 2) (m := 2) (i := 0) (j := 0)
    (by decide) (by decide)).1 (by decide +kernel)
  rw [weightsOf_weights] at hlast hfirst
  rintro i b hreach ⟨hunpaired, -⟩
  rcases hreach.of_keeps_pair hlast with heq | hreach
  · obtain ⟨rfl, rfl⟩ : i = 1 ∧ b = 1 := by simpa using heq
    exact hunpaired hlast
  · rcases hreach.of_keeps_pair hfirst with heq | hreach
    · obtain ⟨rfl, rfl⟩ : i = 0 ∧ b = 0 := by simpa using heq
      exact hunpaired hfirst
    · have hle := hreach.le
      simp at hle

/-- Two annotations whose midpoints are 200 ms apart match under a tolerance of 250 ms only until
one of the annotators adds an event that is far away. -/
theorem not_maximal_nearMiss :
    ¬Maximal .double { criterion := .midpointTolerance } nearMiss nearMissAndLater := by
  have hnone : indices .double { criterion := .midpointTolerance } nearMiss nearMissAndLater =
      [] := by
    decide +kernel
  intro h
  apply h 0 0 (by decide) (by decide) (by decide +kernel)
  rw [hnone]
  exact ⟨by simp, by simp, by simp⟩

end OratoriaEngine.Corpus
