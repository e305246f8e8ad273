import OratoriaEngine.Corpus.Traceback

/-!
# The matching is optimal

Whatever the weights are, the traceback ends, and over exact numbers the pairs it returns weigh as
much as any other non-crossing set of admissible pairs, up to the tolerance it grants each pair.
Matching loses no annotation and uses none twice.
-/

namespace OratoriaEngine.Corpus

open Alignment

/-- What `_optimal_non_crossing` owes its caller, over exact weights and totals. -/
structure Optimal (d : Dict (ℕ × ℕ) ℚ) (n m : ℕ) : Prop where
  terminates : (passes .exact d (bestTable .exact d n m) (n + m) ⟨n, m, []⟩).Done
  increasing : (optimalNonCrossing .exact d n m).Pairwise fun p q => p.1 < q.1 ∧ p.2 < q.2
  admissible : ∀ p ∈ optimalNonCrossing .exact d n m,
    (p.1 < n ∧ p.2 < m) ∧ (weightsOf d p.1 p.2).isSome
  greatest : ∀ S, Admits (weightsOf d) n m S →
    total (weightsOf d) S ≤ ((optimalNonCrossing .exact d n m).map (weight (weightsOf d))).sum +
      (optimalNonCrossing .exact d n m).length • tightness

theorem optimal_optimalNonCrossing (d : Dict (ℕ × ℕ) ℚ) (n m : ℕ) : Optimal d n m := by
  have hlossless : Lossless .exact (weightsOf d) tightness (n, m)
      (walk .exact (weightsOf d) tightness .left n m) := (isFirst_walk tightness_pos n m).1
  refine ⟨passes_done .exact d n m, ?_, ?_, ?_⟩
  · rw [optimalNonCrossing_eq]
    exact hlossless.increasing.1
  · rw [optimalNonCrossing_eq]
    exact hlossless.increasing.2
  · intro S hS
    rw [optimalNonCrossing_eq]
    exact (total_le_best hS).trans hlossless.best_le

/-- The traceback over the admissible pairs is optimal, its positions are those of the pairs
returned, and the pairs and the remainders are the annotations of the two sides. -/
structure WellMatched (rule : MatchRule) (left right : List DisfluencyAnnotation) : Prop where
  optimal : Optimal (weights .exact rule (ordered left) (ordered right)) (ordered left).length
    (ordered right).length
  scored : ∀ i j, weightsOf (weights .exact rule (ordered left) (ordered right)) i j =
    scores .exact rule (ordered left) (ordered right) i j
  paired : (matchAnnotations .exact rule left right).pairs.map some =
    (indices .exact rule left right).map fun p => do
      let a ← (ordered left)[p.1]?
      let b ← (ordered right)[p.2]?
      return ⟨a, b, a.interval.iou b.interval .exact⟩
  left_perm : ((matchAnnotations .exact rule left right).pairs.map (·.left) ++
    (matchAnnotations .exact rule left right).leftOnly).Perm left
  right_perm : ((matchAnnotations .exact rule left right).pairs.map (·.right) ++
    (matchAnnotations .exact rule left right).rightOnly).Perm right

theorem map_some_filterMap {α β : Type} {f : α → Option β} {l : List α}
    (h : ∀ a ∈ l, (f a).isSome) : (l.filterMap f).map some = l.map f := by
  induction l with
  | nil => rfl
  | cons a l ih =>
      obtain ⟨b, hb⟩ := Option.isSome_iff_exists.1 (h a List.mem_cons_self)
      rw [List.filterMap_cons_some hb, List.map_cons, List.map_cons, hb,
        ih fun a ha => h a (List.mem_cons_of_mem _ ha)]

/-- For every two lists, either criterion and every threshold or tolerance, the matching by exact
scores is optimal and well formed. -/
theorem wellMatched_matchAnnotations (rule : MatchRule) (left right : List DisfluencyAnnotation) :
    WellMatched rule left right where
  optimal := optimal_optimalNonCrossing _ _ _
  scored := get?_weights .exact rule _ _
  paired := by
    apply map_some_filterMap
    intro p hp
    obtain ⟨a, b, ha, hb⟩ := exists_of_mem_indices .exact rule left right hp
    simp [ha, hb]
  left_perm := left_perm .exact rule left right
  right_perm := right_perm .exact rule left right

end OratoriaEngine.Corpus
