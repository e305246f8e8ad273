import OratoriaEngine.Corpus.Matching

/-!
# What the matching computes

The dictionary of weights lists the scores of the pairs, the table holds the best totals, and
the traceback is the walk through them that prefers to leave out an annotation of the left
side. The pairs and the two remainders are each side of the input.
-/

namespace OratoriaEngine.Corpus

open Alignment

def scores (ρ : Rounding ℚ) (rule : MatchRule) (left right : List DisfluencyAnnotation) :
    Weights ℚ := fun i j => do
  let a ← left[i]?
  let b ← right[j]?
  rule.score ρ a b

theorem mem_weights_entries {ρ : Rounding ℚ} {rule : MatchRule}
    {left right : List DisfluencyAnnotation} {i j : ℕ} {x : ℚ} :
    ((i, j), x) ∈ (left.zipIdx.flatMap fun (a, i) => right.zipIdx.filterMap fun (b, j) =>
      (rule.score ρ a b).map fun score => ((i, j), score)) ↔
      scores ρ rule left right i j = some x := by
  simp only [List.mem_flatMap, List.mem_filterMap, Prod.exists, List.mem_zipIdx_iff_getElem?,
    scores, Option.map_eq_some_iff, Prod.mk.injEq, Option.bind_eq_bind, Option.bind_eq_some_iff]
  constructor
  · rintro ⟨a, i, ha, b, j, hb, y, hscore, ⟨rfl, rfl⟩, rfl⟩
    exact ⟨a, ha, b, hb, hscore⟩
  · rintro ⟨a, ha, b, hb, hscore⟩
    exact ⟨a, i, ha, b, j, hb, x, hscore, ⟨rfl, rfl⟩, rfl⟩

theorem get?_weights (ρ : Rounding ℚ) (rule : MatchRule) (left right : List DisfluencyAnnotation)
    (i j : ℕ) : (weights ρ rule left right).get? (i, j) = scores ρ rule left right i j := by
  rw [weights]
  rcases Dict.get?_setAll_cases Dict.empty _ (i, j) with ⟨x, hmem, hget⟩ | ⟨hmem, hget⟩
  · rw [hget, mem_weights_entries.1 hmem]
  · rw [hget, Dict.get?_empty]
    cases hscore : scores ρ rule left right i j with
    | none => rfl
    | some x =>
        exact absurd (List.mem_map_of_mem (f := Prod.fst) (mem_weights_entries.2 hscore)) hmem

theorem getD_set_self {best : List (List ℚ)} {i : ℕ} (hi : i < best.length) (row : List ℚ) :
    (best.set i row).getD i [] = row := by
  simp [List.getD_eq_getElem?_getD, hi]

theorem getD_set_ne {best : List (List ℚ)} {i a : ℕ} (h : i ≠ a) (row : List ℚ) :
    (best.set i row).getD a [] = best.getD a [] := by
  simp [List.getD_eq_getElem?_getD, List.getElem?_set_ne h]

theorem cell_setCell {best : List (List ℚ)} {i j : ℕ} (hi : i < best.length)
    (hj : j < (best.getD i []).length) (x : ℚ) (a b : ℕ) :
    cell (setCell best i j x) a b = if a = i ∧ b = j then x else cell best a b := by
  unfold cell setCell
  by_cases ha : i = a
  · subst ha
    rw [getD_set_self hi]
    by_cases hb : j = b
    · subst hb
      rw [List.getD_eq_getElem?_getD, List.getElem?_set_self hj]
      simp
    · have hb' : b ≠ j := fun h => hb h.symm
      simp [List.getD_eq_getElem?_getD, List.getElem?_set_ne hb, hb']
  · have ha' : a ≠ i := fun h => ha h.symm
    rw [getD_set_ne ha, if_neg fun h => ha' h.1]

theorem foldl_range_induction {β : Type} {P : ℕ → β → Prop} {f : β → ℕ → β} {x : β} {n : ℕ}
    (h0 : P 0 x) (hstep : ∀ i < n, ∀ y, P i y → P (i + 1) (f y i)) :
    P n ((List.range n).foldl f x) := by
  induction n with
  | zero => exact h0
  | succ n ih =>
      rw [List.range_succ, List.foldl_append]
      exact hstep n n.lt_succ_self _ (ih fun i hi => hstep i (hi.trans n.lt_succ_self))

def weightsOf (d : Dict (ℕ × ℕ) ℚ) : Weights ℚ := fun i j => d.get? (i, j)

/-- The rows up to `i`, the first column, and row `i + 1` up to column `j` hold the best totals. -/
structure Filled (ρ : Rounding ℚ) (d : Dict (ℕ × ℕ) ℚ) (n m i j : ℕ) (table : List (List ℚ)) :
    Prop where
  rows : table.length = n + 1
  columns : ∀ a ≤ n, (table.getD a []).length = m + 1
  correct : ∀ a b, a ≤ n → b ≤ m → a ≤ i ∨ b = 0 ∨ (a = i + 1 ∧ b ≤ j) →
    cell table a b = best ρ (weightsOf d) a b

theorem candidate_eq_cellBest (ρ : Rounding ℚ) (a b c : ℚ) (x : Option ℚ) :
    candidate ρ a b c x = cellBest ρ a b c x := by
  have hmax : (if b ≤ a then a else b) = max a b := (max_def' a b).symm
  cases x with
  | none => exact hmax
  | some x =>
      simp only [candidate, cellBest, hmax]
      exact (max_def_lt _ _).symm

section Table

variable {ρ : Rounding ℚ} {d : Dict (ℕ × ℕ) ℚ} {n m i j : ℕ} {table : List (List ℚ)}

theorem Filled.fillCell (h : Filled ρ d n m i j table) (hi : i < n) (hj : j < m) :
    Filled ρ d n m i (j + 1) (fillCell ρ d i table j) := by
  have hrow : i + 1 < table.length := by
    rw [h.rows]
    omega
  have hcolumn : j + 1 < (table.getD (i + 1) []).length := by
    rw [h.columns _ hi]
    omega
  have hleft := h.correct i (j + 1) hi.le hj (Or.inl le_rfl)
  have hright := h.correct (i + 1) j hi hj.le (Or.inr (Or.inr ⟨rfl, le_rfl⟩))
  have hpair := h.correct i j hi.le hj.le (Or.inl le_rfl)
  refine ⟨?_, ?_, ?_⟩
  · simp [Corpus.fillCell, setCell, h.rows]
  · intro a ha
    rw [Corpus.fillCell, setCell]
    by_cases hne : i + 1 = a
    · subst hne
      rw [getD_set_self hrow, List.length_set, h.columns _ ha]
    · rw [getD_set_ne hne, h.columns _ ha]
  · intro a b ha hb hknown
    rw [Corpus.fillCell, cell_setCell hrow hcolumn]
    split_ifs with hcell
    · obtain ⟨rfl, rfl⟩ := hcell
      rw [best_succ_succ, candidate_eq_cellBest, hleft, hright, hpair]
      rfl
    · apply h.correct a b ha hb
      omega

theorem Filled.fillRow (h : Filled ρ d n m i 0 table) (hi : i < n) :
    Filled ρ d n m (i + 1) 0 (fillRow ρ d m table i) := by
  have hrow : Filled ρ d n m i m (Corpus.fillRow ρ d m table i) :=
    foldl_range_induction (P := Filled ρ d n m i) h fun j hj _ hfilled => hfilled.fillCell hi hj
  refine ⟨hrow.rows, hrow.columns, fun a b ha hb hknown => hrow.correct a b ha hb ?_⟩
  omega

theorem filled_bestTable (ρ : Rounding ℚ) (d : Dict (ℕ × ℕ) ℚ) (n m : ℕ) :
    Filled ρ d n m n 0 (bestTable ρ d n m) := by
  apply foldl_range_induction (P := fun i => Filled ρ d n m i 0)
  · refine ⟨by simp, fun a ha => ?_, fun a b ha hb hknown => ?_⟩
    · simp [List.getD_eq_getElem?_getD, Nat.lt_succ_of_le ha]
    · have hzero : best ρ (weightsOf d) a b = 0 := by
        rcases (by omega : a = 0 ∨ b = 0) with rfl | rfl
        · exact best_zero_left ρ _ b
        · exact best_zero_right ρ _ a
      simp [cell, List.getD_eq_getElem?_getD, Nat.lt_succ_of_le ha, Nat.lt_succ_of_le hb, hzero]
  · exact fun i hi _ hfilled => hfilled.fillRow hi

theorem cell_bestTable (ρ : Rounding ℚ) (d : Dict (ℕ × ℕ) ℚ) {n m i j : ℕ} (hi : i ≤ n)
    (hj : j ≤ m) : cell (bestTable ρ d n m) i j = best ρ (weightsOf d) i j :=
  (filled_bestTable ρ d n m).correct i j hi hj (Or.inl hi)

end Table

theorem tightness_pos : 0 < tightness := by decide +kernel

section Traceback

variable (ρ : Rounding ℚ) (d : Dict (ℕ × ℕ) ℚ) {n m i j : ℕ}

theorem isTight_iff (hi : i < n) (hj : j < m) :
    isTight ρ d (bestTable ρ d n m) i j = true ↔ Keeps ρ (weightsOf d) tightness i j .pair := by
  have hcell := cell_bestTable ρ d hi.nat_succ_le hj.nat_succ_le
  have hpair := cell_bestTable ρ d hi.le hj.le
  simp only [Nat.succ_eq_add_one] at hcell
  simp only [isTight, Keeps, weightsOf]
  cases hget : d.get? (i, j) with
  | none => simp
  | some x => simp [hcell, hpair]

theorem advance_eq (hi : i < n) (hj : j < m) (pairs : List (ℕ × ℕ)) :
    advance ρ d (bestTable ρ d n m) ⟨i + 1, j + 1, pairs⟩ =
      let a := nextMove ρ (weightsOf d) tightness .left i j
      ⟨(remaining i j a).1, (remaining i j a).2, pairs ++ if a = .pair then [(i, j)] else []⟩ := by
  have hcell := cell_bestTable ρ d hi.nat_succ_le hj.nat_succ_le
  have hleft := cell_bestTable ρ d hi.le hj.nat_succ_le
  simp only [Nat.succ_eq_add_one] at hcell hleft
  simp only [advance, isTight_iff ρ d hi hj, hcell, hleft, nextMove]
  by_cases hpair : Keeps ρ (weightsOf d) tightness i j .pair
  · simp only [hpair, if_true, remaining]
  · by_cases hskip : Keeps ρ (weightsOf d) tightness i j (.skip .left)
    · have hbest : best ρ (weightsOf d) (i + 1) (j + 1) = best ρ (weightsOf d) i (j + 1) := hskip
      simp [hpair, hskip, hbest, remaining]
    · have hbest : best ρ (weightsOf d) (i + 1) (j + 1) ≠ best ρ (weightsOf d) i (j + 1) := hskip
      simp [hpair, hskip, hbest, remaining, Side.other]

theorem advance_of_edge (table : List (List ℚ)) (h : i = 0 ∨ j = 0) (pairs : List (ℕ × ℕ)) :
    advance ρ d table ⟨i, j, pairs⟩ = ⟨i, j, pairs⟩ := by
  rcases h with rfl | rfl
  · rfl
  · cases i <;> rfl

theorem passes_of_edge (table : List (List ℚ)) (h : i = 0 ∨ j = 0) (pairs : List (ℕ × ℕ)) (k : ℕ) :
    passes ρ d table k ⟨i, j, pairs⟩ = ⟨i, j, pairs⟩ :=
  Function.iterate_fixed (advance_of_edge ρ d table h pairs) k

/-- The loop is over after as many passes as there are annotations left, and has appended the
pairs of the walk, last ones first. -/
theorem passes_eq (hi : i ≤ n) (hj : j ≤ m) {k : ℕ} (hk : i + j ≤ k) (pairs : List (ℕ × ℕ)) :
    (passes ρ d (bestTable ρ d n m) k ⟨i, j, pairs⟩).Done ∧
      (passes ρ d (bestTable ρ d n m) k ⟨i, j, pairs⟩).pairs =
        pairs ++ (pairsOf i j (walk ρ (weightsOf d) tightness .left i j)).reverse := by
  induction k generalizing i j pairs with
  | zero =>
      have hedge : i = 0 ∨ j = 0 := by omega
      rw [passes_of_edge ρ d _ hedge, pairsOf_of_edge hedge, List.reverse_nil, List.append_nil]
      exact ⟨hedge, rfl⟩
  | succ k ih =>
      by_cases hedge : i = 0 ∨ j = 0
      · rw [passes_of_edge ρ d _ hedge, pairsOf_of_edge hedge, List.reverse_nil, List.append_nil]
        exact ⟨hedge, rfl⟩
      · obtain ⟨i, rfl⟩ := Nat.exists_eq_succ_of_ne_zero fun h => hedge (Or.inl h)
        obtain ⟨j, rfl⟩ := Nat.exists_eq_succ_of_ne_zero fun h => hedge (Or.inr h)
        have hlt := remaining_lt i j (nextMove ρ (weightsOf d) tightness .left i j)
        have hle := remaining_le i j (nextMove ρ (weightsOf d) tightness .left i j)
        obtain ⟨hdone, hpairs⟩ := ih (hle.1.trans hi) (hle.2.trans hj) (by omega)
          (pairs ++ if nextMove ρ (weightsOf d) tightness .left i j = .pair then [(i, j)] else [])
        have hpass : passes ρ d (bestTable ρ d n m) (k + 1) ⟨i + 1, j + 1, pairs⟩ = _ :=
          (Function.iterate_succ_apply _ k _).trans
            (congrArg (passes ρ d (bestTable ρ d n m) k) (advance_eq ρ d hi hj pairs))
        rw [Nat.succ_eq_add_one, Nat.succ_eq_add_one, hpass]
        refine ⟨hdone, hpairs.trans ?_⟩
        rw [walk_succ_succ, pairsOf, List.reverse_append, List.append_assoc]
        split_ifs <;> rfl

theorem passes_done (n m : ℕ) :
    (passes ρ d (bestTable ρ d n m) (n + m) ⟨n, m, []⟩).Done :=
  (passes_eq ρ d le_rfl le_rfl le_rfl []).1

theorem optimalNonCrossing_eq (n m : ℕ) :
    optimalNonCrossing ρ d n m = pairsOf n m (walk ρ (weightsOf d) tightness .left n m) := by
  rw [optimalNonCrossing, (passes_eq ρ d le_rfl le_rfl le_rfl []).2, List.nil_append,
    List.reverse_reverse]

end Traceback

theorem filterMap_append_filter_perm {α : Type} (l : List α) {is : List ℕ} (hnodup : is.Nodup) :
    (is.filterMap (l[·]?) ++ (l.zipIdx.filter fun e => e.2 ∉ is).map Prod.fst).Perm l := by
  have hpicked : (is.filterMap fun i => l[i]?.map (·, i)).Perm
      (l.zipIdx.filter fun e => e.2 ∈ is) := by
    apply (List.perm_ext_iff_of_nodup ?_ ?_).2
    · rintro ⟨a, i⟩
      simp [List.mem_zipIdx_iff_getElem?, and_comm]
    · apply hnodup.filterMap
      intro i j e hi hj
      simp only [Option.mem_def, Option.map_eq_some_iff] at hi hj
      obtain ⟨a, -, rfl⟩ := hi
      obtain ⟨b, -, h⟩ := hj
      exact (congrArg Prod.snd h).symm
    · apply List.Nodup.filter
      apply List.Nodup.of_map Prod.snd
      rw [List.zipIdx_map_snd]
      exact List.nodup_range'
  have hmap : is.filterMap (l[·]?) = (is.filterMap fun i => l[i]?.map (·, i)).map Prod.fst := by
    rw [List.map_filterMap]
    congr 1
    funext i
    cases l[i]? <;> rfl
  have hrest : (l.zipIdx.filter fun e => e.2 ∉ is) =
      l.zipIdx.filter fun e => !decide (e.2 ∈ is) := by
    simp only [decide_not]
  calc
    _ = ((is.filterMap fun i => l[i]?.map (·, i)) ++
          l.zipIdx.filter fun e => !decide (e.2 ∈ is)).map Prod.fst := by
      rw [hmap, hrest, List.map_append]
    List.Perm _ (l.zipIdx.map Prod.fst) :=
      ((hpicked.append_right _).trans (List.filter_append_perm _ _)).map _
    _ = l := List.zipIdx_map_fst 0 l

section Match

variable (ρ : Rounding ℚ) (rule : MatchRule) (left right : List DisfluencyAnnotation)

/-- The scores of the annotations in temporal order. -/
def orderedScores : Weights ℚ := scores ρ rule (ordered left) (ordered right)

def indices : List (ℕ × ℕ) :=
  optimalNonCrossing ρ (weights ρ rule (ordered left) (ordered right)) (ordered left).length
    (ordered right).length

theorem length_ordered (annotations : List DisfluencyAnnotation) :
    (ordered annotations).length = annotations.length := List.length_insertionSort _ _

theorem weightsOf_weights :
    weightsOf (weights ρ rule (ordered left) (ordered right)) =
      orderedScores ρ rule left right := by
  funext i j
  exact get?_weights ρ rule _ _ i j

theorem indices_eq :
    indices ρ rule left right = pairsOf left.length right.length
      (walk ρ (orderedScores ρ rule left right) tightness .left left.length right.length) := by
  rw [indices, optimalNonCrossing_eq, weightsOf_weights, length_ordered, length_ordered]

theorem lossless_walk :
    Lossless ρ (orderedScores ρ rule left right) tightness (left.length, right.length)
      (walk ρ (orderedScores ρ rule left right) tightness .left left.length right.length) :=
  (isFirst_walk tightness_pos _ _).1

theorem indices_increasing :
    (indices ρ rule left right).Pairwise (fun p q => p.1 < q.1 ∧ p.2 < q.2) ∧
      ∀ p ∈ indices ρ rule left right, (p.1 < left.length ∧ p.2 < right.length) ∧
        (orderedScores ρ rule left right p.1 p.2).isSome := by
  rw [indices_eq]
  exact (lossless_walk ρ rule left right).increasing

theorem length_indices :
    (indices ρ rule left right).length =
      (walk ρ (orderedScores ρ rule left right) tightness .left left.length right.length).count
        .pair := by
  rw [indices_eq]
  exact (lossless_walk ρ rule left right).length_pairsOf

theorem exists_of_mem_indices {p : ℕ × ℕ} (hp : p ∈ indices ρ rule left right) :
    ∃ a b, (ordered left)[p.1]? = some a ∧ (ordered right)[p.2]? = some b := by
  obtain ⟨⟨hi, hj⟩, -⟩ := (indices_increasing ρ rule left right).2 p hp
  rw [← length_ordered left] at hi
  rw [← length_ordered right] at hj
  exact ⟨_, _, List.getElem?_eq_getElem hi, List.getElem?_eq_getElem hj⟩

theorem pairs_map_left :
    (matchAnnotations ρ rule left right).pairs.map (·.left) =
      ((indices ρ rule left right).map Prod.fst).filterMap ((ordered left)[·]?) := by
  change ((indices ρ rule left right).filterMap _).map _ = _
  rw [List.map_filterMap, List.filterMap_map]
  apply List.filterMap_congr
  intro p hp
  obtain ⟨a, b, ha, hb⟩ := exists_of_mem_indices ρ rule left right hp
  simp [ha, hb]

theorem pairs_map_right :
    (matchAnnotations ρ rule left right).pairs.map (·.right) =
      ((indices ρ rule left right).map Prod.snd).filterMap ((ordered right)[·]?) := by
  change ((indices ρ rule left right).filterMap _).map _ = _
  rw [List.map_filterMap, List.filterMap_map]
  apply List.filterMap_congr
  intro p hp
  obtain ⟨a, b, ha, hb⟩ := exists_of_mem_indices ρ rule left right hp
  simp [ha, hb]

theorem left_perm :
    ((matchAnnotations ρ rule left right).pairs.map (·.left) ++
      (matchAnnotations ρ rule left right).leftOnly).Perm left := by
  have hnodup : ((indices ρ rule left right).map Prod.fst).Nodup :=
    List.pairwise_map.2 ((indices_increasing ρ rule left right).1.imp fun h => h.1.ne)
  rw [pairs_map_left]
  exact (filterMap_append_filter_perm (ordered left) hnodup).trans (List.perm_insertionSort _ _)

theorem right_perm :
    ((matchAnnotations ρ rule left right).pairs.map (·.right) ++
      (matchAnnotations ρ rule left right).rightOnly).Perm right := by
  have hnodup : ((indices ρ rule left right).map Prod.snd).Nodup :=
    List.pairwise_map.2 ((indices_increasing ρ rule left right).1.imp fun h => h.2.ne)
  rw [pairs_map_right]
  exact (filterMap_append_filter_perm (ordered right) hnodup).trans (List.perm_insertionSort _ _)

theorem length_pairs :
    (matchAnnotations ρ rule left right).pairs.length = (indices ρ rule left right).length := by
  apply List.filterMap_length_eq_length.2
  intro p hp
  obtain ⟨a, b, ha, hb⟩ := exists_of_mem_indices ρ rule left right hp
  simp [ha, hb]

end Match

end OratoriaEngine.Corpus
