import Mathlib.Algebra.BigOperators.Group.Finset.Basic
import Mathlib.Algebra.BigOperators.Group.List.Basic
import Mathlib.Algebra.Order.Group.Abs
import Mathlib.Algebra.Order.Group.Nat
import Mathlib.Algebra.Ring.Nat
import OratoriaEngine.Lib.Rounding

/-!
# Non-crossing alignments of two sequences

Pairs of positions carry weights; a set of admissible pairs is non-crossing when it lists
both sequences in their order. The recurrence `best` is the greatest total weight of such a
set. An alignment read from the two ends is a word of moves; it is lossless when every move
keeps the best total, up to a tolerance for pairs, and a walk that prefers pairing and then
one of the sides is the first of the lossless words.
-/

namespace Alignment

variable {K : Type*}

abbrev Weights (K : Type*) := ℕ → ℕ → Option K

def Weights.transpose (w : Weights K) : Weights K := fun j i => w i j

/-- Two pairs that share no position and do not cross. -/
def Compatible (p q : ℕ × ℕ) : Prop := (p.1 < q.1 ∧ p.2 < q.2) ∨ (q.1 < p.1 ∧ q.2 < p.2)

/-- The pairs occur in the same order in both sequences, and no position occurs twice. -/
def NonCrossing (S : Finset (ℕ × ℕ)) : Prop := (S : Set (ℕ × ℕ)).Pairwise Compatible

/-- A non-crossing set of admissible pairs of the first `n` and the first `m` positions. -/
structure Admits (w : Weights K) (n m : ℕ) (S : Finset (ℕ × ℕ)) : Prop where
  nonCrossing : NonCrossing S
  within : ∀ p ∈ S, p.1 < n ∧ p.2 < m
  admissible : ∀ p ∈ S, (w p.1 p.2).isSome

theorem Admits.mono {w : Weights K} {n m n' m' : ℕ} {S T : Finset (ℕ × ℕ)}
    (h : Admits w n m S) (hT : T ⊆ S) (hwithin : ∀ p ∈ T, p.1 < n' ∧ p.2 < m') :
    Admits w n' m' T where
  nonCrossing := h.nonCrossing.mono (Finset.coe_subset.2 hT)
  within := hwithin
  admissible := fun p hp => h.admissible p (hT hp)

/-- A set for prefixes either pairs the last two positions, or leaves one of them out. -/
theorem Admits.cases {w : Weights K} {i j : ℕ} {S : Finset (ℕ × ℕ)}
    (h : Admits w (i + 1) (j + 1) S) :
    ((i, j) ∈ S ∧ Admits w i j (S.erase (i, j))) ∨ Admits w i (j + 1) S ∨
      Admits w (i + 1) j S := by
  by_cases hpair : (i, j) ∈ S
  · refine Or.inl ⟨hpair, h.mono (S.erase_subset _) ?_⟩
    intro p hp
    obtain ⟨hne, hmem⟩ := Finset.mem_erase.1 hp
    have hlt := h.within p hmem
    rcases h.nonCrossing hmem hpair hne with hbefore | hafter
    · exact hbefore
    · simp only at hafter
      omega
  · apply Or.inr
    by_cases hlast : ∃ p ∈ S, p.1 = i
    · obtain ⟨p, hp, hi⟩ := hlast
      have hp2 : p.2 ≠ j := by
        rintro rfl
        exact hpair (hi ▸ hp)
      refine Or.inr (h.mono subset_rfl fun q hq => ?_)
      have hlt := h.within p hp
      have hqlt := h.within q hq
      by_cases hqp : q = p
      · subst hqp
        omega
      · rcases h.nonCrossing hq hp hqp with hbefore | hafter <;> omega
    · refine Or.inl (h.mono subset_rfl fun p hp => ?_)
      have hlt := h.within p hp
      have hne : p.1 ≠ i := fun hi => hlast ⟨p, hp, hi⟩
      omega

theorem Admits.eq_empty_of_left {w : Weights K} {m : ℕ} {S : Finset (ℕ × ℕ)}
    (h : Admits w 0 m S) : S = ∅ :=
  Finset.eq_empty_of_forall_notMem fun p hp => absurd (h.within p hp).1 p.1.not_lt_zero

theorem Admits.eq_empty_of_right {w : Weights K} {n : ℕ} {S : Finset (ℕ × ℕ)}
    (h : Admits w n 0 S) : S = ∅ :=
  Finset.eq_empty_of_forall_notMem fun p hp => absurd (h.within p hp).2 p.2.not_lt_zero

section Total

variable [AddCommMonoid K] (w : Weights K)

def weight (p : ℕ × ℕ) : K := (w p.1 p.2).getD 0

def total (S : Finset (ℕ × ℕ)) : K := ∑ p ∈ S, weight w p

end Total

variable [AddCommGroup K] [LinearOrder K] (ρ : Rounding K) (w : Weights K)

/-- The best total of a cell from the cells without its left, its right and both positions. -/
def cellBest (skipLeft skipRight diagonal : K) : Option K → K
  | none => max skipLeft skipRight
  | some x => max (max skipLeft skipRight) (ρ (diagonal + x))

def best : ℕ → ℕ → K
  | 0, _ => 0
  | _ + 1, 0 => 0
  | i + 1, j + 1 => cellBest ρ (best i (j + 1)) (best (i + 1) j) (best i j) (w i j)
  termination_by i j => (i, j)

@[simp] theorem best_zero_left (j : ℕ) : best ρ w 0 j = 0 := by rw [best]

@[simp] theorem best_zero_right (i : ℕ) : best ρ w i 0 = 0 := by cases i <;> rw [best]

theorem best_succ_succ (i j : ℕ) :
    best ρ w (i + 1) (j + 1) =
      cellBest ρ (best ρ w i (j + 1)) (best ρ w (i + 1) j) (best ρ w i j) (w i j) := by
  rw [best]

theorem best_skipLeft_le (i j : ℕ) : best ρ w i (j + 1) ≤ best ρ w (i + 1) (j + 1) := by
  rw [best_succ_succ]
  cases w i j with
  | none => exact le_max_left _ _
  | some x => exact (le_max_left _ _).trans (le_max_left _ _)

theorem best_skipRight_le (i j : ℕ) : best ρ w (i + 1) j ≤ best ρ w (i + 1) (j + 1) := by
  rw [best_succ_succ]
  cases w i j with
  | none => exact le_max_right _ _
  | some x => exact (le_max_right _ _).trans (le_max_left _ _)

theorem best_pair_le {i j : ℕ} {x : K} (hx : w i j = some x) :
    ρ (best ρ w i j + x) ≤ best ρ w (i + 1) (j + 1) := by
  rw [best_succ_succ, hx]
  exact le_max_right _ _

theorem best_le_succ_left (i j : ℕ) : best ρ w i j ≤ best ρ w (i + 1) j := by
  cases j with
  | zero => simp
  | succ j => exact best_skipLeft_le ρ w i j

theorem best_le_succ_right (i j : ℕ) : best ρ w i j ≤ best ρ w i (j + 1) := by
  cases i with
  | zero => simp
  | succ i => exact best_skipRight_le ρ w i j

theorem best_mono {i i' j j' : ℕ} (hi : i ≤ i') (hj : j ≤ j') : best ρ w i j ≤ best ρ w i' j' :=
  (monotone_nat_of_le_succ (fun i => best_le_succ_left ρ w i j) hi).trans
    (monotone_nat_of_le_succ (best_le_succ_right ρ w i') hj)

theorem best_cases (i j : ℕ) :
    best ρ w (i + 1) (j + 1) = best ρ w i (j + 1) ∨
      best ρ w (i + 1) (j + 1) = best ρ w (i + 1) j ∨
        ∃ x, w i j = some x ∧ best ρ w (i + 1) (j + 1) = ρ (best ρ w i j + x) := by
  rw [best_succ_succ]
  cases w i j with
  | none =>
      rcases max_choice (best ρ w i (j + 1)) (best ρ w (i + 1) j) with h | h
      · exact Or.inl h
      · exact Or.inr (Or.inl h)
  | some x =>
      simp only [cellBest]
      rcases max_choice (max (best ρ w i (j + 1)) (best ρ w (i + 1) j))
        (ρ (best ρ w i j + x)) with h | h
      · rw [h]
        rcases max_choice (best ρ w i (j + 1)) (best ρ w (i + 1) j) with h | h
        · exact Or.inl h
        · exact Or.inr (Or.inl h)
      · exact Or.inr (Or.inr ⟨x, rfl, h⟩)

theorem round_best (i j : ℕ) : ρ (best ρ w i j) = best ρ w i j := by
  induction i, j using best.induct with
  | case1 j => rw [best_zero_left, ρ.map_zero]
  | case2 i => rw [best_zero_right, ρ.map_zero]
  | case3 i j ihLeft ihRight ihPair =>
      rcases best_cases ρ w i j with h | h | ⟨x, -, h⟩
      · rw [h, ihLeft]
      · rw [h, ihRight]
      · rw [h, ρ.idempotent]

section Greatest

variable {w} [IsOrderedAddMonoid K] {i j : ℕ} {S : Finset (ℕ × ℕ)}

/-- Without rounding no non-crossing set of admissible pairs has more weight than the best total. -/
theorem total_le_best (h : Admits w i j S) : total w S ≤ best .exact w i j := by
  induction i, j using best.induct generalizing S with
  | case1 j => rw [h.eq_empty_of_left, best_zero_left, total, Finset.sum_empty]
  | case2 i => rw [h.eq_empty_of_right, best_zero_right, total, Finset.sum_empty]
  | case3 i j ihLeft ihRight ihPair =>
      rcases h.cases with ⟨hpair, hrest⟩ | hleft | hright
      · obtain ⟨x, hx⟩ := Option.isSome_iff_exists.1 (h.admissible _ hpair)
        have hweight : weight w (i, j) = x := by
          rw [weight, hx]
          rfl
        calc
          total w S = total w (S.erase (i, j)) + weight w (i, j) :=
            (Finset.sum_erase_add S _ hpair).symm
          _ ≤ best .exact w i j + x := by
            rw [hweight]
            exact add_le_add_left (ihPair hrest) x
          _ ≤ best .exact w (i + 1) (j + 1) := best_pair_le .exact w hx
      · exact (ihLeft hleft).trans (best_skipLeft_le .exact w i j)
      · exact (ihRight hright).trans (best_skipRight_le .exact w i j)

end Greatest

theorem cellBest_comm (a b c : K) (x : Option K) : cellBest ρ a b c x = cellBest ρ b a c x := by
  cases x <;> simp only [cellBest, max_comm a b]

theorem best_transpose (i j : ℕ) : best ρ w.transpose j i = best ρ w i j := by
  induction i, j using best.induct with
  | case1 j => simp
  | case2 i => simp
  | case3 i j ihLeft ihRight ihPair =>
      rw [best_succ_succ, best_succ_succ, ihLeft, ihRight, ihPair, cellBest_comm]
      rfl

inductive Side
  | left
  | right
  deriving DecidableEq

def Side.other : Side → Side
  | .left => .right
  | .right => .left

/-- What an alignment does with the last positions of two prefixes. -/
inductive Move
  | pair
  | skip (side : Side)
  deriving DecidableEq

def Move.swap : Move → Move
  | .pair => .pair
  | .skip side => .skip side.other

/-- The prefixes that remain after a move on the first `i + 1` and the first `j + 1` positions. -/
def remaining (i j : ℕ) : Move → ℕ × ℕ
  | .pair => (i, j)
  | .skip .left => (i, j + 1)
  | .skip .right => (i + 1, j)

theorem remaining_lt (i j : ℕ) (a : Move) :
    (remaining i j a).1 + (remaining i j a).2 < i + 1 + (j + 1) := by
  rcases a with _ | _ | _ <;> simp only [remaining] <;> omega

theorem remaining_le (i j : ℕ) (a : Move) :
    (remaining i j a).1 ≤ i + 1 ∧ (remaining i j a).2 ≤ j + 1 := by
  rcases a with _ | _ | _ <;> simp [remaining]

/-- The pairs of a word read from the ends of the first `n` and the first `m` positions. -/
def pairsOf : ℕ → ℕ → List Move → List (ℕ × ℕ)
  | i + 1, j + 1, a :: u =>
      pairsOf (remaining i j a).1 (remaining i j a).2 u ++ if a = .pair then [(i, j)] else []
  | _, _, _ => []

theorem pairsOf_of_edge {n m : ℕ} (h : n = 0 ∨ m = 0) (u : List Move) : pairsOf n m u = [] := by
  rcases h with rfl | rfl
  · simp [pairsOf]
  · cases n <;> simp [pairsOf]

/-- A move keeps the best total: a pair may lose less than the tolerance, a skip loses nothing. -/
def Keeps (ε : K) (i j : ℕ) : Move → Prop
  | .pair => ∃ x, w i j = some x ∧ |ρ (best ρ w (i + 1) (j + 1) - ρ (best ρ w i j + x))| < ε
  | .skip .left => best ρ w (i + 1) (j + 1) = best ρ w i (j + 1)
  | .skip .right => best ρ w (i + 1) (j + 1) = best ρ w (i + 1) j

def decidablePair (ε : K) (f : K → K) (x : Option K) : Decidable (∃ y, x = some y ∧ |f y| < ε) :=
  match x with
  | none => isFalse fun ⟨_, hy, _⟩ => nomatch hy
  | some x => decidable_of_iff (|f x| < ε)
      ⟨fun h => ⟨x, rfl, h⟩, fun ⟨_, hy, h⟩ => Option.some.inj hy ▸ h⟩

instance (ε : K) (i j : ℕ) (a : Move) : Decidable (Keeps ρ w ε i j a) :=
  match a with
  | .pair => decidablePair ε (fun x => ρ (best ρ w (i + 1) (j + 1) - ρ (best ρ w i j + x))) (w i j)
  | .skip .left => inferInstanceAs (Decidable (best ρ w (i + 1) (j + 1) = best ρ w i (j + 1)))
  | .skip .right => inferInstanceAs (Decidable (best ρ w (i + 1) (j + 1) = best ρ w (i + 1) j))

variable (ε : K)

/-- Every move of the word keeps the best total of the prefixes it is read from; the word ends
when one of the sequences does. -/
inductive Lossless : ℕ × ℕ → List Move → Prop
  | leftEnd (j : ℕ) : Lossless (0, j) []
  | rightEnd (i : ℕ) : Lossless (i, 0) []
  | move {i j : ℕ} {a : Move} {u : List Move} (ha : Keeps ρ w ε i j a)
      (hu : Lossless (remaining i j a) u) : Lossless (i + 1, j + 1) (a :: u)

section Lossless

variable {ρ w ε} {n m : ℕ} {u : List Move}

/-- A lossless word lists admissible pairs in the order of both sequences. -/
theorem Lossless.increasing {cell : ℕ × ℕ} (h : Lossless ρ w ε cell u) :
    (pairsOf cell.1 cell.2 u).Pairwise (fun p q => p.1 < q.1 ∧ p.2 < q.2) ∧
      ∀ p ∈ pairsOf cell.1 cell.2 u, (p.1 < cell.1 ∧ p.2 < cell.2) ∧ (w p.1 p.2).isSome := by
  induction h with
  | leftEnd j => simp [pairsOf_of_edge]
  | rightEnd i => simp [pairsOf_of_edge]
  | @move i j a u ha hu ih =>
      obtain ⟨hsorted, hpairs⟩ := ih
      have hle := remaining_le i j a
      by_cases hpair : a = .pair
      · subst hpair
        obtain ⟨x, hx, -⟩ := ha
        simp only [pairsOf, remaining, if_true]
        constructor
        · apply List.pairwise_append.2 ⟨hsorted, List.pairwise_singleton _ _, ?_⟩
          intro p hp q hq
          obtain rfl := List.mem_singleton.1 hq
          exact (hpairs p hp).1
        · intro p hp
          rcases List.mem_append.1 hp with hp | hp
          · have hlt := (hpairs p hp).1
            simp only [remaining] at hlt
            exact ⟨by omega, (hpairs p hp).2⟩
          · obtain rfl := List.mem_singleton.1 hp
            exact ⟨⟨i.lt_succ_self, j.lt_succ_self⟩, by rw [hx]; rfl⟩
      · simp only [pairsOf, hpair, if_false, List.append_nil]
        refine ⟨hsorted, fun p hp => ⟨?_, (hpairs p hp).2⟩⟩
        have hlt := (hpairs p hp).1
        omega

theorem Lossless.length_pairsOf {cell : ℕ × ℕ} (h : Lossless ρ w ε cell u) :
    (pairsOf cell.1 cell.2 u).length = u.count .pair := by
  induction h with
  | leftEnd j => simp [pairsOf_of_edge]
  | rightEnd i => simp [pairsOf_of_edge]
  | @move i j a u ha hu ih =>
      simp only [pairsOf, List.length_append, ih, List.count_cons]
      by_cases hpair : a = .pair <;> simp [hpair]

theorem Lossless.best_le [IsOrderedAddMonoid K] {cell : ℕ × ℕ}
    (h : Lossless .exact w ε cell u) :
    best .exact w cell.1 cell.2 ≤ ((pairsOf cell.1 cell.2 u).map (weight w)).sum +
      (pairsOf cell.1 cell.2 u).length • ε := by
  induction h with
  | leftEnd j => simp [pairsOf_of_edge]
  | rightEnd i => simp [pairsOf_of_edge]
  | @move i j a u ha hu ih =>
      match a with
      | .pair =>
          obtain ⟨x, hx, hlt⟩ := ha
          have hweight : weight w (i, j) = x := by
            rw [weight, hx]
            rfl
          have hloss : best .exact w (i + 1) (j + 1) ≤ best .exact w i j + x + ε := by
            have hle := (le_abs_self _).trans hlt.le
            simp only [Rounding.exact_apply] at hle
            rwa [sub_le_iff_le_add'] at hle
          simp only [pairsOf, remaining, if_true, List.map_append, List.sum_append,
            List.length_append, List.map_singleton, List.sum_singleton, List.length_singleton,
            hweight, succ_nsmul]
          calc
            best .exact w (i + 1) (j + 1) ≤ best .exact w i j + x + ε := hloss
            _ ≤ ((pairsOf i j u).map (weight w)).sum + (pairsOf i j u).length • ε + x + ε := by
              gcongr
              exact ih
            _ = ((pairsOf i j u).map (weight w)).sum + x + ((pairsOf i j u).length • ε + ε) := by
              rw [add_right_comm _ _ x, add_assoc]
      | .skip .left =>
          have hkeeps : best .exact w (i + 1) (j + 1) = best .exact w i (j + 1) := ha
          simpa [pairsOf, remaining, hkeeps] using ih
      | .skip .right =>
          have hkeeps : best .exact w (i + 1) (j + 1) = best .exact w (i + 1) j := ha
          simpa [pairsOf, remaining, hkeeps] using ih

end Lossless

/-- Pair if nothing is lost, else leave out a position of the preferred side if nothing is lost,
else one of the other side. -/
def nextMove (first : Side) (i j : ℕ) : Move :=
  if Keeps ρ w ε i j .pair then .pair
  else if Keeps ρ w ε i j (.skip first) then .skip first
  else .skip first.other

def walk (first : Side) : ℕ → ℕ → List Move
  | i + 1, j + 1 =>
      let a := nextMove ρ w ε first i j
      a :: walk first (remaining i j a).1 (remaining i j a).2
  | 0, _ => []
  | _ + 1, 0 => []
  termination_by i j => i + j
  decreasing_by exact remaining_lt i j _

theorem walk_succ_succ (first : Side) (i j : ℕ) :
    walk ρ w ε first (i + 1) (j + 1) = nextMove ρ w ε first i j ::
      walk ρ w ε first (remaining i j (nextMove ρ w ε first i j)).1
        (remaining i j (nextMove ρ w ε first i j)).2 := by
  rw [walk]

theorem walk_zero_left (first : Side) (j : ℕ) : walk ρ w ε first 0 j = [] := by rw [walk]

theorem walk_zero_right (first : Side) (i : ℕ) : walk ρ w ε first i 0 = [] := by
  cases i <;> rw [walk]

def Move.rank (first : Side) : Move → ℕ
  | .pair => 0
  | .skip side => if side = first then 1 else 2

/-- A lossless word that is before every other one, where moves are tried in the given order. -/
def IsFirst (first : Side) (n m : ℕ) (u : List Move) : Prop :=
  Lossless ρ w ε (n, m) u ∧ ∀ v, Lossless ρ w ε (n, m) v →
    v = u ∨ List.Lex (fun a b => a.rank first < b.rank first) u v

section Walk

variable {ρ w ε} [IsOrderedAddMonoid K] {first : Side}

omit [IsOrderedAddMonoid K] in
theorem Move.rank_injective (first : Side) : Function.Injective (Move.rank first) := by
  intro a b h
  rcases first with _ | _ <;> rcases a with _ | _ | _ <;> rcases b with _ | _ | _ <;>
    simp [Move.rank] at h ⊢

theorem keeps_nextMove (hε : 0 < ε) (i j : ℕ) : Keeps ρ w ε i j (nextMove ρ w ε first i j) := by
  rw [nextMove]
  split_ifs with hpair hfirst
  · exact hpair
  · exact hfirst
  · rcases best_cases ρ w i j with hleft | hright | ⟨x, hx, hbest⟩
    · cases first with
      | left => exact absurd hleft hfirst
      | right => exact hleft
    · cases first with
      | left => exact hright
      | right => exact absurd hright hfirst
    · exact absurd ⟨x, hx, by rw [hbest, sub_self, ρ.map_zero, abs_zero]; exact hε⟩ hpair

omit [IsOrderedAddMonoid K] in
theorem rank_nextMove_le {i j : ℕ} {a : Move} (ha : Keeps ρ w ε i j a) :
    (nextMove ρ w ε first i j).rank first ≤ a.rank first := by
  rw [nextMove]
  split_ifs with hpair hfirst
  · exact Nat.zero_le _
  · match a with
    | .pair => exact absurd ha hpair
    | .skip side =>
        simp only [Move.rank]
        split_ifs <;> omega
  · match a with
    | .pair => exact absurd ha hpair
    | .skip side =>
        have hside : side ≠ first := by
          rintro rfl
          exact hfirst ha
        simp only [Move.rank, hside, if_false]
        split_ifs <;> omega

omit [IsOrderedAddMonoid K] in
theorem not_keeps_of_rank_lt {i j : ℕ} {a : Move}
    (h : a.rank first < (nextMove ρ w ε first i j).rank first) : ¬Keeps ρ w ε i j a :=
  fun ha => absurd (rank_nextMove_le ha) (not_le.2 h)

theorem isFirst_walk (hε : 0 < ε) (n m : ℕ) :
    IsFirst ρ w ε first n m (walk ρ w ε first n m) := by
  induction n, m using walk.induct ρ w ε first with
  | case1 i j a ih =>
      obtain ⟨hlossless, hfirst⟩ := ih
      rw [walk_succ_succ]
      refine ⟨.move (keeps_nextMove hε i j) hlossless, ?_⟩
      intro v hv
      cases hv with
      | @move _ _ b u hb hu =>
          by_cases hsame : b = nextMove ρ w ε first i j
          · subst hsame
            rcases hfirst u hu with rfl | hlex
            · exact Or.inl rfl
            · exact Or.inr (.cons hlex)
          · have hne : a.rank first ≠ b.rank first :=
              fun h => hsame (Move.rank_injective first h).symm
            exact Or.inr (.rel (lt_of_le_of_ne (rank_nextMove_le hb) hne))
  | case2 j =>
      rw [walk_zero_left]
      refine ⟨.leftEnd j, ?_⟩
      intro v hv
      cases hv <;> exact Or.inl rfl
  | case3 i =>
      rw [walk_zero_right]
      refine ⟨.rightEnd _, ?_⟩
      intro v hv
      cases hv
      exact Or.inl rfl

theorem IsFirst.eq_walk (hε : 0 < ε) {n m : ℕ} {u : List Move} (h : IsFirst ρ w ε first n m u) :
    u = walk ρ w ε first n m := by
  have hwalk : IsFirst ρ w ε first n m (walk ρ w ε first n m) := isFirst_walk hε n m
  rcases hwalk.2 u h.1 with heq | hlex
  · exact heq
  · rcases h.2 _ hwalk.1 with heq | hlex'
    · exact heq.symm
    · exact absurd hlex' (asymm hlex)

end Walk

/-- A lossless word whose pairs all lie before a cell found nothing beyond it. -/
theorem Lossless.best_le_of_within {ρ : Rounding K} {w : Weights K} {ε : K} {cell : ℕ × ℕ}
    {u : List Move} (h : Lossless ρ w ε cell u) {i j : ℕ}
    (hwithin : ∀ p ∈ pairsOf cell.1 cell.2 u, p.1 < i ∧ p.2 < j) :
    best ρ w cell.1 cell.2 ≤ best ρ w i j := by
  induction h with
  | leftEnd b => simpa using best_mono ρ w i.zero_le j.zero_le
  | rightEnd a => simpa using best_mono ρ w i.zero_le j.zero_le
  | @move a b move u hmove hu ih =>
      match move with
      | .pair =>
          have hlast := hwithin (a, b) (by simp [pairsOf])
          exact best_mono ρ w hlast.1 hlast.2
      | .skip .left =>
          have hkeeps : best ρ w (a + 1) (b + 1) = best ρ w a (b + 1) := hmove
          exact hkeeps.trans_le (ih fun p hp => hwithin p (by simpa [pairsOf] using hp))
      | .skip .right =>
          have hkeeps : best ρ w (a + 1) (b + 1) = best ρ w (a + 1) b := hmove
          exact hkeeps.trans_le (ih fun p hp => hwithin p (by simpa [pairsOf] using hp))

theorem Lossless.before_of_compatible {ρ : Rounding K} {w : Weights K} {ε : K} {a b i j : ℕ}
    {u : List Move}
    (h : Lossless ρ w ε (a, b) u) (hedge : a ≤ i ∨ b ≤ j)
    (hroom : ∀ p ∈ pairsOf a b u, Compatible p (i, j)) :
    ∀ p ∈ pairsOf a b u, p.1 < i ∧ p.2 < j := by
  intro p hp
  have hlt := (h.increasing.2 p hp).1
  rcases hroom p hp with hbefore | hafter
  · exact hbefore
  · simp only at hafter hlt
    omega

section Passed

variable [IsOrderedAddMonoid K] {ρ : Rounding K} {w : Weights K} {i j : ℕ} {x : K}

theorem keeps_pair_of_best_le {ε : K} (hε : 0 < ε) (hx : w i j = some x) (hnonneg : 0 ≤ x)
    (h : best ρ w (i + 1) (j + 1) ≤ best ρ w i j) : Keeps ρ w ε i j .pair := by
  have hsum : best ρ w i j ≤ ρ (best ρ w i j + x) :=
    ρ.le_of_ge (round_best ρ w i j) (le_add_of_nonneg_right hnonneg)
  have heq : best ρ w (i + 1) (j + 1) = ρ (best ρ w i j + x) :=
    le_antisymm (h.trans hsum) (best_pair_le ρ w hx)
  exact ⟨x, hx, by rw [heq, sub_self, ρ.map_zero, abs_zero]; exact hε⟩

end Passed

def EagerMove (i j : ℕ) (a : Move) : Prop :=
  Keeps ρ w ε i j a ∧ (Keeps ρ w ε i j .pair → a = .pair)

/-- A word of such moves: where both positions can be left out, either one is. -/
inductive Eager : ℕ × ℕ → List Move → Prop
  | leftEnd (j : ℕ) : Eager (0, j) []
  | rightEnd (i : ℕ) : Eager (i, 0) []
  | move {i j : ℕ} {a : Move} {u : List Move} (ha : EagerMove ρ w ε i j a)
      (hu : Eager (remaining i j a) u) : Eager (i + 1, j + 1) (a :: u)

/-- The prefixes that such moves leave of the first `n` and the first `m` positions. -/
inductive Reaches (n m : ℕ) : ℕ × ℕ → Prop
  | all : Reaches n m (n, m)
  | move {i j : ℕ} {a : Move} (h : Reaches n m (i + 1, j + 1)) (ha : EagerMove ρ w ε i j a) :
      Reaches n m (remaining i j a)

/-- Of two positions that are not paired the left one adds nothing, nor do the right ones back to
one it could be paired with. -/
def Forgone (i b : ℕ) : Prop :=
  ¬Keeps ρ w ε i b .pair ∧
    ∃ j < b, (w i j).isSome ∧ best ρ w (i + 1) (b + 1) = best ρ w i j

section Eager

variable {ρ w ε} [IsOrderedAddMonoid K]

theorem eagerMove_nextMove (hε : 0 < ε) (first : Side) (i j : ℕ) :
    EagerMove ρ w ε i j (nextMove ρ w ε first i j) :=
  ⟨keeps_nextMove hε i j, fun hpair => if_pos hpair⟩

theorem eager_walk (hε : 0 < ε) (first : Side) (n m : ℕ) :
    Eager ρ w ε (n, m) (walk ρ w ε first n m) := by
  induction n, m using walk.induct ρ w ε first with
  | case1 i j a ih =>
      rw [walk_succ_succ]
      exact .move (eagerMove_nextMove hε first i j) ih
  | case2 j =>
      rw [walk_zero_left]
      exact .leftEnd j
  | case3 i =>
      rw [walk_zero_right]
      exact .rightEnd _

omit [IsOrderedAddMonoid K] in
theorem Eager.of_keeps_pair {i j : ℕ} {u : List Move} (h : Eager ρ w ε (i + 1, j + 1) u)
    (hpair : Keeps ρ w ε i j .pair) : ∃ v, Eager ρ w ε (i, j) v ∧ u = .pair :: v := by
  cases h with
  | move ha hu =>
      obtain rfl := ha.2 hpair
      exact ⟨_, hu, rfl⟩

omit [IsOrderedAddMonoid K] in
theorem Reaches.le {n m : ℕ} {cell : ℕ × ℕ} (h : Reaches ρ w ε n m cell) :
    cell.1 ≤ n ∧ cell.2 ≤ m := by
  induction h with
  | all => exact ⟨le_rfl, le_rfl⟩
  | @move i j a _ _ ih =>
      have hle := remaining_le i j a
      exact ⟨hle.1.trans ih.1, hle.2.trans ih.2⟩

omit [IsOrderedAddMonoid K] in
/-- Where the last two positions can be paired nothing else is done with them. -/
theorem Reaches.of_keeps_pair {i j : ℕ} {cell : ℕ × ℕ} (h : Reaches ρ w ε (i + 1) (j + 1) cell)
    (hpair : Keeps ρ w ε i j .pair) : cell = (i + 1, j + 1) ∨ Reaches ρ w ε i j cell := by
  induction h with
  | all => exact Or.inl rfl
  | @move a b move _ ha ih =>
      rcases ih with heq | hrest
      · obtain ⟨rfl, rfl⟩ : a = i ∧ b = j := by simpa using heq
        obtain rfl := ha.2 hpair
        exact Or.inr .all
      · exact Or.inr (hrest.move ha)

/-- Where the walk leaves an admissible pair that is compatible with all of its pairs, it leaves
out a left position that could have been paired at no loss. -/
theorem exists_forgone (hε : 0 < ε) {n m a b i j : ℕ} {x : K} (hreach : Reaches ρ w ε n m (a, b))
    (hi : i < a) (hj : j < b) (hx : w i j = some x) (hnonneg : 0 ≤ x)
    (hroom : ∀ p ∈ pairsOf a b (walk ρ w ε .left a b), Compatible p (i, j)) :
    ∃ b', Reaches ρ w ε n m (i + 1, b' + 1) ∧ Forgone ρ w ε i b' := by
  induction a, b using walk.induct ρ w ε .left with
  | case1 a b move ih =>
      have hmove := eagerMove_nextMove (ρ := ρ) (w := w) hε .left a b
      have hrest : Lossless ρ w ε (remaining a b (nextMove ρ w ε .left a b))
          (walk ρ w ε .left (remaining a b (nextMove ρ w ε .left a b)).1
            (remaining a b (nextMove ρ w ε .left a b)).2) := (isFirst_walk hε _ _).1
      have hnext := hreach.move hmove
      rw [walk_succ_succ, pairsOf] at hroom
      simp only [move] at ih
      cases hcase : nextMove ρ w ε .left a b with
      | pair =>
          rw [hcase] at hroom ih hnext
          simp only [remaining, if_true, List.mem_append, List.mem_singleton] at hroom ih hnext
          have hlast : i < a ∧ j < b := by
            rcases hroom (a, b) (Or.inr rfl) with h | h
            · simp only at h
              omega
            · exact h
          exact ih hnext hlast.1 hlast.2 fun p hp => hroom p (Or.inl hp)
      | skip side =>
          rw [hcase] at hroom ih hmove hrest hnext
          simp only [reduceCtorEq, if_false, List.append_nil] at hroom
          cases side with
          | left =>
              simp only [remaining] at hrest hroom ih hnext
              have hbest : best ρ w (a + 1) (b + 1) = best ρ w a (b + 1) := hmove.1
              by_cases hia : i < a
              · exact ih hnext hia hj hroom
              · -- everything the walk pairs lies before this pair, so the totals there are equal
                obtain rfl : i = a := by omega
                have hbefore := hrest.before_of_compatible (Or.inl le_rfl) hroom
                have hle : best ρ w (i + 1) (b + 1) ≤ best ρ w i j :=
                  hbest.trans_le (hrest.best_le_of_within hbefore)
                have hunpaired : ¬Keeps ρ w ε i b .pair := fun hpair => by cases hmove.2 hpair
                have hne : j ≠ b := by
                  rintro rfl
                  exact hunpaired (keeps_pair_of_best_le hε hx hnonneg hle)
                refine ⟨b, hreach, hunpaired, j, by omega, by rw [hx]; rfl, ?_⟩
                exact le_antisymm hle (best_mono ρ w i.le_succ (by omega))
          | right =>
              simp only [remaining] at hrest hroom ih hnext
              have hbest : best ρ w (a + 1) (b + 1) = best ρ w (a + 1) b := hmove.1
              have hlast : j < b := by
                by_contra hjb
                -- else leaving out the left position would have lost nothing either
                obtain rfl : j = b := by omega
                have hle : best ρ w (a + 1) j ≤ best ρ w i j :=
                  hrest.best_le_of_within (hrest.before_of_compatible (Or.inr le_rfl) hroom)
                have hskip : Keeps ρ w ε a j (.skip .left) :=
                  le_antisymm ((hbest.trans_le hle).trans (best_mono ρ w (by omega) j.le_succ))
                    (best_skipLeft_le ρ w a j)
                exact not_keeps_of_rank_lt (by rw [hcase]; decide) hskip
              exact ih hnext hi hlast hroom
  | case2 b => exact absurd hi i.not_lt_zero
  | case3 a => exact absurd hj j.not_lt_zero

end Eager

theorem keeps_transpose (i j : ℕ) (a : Move) :
    Keeps ρ w.transpose ε j i a.swap ↔ Keeps ρ w ε i j a := by
  match a with
  | .pair => simp only [Move.swap, Keeps, best_transpose, Weights.transpose]
  | .skip .left => simp only [Move.swap, Side.other, Keeps, best_transpose]
  | .skip .right => simp only [Move.swap, Side.other, Keeps, best_transpose]

theorem remaining_swap (i j : ℕ) (a : Move) :
    remaining j i a.swap = (remaining i j a).swap := by
  rcases a with _ | _ | _ <;> rfl

theorem Side.other_other (side : Side) : side.other.other = side := by
  cases side <;> rfl

theorem nextMove_transpose (first : Side) (i j : ℕ) :
    nextMove ρ w.transpose ε first j i = (nextMove ρ w ε first.other i j).swap := by
  have hpair := keeps_transpose ρ w ε i j .pair
  have hskip := keeps_transpose ρ w ε i j (.skip first.other)
  simp only [Move.swap, Side.other_other] at hpair hskip
  simp only [nextMove, hpair, hskip, Side.other_other]
  split_ifs <;> simp [Move.swap, Side.other_other]

theorem walk_transpose (first : Side) (n m : ℕ) :
    walk ρ w.transpose ε first m n = (walk ρ w ε first.other n m).map Move.swap := by
  induction n, m using walk.induct ρ w ε first.other with
  | case1 i j a ih =>
      rw [walk_succ_succ, walk_succ_succ, List.map_cons, nextMove_transpose, remaining_swap,
        ← ih]
      rfl
  | case2 j => rw [walk_zero_left, walk_zero_right, List.map_nil]
  | case3 i => rw [walk_zero_left, walk_zero_right, List.map_nil]

theorem count_pair_map_swap (u : List Move) : (u.map Move.swap).count .pair = u.count .pair := by
  induction u with
  | nil => rfl
  | cons a u ih =>
      rcases a with _ | _ | _ <;> simp [Move.swap, ih]

end Alignment
