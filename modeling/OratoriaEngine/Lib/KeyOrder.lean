import Mathlib.Data.List.ProdSigma
import Mathlib.Data.List.Sort
import Mathlib.Data.Prod.Lex
import Mathlib.Order.Lattice

/-!
# Sorting by a key

A list sorted by a key is a sequence of keys that does not depend on the order the list was in,
whatever else its elements carry.
-/

namespace KeyOrder

variable {α κ : Type*} [LinearOrder κ] {f : α → κ} {r : α → α → Prop} [DecidableRel r]

theorem pairwise_insertionSort (hr : ∀ a b, r a b ↔ f a ≤ f b) (l : List α) :
    (l.insertionSort r).Pairwise fun a b => f a ≤ f b := by
  have total : Std.Total r := ⟨fun a b => by rw [hr, hr]; exact le_total _ _⟩
  have trans : IsTrans α r := ⟨fun a b c => by rw [hr, hr, hr]; exact le_trans⟩
  exact (List.pairwise_insertionSort r l).imp fun h => (hr _ _).1 h

theorem map_key_insertionSort (hr : ∀ a b, r a b ↔ f a ≤ f b) {l l' : List α}
    (h : l'.Perm l) : (l'.insertionSort r).map f = (l.insertionSort r).map f := by
  have hperm : (l'.insertionSort r).Perm (l.insertionSort r) :=
    ((List.perm_insertionSort _ l').trans h).trans (List.perm_insertionSort _ l).symm
  exact (hperm.map f).eq_of_pairwise' (List.pairwise_map.2 (pairwise_insertionSort hr l'))
    (List.pairwise_map.2 (pairwise_insertionSort hr l))

variable {β γ δ μ : Type*} [LinearOrder μ] {g : β → μ}

theorem map_product (p : α → γ) (q : β → δ) (l : List α) (k : List β) :
    (l ×ˢ k).map (Prod.map p q) = l.map p ×ˢ k.map q := by
  induction l with
  | nil => rfl
  | cons a l ih => simp [ih, Function.comp_def]

/-- The pairs of two sorted lists come in the order of the first f and then of the second, if no
two elements share a first key. -/
theorem pairwise_product {l : List α} {k : List β} (hl : l.Pairwise fun a b => f a < f b)
    (hk : k.Pairwise fun a b => g a ≤ g b) :
    (l ×ˢ k).Pairwise fun p q => toLex (f p.1, g p.2) ≤ toLex (f q.1, g q.2) := by
  induction l with
  | nil => exact List.Pairwise.nil
  | cons a l ih =>
      obtain ⟨ha, hl⟩ := List.pairwise_cons.1 hl
      rw [List.product_cons, List.pairwise_append]
      refine ⟨?_, ih hl, ?_⟩
      · refine List.pairwise_map.2 (hk.imp fun {b b'} hle => ?_)
        exact Prod.Lex.toLex_le_toLex.2 (Or.inr ⟨rfl, hle⟩)
      · intro p hp q hq
        obtain ⟨b, -, rfl⟩ := List.mem_map.1 hp
        exact Prod.Lex.toLex_le_toLex.2 (Or.inl (ha q.1 (List.mem_product.1 hq).1))

end KeyOrder
