import Mathlib.Data.List.Sort
import Mathlib.Order.Basic

/-!
# Overlapping spans

Spans have a first and a last point and are not empty; two overlap if each begins before the
other ends. In a list sorted by first points two of them overlap only if two neighbours do.
-/

namespace Spans

variable {α ι : Type*} [LinearOrder ι] (first last : α → ι)

def Overlap (a b : α) : Prop := first a < last b ∧ first b < last a

theorem Overlap.symm {a b : α} (h : Overlap first last a b) : Overlap first last b a := ⟨h.2, h.1⟩

def neighbours (l : List α) : List (α × α) := l.zip l.tail

theorem forall_neighbours_iff {R : α → α → Prop} {l : List α} :
    (∀ p ∈ neighbours l, R p.1 p.2) ↔ l.IsChain R := by
  induction l with
  | nil => simp [neighbours]
  | cons a l ih =>
      cases l with
      | nil => simp [neighbours]
      | cons b l =>
          rw [List.isChain_cons_cons, ← ih]
          simp [neighbours]

theorem not_pairwise_iff {R : α → α → Prop} (hsymm : ∀ a b, R a b → R b a) {l : List α} :
    ¬l.Pairwise (fun a b => ¬R a b) ↔
      ∃ (i j : ℕ) (a b : α), i ≠ j ∧ l[i]? = some a ∧ l[j]? = some b ∧ R a b := by
  rw [List.pairwise_iff_getElem]
  constructor
  · intro h
    push Not at h
    obtain ⟨i, j, hi, hj, hlt, hrelated⟩ := h
    exact ⟨i, j, _, _, hlt.ne, List.getElem?_eq_getElem hi, List.getElem?_eq_getElem hj, hrelated⟩
  · rintro ⟨i, j, a, b, hne, ha, hb, hrelated⟩ h
    obtain ⟨hi, rfl⟩ := List.getElem?_eq_some_iff.1 ha
    obtain ⟨hj, rfl⟩ := List.getElem?_eq_some_iff.1 hb
    rcases lt_or_gt_of_ne hne with hlt | hlt
    · exact h i j hi hj hlt hrelated
    · exact h j i hj hi hlt (hsymm _ _ hrelated)

variable {first last}

theorem pairwise_of_neighbours (hpos : ∀ a, first a < last a) {l : List α}
    (hsorted : l.Pairwise fun a b => first a ≤ first b)
    (h : ∀ p ∈ neighbours l, ¬Overlap first last p.1 p.2) :
    l.Pairwise fun a b => ¬Overlap first last a b := by
  have hchain : l.IsChain fun a b => last a ≤ first b := by
    have hboth : l.IsChain fun a b => first a ≤ first b ∧ ¬Overlap first last a b := by
      apply forall_neighbours_iff.1
      exact fun p hp => ⟨forall_neighbours_iff.2 hsorted.isChain p hp, h p hp⟩
    apply hboth.imp
    rintro a b ⟨hle, hdisjoint⟩
    by_contra hlt
    exact hdisjoint ⟨hle.trans_lt (hpos b), not_le.1 hlt⟩
  have htrans : Trans (fun a b => last a ≤ first b) (fun a b => last a ≤ first b)
      (fun a b : α => last a ≤ first b) := ⟨fun hab hbc => hab.trans ((hpos _).le.trans hbc)⟩
  exact (List.isChain_iff_pairwise.1 hchain).imp fun hle hoverlap =>
    absurd hoverlap.2 (not_lt.2 hle)

theorem exists_neighbours_iff (hpos : ∀ a, first a < last a) {l : List α}
    (hsorted : l.Pairwise fun a b => first a ≤ first b) :
    (∃ p ∈ neighbours l, Overlap first last p.1 p.2) ↔
      ¬l.Pairwise fun a b => ¬Overlap first last a b := by
  constructor
  · rintro ⟨p, hp, hoverlap⟩ h
    exact forall_neighbours_iff.2 h.isChain p hp hoverlap
  · intro h
    by_contra hnone
    push Not at hnone
    exact h (pairwise_of_neighbours hpos hsorted hnone)

/-- Whether two elements overlap does not depend on the order of the list. -/
theorem exists_neighbours_iff_of_perm (hpos : ∀ a, first a < last a) {l l' : List α}
    (hperm : l'.Perm l) (hsorted : l'.Pairwise fun a b => first a ≤ first b) :
    (∃ p ∈ neighbours l', Overlap first last p.1 p.2) ↔
      ∃ (i j : ℕ) (a b : α), i ≠ j ∧ l[i]? = some a ∧ l[j]? = some b ∧ Overlap first last a b := by
  rw [exists_neighbours_iff hpos hsorted, ← not_pairwise_iff fun _ _ => Overlap.symm first last,
    hperm.pairwise_iff fun {_ _} h hoverlap => h hoverlap.symm]

end Spans
