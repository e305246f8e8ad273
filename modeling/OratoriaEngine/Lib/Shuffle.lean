import Mathlib.Algebra.Order.Group.Nat
import Mathlib.Data.List.Basic
import Mathlib.Data.List.Nodup
import Mathlib.Data.List.Perm.Basic
import Mathlib.Logic.Equiv.Basic

/-!
# Colours shuffled among equal keys

Positions carry a key, which stays, and a colour, which is given out anew among the positions
of one key. Of two sequences whose positions are paired, the pairs of colours are the same after
every shuffle exactly when a key of several colours is paired throughout with one colour, or not
at all, and its partners are not of such a key themselves.
-/

namespace Shuffle

variable {κ ι ρ σ : Type*}

/-- The positions below `n` have the same keys and, for each key, the same colours. -/
def Shuffled (n : ℕ) (k : ℕ → κ) (r r' : ℕ → ρ) : Prop :=
  ((List.range n).map fun i => (k i, r i)).Perm ((List.range n).map fun i => (k i, r' i))

def Mixed (n : ℕ) (k : ℕ → κ) (r : ℕ → ρ) (i : ℕ) : Prop := ∃ i' < n, k i' = k i ∧ r i' ≠ r i

theorem exists_eq_map_of_perm {f : κ → ρ} {l : List κ} {m : List ρ} (h : m.Perm (l.map f)) :
    ∃ l' : List κ, m = l'.map f ∧ l'.Perm l := by
  have hcomp : Relation.Comp (fun m l' => m = List.map f l') List.Perm m l := by
    rw [List.eq_map_comp_perm]
    exact h
  exact hcomp

theorem exists_rows_of_forall₂ {r : ρ → σ → Prop} {f : κ → ρ} {l : List κ} {m : List ρ}
    {k : List σ} (hperm : m.Perm (l.map f)) (h : List.Forall₂ r m k) :
    ∃ rows : List (κ × σ), (rows.map Prod.fst).Perm l ∧ rows.map Prod.snd = k ∧
      ∀ row ∈ rows, r (f row.1) row.2 := by
  obtain ⟨l', rfl, hl'⟩ := exists_eq_map_of_perm hperm
  have hforall := List.forall₂_map_left_iff.1 h
  have hlength := hforall.length_eq
  refine ⟨l'.zip k, ?_, List.map_snd_zip hlength.ge, ?_⟩
  · rwa [List.map_fst_zip hlength.le]
  · intro row hrow
    exact (List.forall₂_iff_zip.1 hforall).2 hrow

section Shuffled

variable {n : ℕ} {k : ℕ → κ} {r r' : ℕ → ρ}

theorem Shuffled.countP (h : Shuffled n k r r') (p : κ → ρ → Bool) :
    ((List.range n).countP fun i => p (k i) (r i)) =
      (List.range n).countP fun i => p (k i) (r' i) := by
  have hcount := h.countP_eq fun e => p e.1 e.2
  rwa [List.countP_map, List.countP_map] at hcount

theorem Shuffled.exists_eq (h : Shuffled n k r r') {i : ℕ} (hi : i < n) :
    ∃ i' < n, k i' = k i ∧ r i' = r' i := by
  have hmem : (k i, r' i) ∈ (List.range n).map fun i => (k i, r i) :=
    h.mem_iff.2 (List.mem_map_of_mem (f := fun i => (k i, r' i)) (List.mem_range.2 hi))
  obtain ⟨i', hi', heq⟩ := List.mem_map.1 hmem
  exact ⟨i', List.mem_range.1 hi', congrArg Prod.fst heq, congrArg Prod.snd heq⟩

theorem Shuffled.eq_of_not_mixed (h : Shuffled n k r r') {i : ℕ} (hi : i < n)
    (hmixed : ¬Mixed n k r i) : r' i = r i := by
  obtain ⟨i', hi', hkey, hcolour⟩ := h.exists_eq hi
  by_contra hne
  exact hmixed ⟨i', hi', hkey, hcolour ▸ hne⟩

theorem Mixed.of_key_eq {i i' : ℕ} (h : Mixed n k r i) (hi : i < n) (hkey : k i' = k i) :
    Mixed n k r i' := by
  obtain ⟨j, hj, hjkey, hne⟩ := h
  by_cases hcolour : r j = r i'
  · exact ⟨i, hi, hkey.symm, fun heq => hne (hcolour.trans heq.symm)⟩
  · exact ⟨j, hj, hjkey.trans hkey.symm, hcolour⟩

theorem Shuffled.refl (n : ℕ) (k : ℕ → κ) (r : ℕ → ρ) : Shuffled n k r r := List.Perm.refl _

theorem shuffled_swap {i i' : ℕ} (hi : i < n) (hi' : i' < n) (hkey : k i' = k i) :
    Shuffled n k r (r ∘ Equiv.swap i i') := by
  have hmem : ∀ j, Equiv.swap i i' j < n ↔ j < n := by
    intro j
    rw [Equiv.swap_apply_def]
    split_ifs <;> omega
  have hrange : ((List.range n).map (Equiv.swap i i')).Perm (List.range n) := by
    apply (List.perm_ext_iff_of_nodup ?_ List.nodup_range).2
    · intro j
      rw [List.mem_range, ← hmem, List.mem_map]
      constructor
      · rintro ⟨a, ha, rfl⟩
        rw [Equiv.swap_apply_self]
        exact List.mem_range.1 ha
      · intro hj
        exact ⟨_, List.mem_range.2 hj, Equiv.swap_apply_self i i' j⟩
    · exact List.Nodup.map (Equiv.injective _) List.nodup_range
  have hkeys : ∀ j, k (Equiv.swap i i' j) = k j := by
    intro j
    rw [Equiv.swap_apply_def]
    split_ifs with h h'
    · rw [h, hkey]
    · rw [h', hkey]
    · rfl
  have hmap := (hrange.map fun j => (k j, r j)).symm
  rw [List.map_map] at hmap
  refine hmap.trans (List.Perm.of_eq ?_)
  apply List.map_congr_left
  intro j _
  exact Prod.ext (hkeys j) rfl

end Shuffled

section OneSide

variable {n : ℕ} {k : ℕ → κ} {r : ℕ → ρ} {s : ℕ → σ} {pairs : List (ℕ × ℕ)}

/-- At a key of several colours that is paired at all, every position is paired, and all of them
with one colour. -/
def Served (n : ℕ) (k : ℕ → κ) (r : ℕ → ρ) (s : ℕ → σ) (pairs : List (ℕ × ℕ)) : Prop :=
  ∀ p ∈ pairs, Mixed n k r p.1 → ∀ i < n, k i = k p.1 → ∃ j, (i, j) ∈ pairs ∧ s j = s p.2

/-- A position of another colour at the key is paired with the same colour, or the exchange of
the two colours would be seen. -/
theorem exists_partner (hin : ∀ p ∈ pairs, p.1 < n)
    (h : ∀ r', Shuffled n k r r' →
      (pairs.map fun p => (r p.1, s p.2)).Perm (pairs.map fun p => (r' p.1, s p.2)))
    {p : ℕ × ℕ} (hp : p ∈ pairs) {i : ℕ} (hi : i < n) (hkey : k i = k p.1) (hne : r i ≠ r p.1) :
    ∃ j, (i, j) ∈ pairs ∧ s j = s p.2 := by
  classical
  by_contra hnone
  have hperm := h _ (shuffled_swap (r := r) (hin p hp) hi hkey)
  have hcount := hperm.countP_eq fun e => e = (r p.1, s p.2)
  rw [List.countP_map, List.countP_map] at hcount
  have hlt : pairs.countP (fun q => decide ((r (Equiv.swap p.1 i q.1), s q.2) = (r p.1, s p.2))) <
      pairs.countP fun q => decide ((r q.1, s q.2) = (r p.1, s p.2)) := by
    have hpassed : pairs.countP
        (fun q => decide ((r (Equiv.swap p.1 i q.1), s q.2) = (r p.1, s p.2))) ≤
        (pairs.erase p).countP fun q => decide ((r q.1, s q.2) = (r p.1, s p.2)) := by
      rw [(List.perm_cons_erase hp).countP_eq]
      have hself : (r (Equiv.swap p.1 i p.1), s p.2) ≠ (r p.1, s p.2) := by
        rw [Equiv.swap_apply_left]
        exact fun heq => hne (congrArg Prod.fst heq)
      rw [List.countP_cons_of_neg (by simpa using hself)]
      apply List.countP_mono_left
      intro q hq
      simp only [decide_eq_true_eq, Prod.mk.injEq]
      rintro ⟨hleft, hright⟩
      refine ⟨?_, hright⟩
      rw [Equiv.swap_apply_def] at hleft
      split_ifs at hleft with hfirst hsecond
      · exact absurd hleft hne
      · exact absurd ⟨q.2, hsecond ▸ List.mem_of_mem_erase hq, hright⟩ hnone
      · exact hleft
    have hcounted : pairs.countP (fun q => decide ((r q.1, s q.2) = (r p.1, s p.2))) =
        (pairs.erase p).countP (fun q => decide ((r q.1, s q.2) = (r p.1, s p.2))) + 1 := by
      rw [(List.perm_cons_erase hp).countP_eq, List.countP_cons_of_pos (by simp)]
    omega
  exact hlt.ne' hcount

open Classical in
/-- Pairs of a key of several colours are counted by position: all positions of the keys that are
paired with the colour `y`. -/
theorem countP_mixed (hin : ∀ p ∈ pairs, p.1 < n) (hfirst : (pairs.map Prod.fst).Nodup)
    (hserved : Served n k r s pairs) (r' : ℕ → ρ) (x : ρ) (y : σ) :
    (pairs.countP fun p => Mixed n k r p.1 ∧ r' p.1 = x ∧ s p.2 = y) =
      (List.range n).countP fun i =>
        (∃ p ∈ pairs, k p.1 = k i ∧ Mixed n k r p.1 ∧ s p.2 = y) ∧ r' i = x := by
  rw [List.countP_eq_length_filter, List.countP_eq_length_filter,
    ← List.length_map (f := Prod.fst)]
  apply List.Perm.length_eq
  apply (List.perm_ext_iff_of_nodup ?_ (List.nodup_range.filter _)).2
  · intro i
    simp only [List.mem_map, List.mem_filter, List.mem_range, decide_eq_true_eq]
    constructor
    · rintro ⟨p, ⟨hp, hmixed, hx, hy⟩, rfl⟩
      exact ⟨hin p hp, ⟨p, hp, rfl, hmixed, hy⟩, hx⟩
    · rintro ⟨hi, ⟨p, hp, hkey, hmixed, hy⟩, hx⟩
      obtain ⟨j, hj, hcolour⟩ := hserved p hp hmixed i hi hkey.symm
      exact ⟨(i, j), ⟨hj, hmixed.of_key_eq (hin p hp) hkey.symm, hx, hcolour.trans hy⟩, rfl⟩
  · exact hfirst.sublist (List.filter_sublist.map _)

/-- The pairs of colours are the same after every shuffle of one side exactly when its keys of
several colours are served. -/
theorem perm_of_shuffled_iff (hin : ∀ p ∈ pairs, p.1 < n) (hfirst : (pairs.map Prod.fst).Nodup) :
    (∀ r', Shuffled n k r r' →
      (pairs.map fun p => (r p.1, s p.2)).Perm (pairs.map fun p => (r' p.1, s p.2))) ↔
      Served n k r s pairs := by
  constructor
  · intro h p hp hmixed i hi hkey
    by_cases hcolour : r i = r p.1
    · obtain ⟨i', hi', hkey', hne⟩ := hmixed
      obtain ⟨j', hj', hy'⟩ := exists_partner hin h hp hi' hkey' hne
      obtain ⟨j, hj, hy⟩ := exists_partner hin h hj' hi (hkey.trans hkey'.symm)
        (fun heq => hne (heq.symm.trans hcolour))
      exact ⟨j, hj, hy.trans hy'⟩
    · exact exists_partner hin h hp hi hkey hcolour
  · intro hserved r' hshuffled
    classical
    apply List.perm_iff_count.2
    rintro ⟨x, y⟩
    have hsplit : ∀ c : ℕ → ρ, (pairs.map fun p => (c p.1, s p.2)).count (x, y) =
        (pairs.countP fun p => Mixed n k r p.1 ∧ c p.1 = x ∧ s p.2 = y) +
          pairs.countP fun p => ¬Mixed n k r p.1 ∧ c p.1 = x ∧ s p.2 = y := by
      intro c
      rw [List.count, List.countP_map,
        List.countP_eq_countP_filter_add pairs _ fun p => Mixed n k r p.1,
        List.countP_filter, List.countP_filter]
      congr 1 <;>
      · apply List.countP_congr
        intro p _
        simp [and_comm]
    rw [hsplit, hsplit, countP_mixed hin hfirst hserved, countP_mixed hin hfirst hserved,
      hshuffled.countP fun c z => (∃ p ∈ pairs, k p.1 = c ∧ Mixed n k r p.1 ∧ s p.2 = y) ∧ z = x]
    congr 1
    apply List.countP_congr
    intro p hp
    simp only [decide_eq_true_eq]
    constructor
    · rintro ⟨hmixed, hx, hy⟩
      exact ⟨hmixed, (hshuffled.eq_of_not_mixed (hin p hp) hmixed).trans hx, hy⟩
    · rintro ⟨hmixed, hx, hy⟩
      exact ⟨hmixed, (hshuffled.eq_of_not_mixed (hin p hp) hmixed).symm.trans hx, hy⟩

end OneSide

section BothSides

variable {n m : ℕ} {k : ℕ → κ} {l : ℕ → ι} {r : ℕ → ρ} {s : ℕ → σ} {pairs : List (ℕ × ℕ)}

/-- Keys of several colours are served on both sides, and never paired with one another. -/
structure Settled (n m : ℕ) (k : ℕ → κ) (l : ℕ → ι) (r : ℕ → ρ) (s : ℕ → σ)
    (pairs : List (ℕ × ℕ)) : Prop where
  left : Served n k r s pairs
  right : Served m l s r (pairs.map Prod.swap)
  apart : ∀ p ∈ pairs, Mixed n k r p.1 → ¬Mixed m l s p.2

theorem settled_of_not_mixed (hleft : ∀ p ∈ pairs, ¬Mixed n k r p.1)
    (hright : ∀ p ∈ pairs, ¬Mixed m l s p.2) : Settled n m k l r s pairs where
  left := fun p hp hmixed => absurd hmixed (hleft p hp)
  right := by
    intro q hq hmixed
    obtain ⟨p, hp, rfl⟩ := List.mem_map.1 hq
    exact absurd hmixed (hright p hp)
  apart := fun p hp hmixed => absurd hmixed (hleft p hp)

theorem eq_of_fst_eq (hfirst : (pairs.map Prod.fst).Nodup) {p q : ℕ × ℕ} (hp : p ∈ pairs)
    (hq : q ∈ pairs) (h : p.1 = q.1) : p = q := List.inj_on_of_nodup_map hfirst hp hq h

theorem map_swap_perm {r' : ℕ → ρ} {s' : ℕ → σ}
    (h : (pairs.map fun p => (r p.1, s p.2)).Perm (pairs.map fun p => (r' p.1, s' p.2))) :
    ((pairs.map Prod.swap).map fun p => (s p.1, r p.2)).Perm
      ((pairs.map Prod.swap).map fun p => (s' p.1, r' p.2)) := by
  have hswap := h.map Prod.swap
  rw [List.map_map, List.map_map] at hswap ⊢
  exact hswap

/-- Two paired positions with several colours at both keys: exchanging colours on one side takes
away what the other side needs. -/
theorem apart_of_forall_perm (hin : ∀ p ∈ pairs, p.1 < n ∧ p.2 < m)
    (hfirst : (pairs.map Prod.fst).Nodup) (hsecond : (pairs.map Prod.snd).Nodup)
    (h : ∀ r' s', Shuffled n k r r' → Shuffled m l s s' →
      (pairs.map fun p => (r p.1, s p.2)).Perm (pairs.map fun p => (r' p.1, s' p.2)))
    {p : ℕ × ℕ} (hp : p ∈ pairs) (hleft : Mixed n k r p.1) : ¬Mixed m l s p.2 := by
  rintro ⟨j, hj, hjkey, hjne⟩
  have hserved : ∀ s', Shuffled m l s s' → Served n k r s' pairs := by
    intro s' hs'
    apply (perm_of_shuffled_iff (fun q hq => (hin q hq).1) hfirst).1
    intro r' hr'
    exact (h r s' (Shuffled.refl n k r) hs').symm.trans (h r' s' hr' hs')
  have hexchanged := hserved _ (shuffled_swap (r := s) (hin p hp).2 hj hjkey)
  obtain ⟨i, hi, hikey, hine⟩ := hleft
  obtain ⟨j₂, hj₂, hcolour⟩ := hserved s (Shuffled.refl m l s) p hp ⟨i, hi, hikey, hine⟩ i hi hikey
  obtain ⟨j₃, hj₃, hcolour'⟩ := hexchanged p hp ⟨i, hi, hikey, hine⟩ i hi hikey
  obtain rfl : j₂ = j₃ := congrArg Prod.snd (eq_of_fst_eq hfirst hj₂ hj₃ rfl)
  have hother : j₂ ≠ p.2 := by
    rintro rfl
    have heq := List.inj_on_of_nodup_map hsecond hj₂ hp rfl
    exact hine (congrArg (fun q => r q.1) heq)
  simp only [Function.comp_apply, Equiv.swap_apply_left] at hcolour'
  by_cases hsame : j₂ = j
  · exact hjne (hsame ▸ hcolour)
  · rw [Equiv.swap_apply_of_ne_of_ne hother hsame] at hcolour'
    exact hjne (hcolour'.symm.trans hcolour)

theorem perm_of_shuffled_both_iff (hin : ∀ p ∈ pairs, p.1 < n ∧ p.2 < m)
    (hfirst : (pairs.map Prod.fst).Nodup) (hsecond : (pairs.map Prod.snd).Nodup) :
    (∀ r' s', Shuffled n k r r' → Shuffled m l s s' →
      (pairs.map fun p => (r p.1, s p.2)).Perm (pairs.map fun p => (r' p.1, s' p.2))) ↔
      Settled n m k l r s pairs := by
  have hin' : ∀ q ∈ pairs.map Prod.swap, q.1 < m := by
    intro q hq
    obtain ⟨p, hp, rfl⟩ := List.mem_map.1 hq
    exact (hin p hp).2
  have hsecond' : ((pairs.map Prod.swap).map Prod.fst).Nodup := by
    rw [List.map_map]
    exact hsecond
  constructor
  · intro h
    refine ⟨?_, ?_, fun p hp => apart_of_forall_perm hin hfirst hsecond h hp⟩
    · apply (perm_of_shuffled_iff (fun p hp => (hin p hp).1) hfirst).1
      exact fun r' hr' => h r' s hr' (Shuffled.refl m l s)
    · apply (perm_of_shuffled_iff hin' hsecond').1
      exact fun s' hs' => map_swap_perm (h r s' (Shuffled.refl n k r) hs')
  · intro h r' s' hr' hs'
    have hleft := (perm_of_shuffled_iff (fun p hp => (hin p hp).1) hfirst).2 h.left r' hr'
    -- the partners of a mixed right key keep their colour under the shuffle of the left
    have hright : Served m l s r' (pairs.map Prod.swap) := by
      intro q hq hmixed j hj hkey
      obtain ⟨i, hi, hcolour⟩ := h.right q hq hmixed j hj hkey
      obtain ⟨p, hp, rfl⟩ := List.mem_map.1 hq
      obtain ⟨p', hp', heq⟩ := List.mem_map.1 hi
      obtain ⟨rfl, rfl⟩ : p'.2 = j ∧ p'.1 = i := Prod.ext_iff.1 heq
      have hmixed' : Mixed m l s p'.2 := hmixed.of_key_eq (hin p hp).2 hkey
      have hfixed := hr'.eq_of_not_mixed (hin p hp).1 fun hm => h.apart p hp hm hmixed
      have hfixed' := hr'.eq_of_not_mixed (hin p' hp').1 fun hm => h.apart p' hp' hm hmixed'
      refine ⟨p'.1, hi, ?_⟩
      rw [Prod.snd_swap, hfixed, hfixed']
      exact hcolour
    have hback := map_swap_perm ((perm_of_shuffled_iff hin' hsecond').2 hright s' hs')
    have hswap : (pairs.map Prod.swap).map Prod.swap = pairs := by
      rw [List.map_map, Prod.swap_swap_eq, List.map_id]
    rw [hswap] at hback
    exact hleft.trans hback

end BothSides

end Shuffle
