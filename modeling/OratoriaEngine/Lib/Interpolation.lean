import Mathlib.Algebra.Order.Field.Basic
import Mathlib.Data.List.Pairwise

/-!
# Interpolation through rising points

The value at a position is read off the first segment that brackets it. Along points that rise in
both coordinates it is defined between the first and the last of them, stays between their values
and never falls, across vertical segments too.
-/

namespace Interpolation

variable {K : Type*} [Field K] [LinearOrder K]

/-- The value on the segment from `p` to `q`; a vertical one has the value of its upper end. -/
def onSegment (p q : K × K) (c : K) : K :=
  if q.1 = p.1 then q.2 else p.2 + (c - p.1) / (q.1 - p.1) * (q.2 - p.2)

/-- The value on the first segment that brackets the position. -/
def interpolate : List (K × K) → K → Option K
  | p :: q :: rest, c =>
      if p.1 ≤ c ∧ c ≤ q.1 then some (onSegment p q c) else interpolate (q :: rest) c
  | _, _ => none

theorem interpolate_of_brackets {p q : K × K} {c : K} (rest : List (K × K))
    (h : p.1 ≤ c ∧ c ≤ q.1) : interpolate (p :: q :: rest) c = some (onSegment p q c) :=
  if_pos h

theorem interpolate_of_not_brackets {p q : K × K} {c : K} (rest : List (K × K))
    (h : ¬(p.1 ≤ c ∧ c ≤ q.1)) : interpolate (p :: q :: rest) c = interpolate (q :: rest) c :=
  if_neg h

theorem exists_interpolate_eq {p : K × K} {rest : List (K × K)} {c : K} (hp : p.1 ≤ c)
    (hc : ∃ r ∈ rest, c ≤ r.1) : ∃ y, interpolate (p :: rest) c = some y := by
  induction rest generalizing p with
  | nil =>
      obtain ⟨r, hr, -⟩ := hc
      cases hr
  | cons q rest ih =>
      by_cases hq : c ≤ q.1
      · exact ⟨_, interpolate_of_brackets rest ⟨hp, hq⟩⟩
      · rw [interpolate_of_not_brackets rest fun h => hq h.2]
        apply ih (not_le.1 hq).le
        obtain ⟨r, hr, hcr⟩ := hc
        rcases List.mem_cons.1 hr with rfl | hr
        · exact absurd hcr hq
        · exact ⟨r, hr, hcr⟩

theorem head_le_of_interpolate {p : K × K} {rest : List (K × K)} {c y : K}
    (hsorted : (p :: rest).Pairwise (· ≤ ·)) (h : interpolate (p :: rest) c = some y) :
    p.1 ≤ c := by
  induction rest generalizing p with
  | nil => cases h
  | cons q rest ih =>
      by_cases hbracket : p.1 ≤ c ∧ c ≤ q.1
      · exact hbracket.1
      · rw [interpolate_of_not_brackets rest hbracket] at h
        have hpq : p ≤ q := List.rel_of_pairwise_cons hsorted List.mem_cons_self
        exact (Prod.le_def.1 hpq).1.trans (ih (List.Pairwise.of_cons hsorted) h)

theorem interpolate_induction {P : K → Prop} {points : List (K × K)} {c y : K}
    (hsorted : points.Pairwise (· ≤ ·))
    (hsegment : ∀ p ∈ points, ∀ q ∈ points, p ≤ q → p.1 ≤ c → c ≤ q.1 → P (onSegment p q c))
    (h : interpolate points c = some y) : P y := by
  induction points with
  | nil => cases h
  | cons p points ih =>
      cases points with
      | nil => cases h
      | cons q rest =>
          by_cases hbracket : p.1 ≤ c ∧ c ≤ q.1
          · rw [interpolate_of_brackets rest hbracket] at h
            cases h
            exact hsegment p (by simp) q (by simp)
              (List.rel_of_pairwise_cons hsorted List.mem_cons_self) hbracket.1 hbracket.2
          · rw [interpolate_of_not_brackets rest hbracket] at h
            exact ih (List.Pairwise.of_cons hsorted)
              (fun r hr s hs => hsegment r (List.mem_cons_of_mem _ hr) s
                (List.mem_cons_of_mem _ hs)) h

theorem onSegment_right (p q : K × K) : onSegment p q q.1 = q.2 := by
  unfold onSegment
  split_ifs with h
  · rfl
  · rw [div_self (sub_ne_zero.2 h), one_mul, add_sub_cancel]

variable [IsStrictOrderedRing K]

section Segment

variable {p q : K × K} {c d : K}

theorem onSegment_mono (hpq : p ≤ q) (hcd : c ≤ d) : onSegment p q c ≤ onSegment p q d := by
  obtain ⟨hx, hy⟩ := Prod.le_def.1 hpq
  unfold onSegment
  split_ifs with h
  · exact le_rfl
  · have hwidth : 0 < q.1 - p.1 := sub_pos.2 (lt_of_le_of_ne hx (Ne.symm h))
    have hratio : (c - p.1) / (q.1 - p.1) ≤ (d - p.1) / (q.1 - p.1) :=
      div_le_div_of_nonneg_right (sub_le_sub_right hcd _) hwidth.le
    have hrise := mul_le_mul_of_nonneg_right hratio (sub_nonneg.2 hy)
    exact add_le_add_right hrise p.2

theorem le_onSegment (hpq : p ≤ q) (hc : p.1 ≤ c) : p.2 ≤ onSegment p q c := by
  obtain ⟨hx, hy⟩ := Prod.le_def.1 hpq
  unfold onSegment
  split_ifs
  · exact hy
  · have hratio : 0 ≤ (c - p.1) / (q.1 - p.1) :=
      div_nonneg (sub_nonneg.2 hc) (sub_nonneg.2 hx)
    exact le_add_of_nonneg_right (mul_nonneg hratio (sub_nonneg.2 hy))

theorem onSegment_le (hpq : p ≤ q) (hc : c ≤ q.1) : onSegment p q c ≤ q.2 := by
  have h := onSegment_mono hpq hc
  rwa [onSegment_right] at h

end Segment

section Points

variable {points : List (K × K)} {c d y z : K}

theorem le_interpolate (hsorted : points.Pairwise (· ≤ ·)) (h : interpolate points c = some y)
    {low : K} (hlow : ∀ r ∈ points, low ≤ r.2) : low ≤ y :=
  interpolate_induction (P := (low ≤ ·)) hsorted
    (fun p hp _ _ hpq hc _ => (hlow p hp).trans (le_onSegment hpq hc)) h

theorem interpolate_le (hsorted : points.Pairwise (· ≤ ·)) (h : interpolate points c = some y)
    {high : K} (hhigh : ∀ r ∈ points, r.2 ≤ high) : y ≤ high :=
  interpolate_induction (P := (· ≤ high)) hsorted
    (fun _ _ q hq hpq _ hc => (onSegment_le hpq hc).trans (hhigh q hq)) h

/-- The value never falls. Where the positions lie on different segments, the end of the first
one separates their values. -/
theorem interpolate_mono (hsorted : points.Pairwise (· ≤ ·)) (hcd : c ≤ d)
    (hc : interpolate points c = some y) (hd : interpolate points d = some z) : y ≤ z := by
  induction points with
  | nil => cases hc
  | cons p points ih =>
      cases points with
      | nil => cases hc
      | cons q rest =>
          have hpq : p ≤ q := List.rel_of_pairwise_cons hsorted List.mem_cons_self
          have hrest : (q :: rest).Pairwise (· ≤ ·) := List.Pairwise.of_cons hsorted
          by_cases hfirst : p.1 ≤ c ∧ c ≤ q.1
          · rw [interpolate_of_brackets rest hfirst] at hc
            cases hc
            by_cases hsecond : p.1 ≤ d ∧ d ≤ q.1
            · rw [interpolate_of_brackets rest hsecond] at hd
              cases hd
              exact onSegment_mono hpq hcd
            · rw [interpolate_of_not_brackets rest hsecond] at hd
              have habove : ∀ r ∈ q :: rest, q.2 ≤ r.2 := by
                intro r hr
                rcases List.mem_cons.1 hr with rfl | hr
                · exact le_rfl
                · exact (Prod.le_def.1 (List.rel_of_pairwise_cons hrest hr)).2
              exact (onSegment_le hpq hfirst.2).trans (le_interpolate hrest hd habove)
          · rw [interpolate_of_not_brackets rest hfirst] at hc
            have hright : q.1 ≤ c := head_le_of_interpolate hrest hc
            have hleft : p.1 ≤ c := (Prod.le_def.1 hpq).1.trans hright
            have hsecond : ¬(p.1 ≤ d ∧ d ≤ q.1) := fun h => hfirst ⟨hleft, hcd.trans h.2⟩
            rw [interpolate_of_not_brackets rest hsecond] at hd
            exact ih hrest hc hd

end Points

end Interpolation
