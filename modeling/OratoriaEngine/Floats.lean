import Mathlib.Data.Rat.Defs
import Mathlib.Algebra.Order.Ring.Unbundled.Rat

/-!
# Floating-point values as the runtimes report them

A score is a rational number, an infinity or not a number. Comparisons with a
NaN are false, and `min` and `max` return their first argument unless the second
one compares strictly smaller or larger, so that a NaN in the first place stays.
-/

namespace OratoriaEngine

inductive PyFloat
  | nan
  | negInf
  | fin (q : ℚ)
  | posInf
  deriving DecidableEq, Repr

namespace PyFloat

/-- The comparison `a < b`. -/
def lt : PyFloat → PyFloat → Bool
  | nan, _ => false
  | _, nan => false
  | posInf, _ => false
  | _, negInf => false
  | negInf, _ => true
  | _, posInf => true
  | fin p, fin q => decide (p < q)

/-- The comparison `a <= b`. -/
def le : PyFloat → PyFloat → Bool
  | nan, _ => false
  | _, nan => false
  | negInf, _ => true
  | _, posInf => true
  | posInf, _ => false
  | _, negInf => false
  | fin p, fin q => decide (p ≤ q)

def max (a b : PyFloat) : PyFloat := if lt a b then b else a

def min (a b : PyFloat) : PyFloat := if lt b a then b else a

theorem ne_nan_of_le {a b : PyFloat} (h : a.le b = true) : a ≠ nan ∧ b ≠ nan := by
  constructor
  · rintro rfl
    cases h
  · rintro rfl
    cases a <;> cases h

theorem eq_fin_of_between {v : PyFloat} {p q : ℚ} (hp : (fin p).le v = true)
    (hq : v.le (fin q) = true) : ∃ r, p ≤ r ∧ r ≤ q ∧ v = fin r := by
  cases v with
  | nan | negInf => cases hp
  | posInf => cases hq
  | fin r => exact ⟨r, of_decide_eq_true hp, of_decide_eq_true hq, rfl⟩

/-- `min(max(value, 0.0), 1.0)`. -/
def clampUnit (value : PyFloat) : PyFloat := min (max value (fin 0)) (fin 1)

/-- `min(max(value, low), high)`. -/
def clamp (value : PyFloat) (low high : ℚ) : PyFloat := min (max value (fin low)) (fin high)

section Clamp

variable {low high : ℚ}

theorem clamp_posInf (low high : ℚ) : posInf.clamp low high = fin high := by
  simp [clamp, max, min, lt]

theorem clamp_negInf (h : low ≤ high) : negInf.clamp low high = fin low := by
  simp [clamp, max, min, lt, not_lt.2 h]

theorem clamp_fin (q low high : ℚ) :
    (fin q).clamp low high = fin (Min.min (Max.max q low) high) := by
  have hmax : max (fin q) (fin low) = fin (Max.max q low) := by
    simp only [max, lt, decide_eq_true_eq]
    split_ifs with h
    · rw [max_eq_right h.le]
    · rw [max_eq_left (not_lt.1 h)]
  rw [clamp, hmax]
  simp only [min, lt, decide_eq_true_eq]
  split_ifs with h
  · rw [min_eq_right h.le]
  · rw [min_eq_left (not_lt.1 h)]

/-- Clamping yields a number between the bounds, except that a NaN stays one. -/
theorem clamp_cases (h : low ≤ high) (v : PyFloat) :
    (v = nan ∧ v.clamp low high = nan) ∨
      ∃ q : ℚ, low ≤ q ∧ q ≤ high ∧ v.clamp low high = fin q := by
  cases v with
  | nan => exact Or.inl ⟨rfl, rfl⟩
  | negInf => exact Or.inr ⟨low, le_rfl, h, clamp_negInf h⟩
  | posInf => exact Or.inr ⟨high, h, le_rfl, clamp_posInf low high⟩
  | fin q =>
      exact Or.inr ⟨_, le_min (le_max_right q low) h, min_le_right _ _, clamp_fin q low high⟩

theorem clamp_mono (h : low ≤ high) {v w : PyFloat} (hvw : v.le w = true) {p q : ℚ}
    (hp : v.clamp low high = fin p) (hq : w.clamp low high = fin q) : p ≤ q := by
  have hbetween : ∀ {u : PyFloat} {r : ℚ}, u.clamp low high = fin r → low ≤ r ∧ r ≤ high := by
    intro u r hr
    rcases clamp_cases h u with ⟨-, hnan⟩ | ⟨r', hlow, hhigh, hr'⟩
    · rw [hnan] at hr
      cases hr
    · rw [hr'] at hr
      cases hr
      exact ⟨hlow, hhigh⟩
  cases v with
  | nan => cases hvw
  | negInf =>
      rw [clamp_negInf h] at hp
      cases hp
      exact (hbetween hq).1
  | posInf =>
      cases w with
      | posInf =>
          rw [hp] at hq
          cases hq
          exact le_rfl
      | nan | negInf | fin => cases hvw
  | fin a =>
      cases w with
      | nan | negInf => cases hvw
      | posInf =>
          rw [clamp_posInf] at hq
          cases hq
          exact (hbetween hp).2
      | fin b =>
          rw [clamp_fin] at hp hq
          cases hp
          cases hq
          exact min_le_min_right high (max_le_max_right low (of_decide_eq_true hvw))

end Clamp

/-- Clamping yields a number in the unit interval, except that a NaN stays one. -/
theorem clampUnit_cases (v : PyFloat) :
    (v = nan ∧ clampUnit v = nan) ∨ ∃ q : ℚ, 0 ≤ q ∧ q ≤ 1 ∧ clampUnit v = fin q :=
  clamp_cases zero_le_one v

theorem clampUnit_of_unit {q : ℚ} (h0 : 0 ≤ q) (h1 : q ≤ 1) : (fin q).clampUnit = fin q := by
  change clamp _ 0 1 = _
  rw [clamp_fin, max_eq_left h0, min_eq_left h1]

end PyFloat

end OratoriaEngine
