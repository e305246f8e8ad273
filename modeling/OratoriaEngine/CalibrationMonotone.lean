import OratoriaEngine.Calibration
import OratoriaEngine.Lib.Interpolation
import Mathlib.Algebra.Order.Field.Rat
import Mathlib.Data.List.Chain

/-!
# Calibration keeps the order of scores

A curve interpolates through points that rise in both coordinates, at a position between the first
and the last of them. So in exact arithmetic the loop over its segments always returns and never
falls, and a calibrator gives two scores confidences in their order. No arithmetic divides by zero.
-/

namespace OratoriaEngine

open Interpolation

namespace CalibrationCurve

variable {f : FloatFormat}

variable (f) in
/-- The quotient of two values, which is refused at zero. -/
def quotient (a b : PyFloat) : Except Failure PyFloat :=
  if b = .fin 0 then .error (.foreign "ZeroDivisionError" "division by zero") else .ok (f.div a b)

variable (f) in
/-- The loop of `apply` over the segments with its division checked; nothing is returned where it
runs out of segments. -/
def loop : List (PyFloat × ℚ) → PyFloat → Except Failure (Option PyFloat)
  | (x0, y0) :: (x1, y1) :: rest, c =>
      if x0.le c && c.le x1 then
        if x1 = x0 then .ok (some (.fin y1))
        else do
          let ratio ← quotient f (f.sub c x0) (f.sub x1 x0)
          return some (f.add (.fin y0) (f.mul ratio (f.sub (.fin y1) (.fin y0))))
      else loop ((x1, y1) :: rest) c
  | _, _ => .ok none

example : loop .exact [(.fin 0, 0), (.fin (1 / 2), 1 / 4), (.fin (1 / 2), 3 / 4), (.fin 1, 1)]
    (.fin (1 / 2)) = .ok (some (.fin (1 / 4))) := by
  decide +kernel

theorem loop_eq {points : List (PyFloat × ℚ)} (hhas : ∀ p ∈ points, f.Has p.1) (c : PyFloat) :
    loop f points c = .ok (onSegments f points c) := by
  induction points with
  | nil => rfl
  | cons p points ih =>
      cases points with
      | nil => rfl
      | cons q rest =>
          rw [List.forall_mem_cons] at hhas
          rw [loop, onSegments, ih hhas.2, brackets]
          split_ifs with hbracket hvertical
          · rw [onSegment, if_pos hvertical]
          · have hwidth := f.sub_ne_zero (hhas.2 q List.mem_cons_self) hhas.1 hvertical
            rw [quotient, if_neg hwidth, onSegment, if_neg hvertical]
            rfl
          · rfl

def ofNumbers (numbers : List (ℚ × ℚ)) : List (PyFloat × ℚ) := numbers.map fun p => (.fin p.1, p.2)

theorem onSegment_exact (p q : ℚ × ℚ) (c : ℚ) :
    onSegment .exact (.fin p.1, p.2) (.fin q.1, q.2) (.fin c) =
      .fin (Interpolation.onSegment p q c) := by
  unfold onSegment Interpolation.onSegment
  simp only [PyFloat.fin.injEq]
  split_ifs with hvertical
  · rfl
  · have hwidth : q.1 - p.1 ≠ 0 := sub_ne_zero.2 hvertical
    simp only [FloatFormat.sub_fin]
    simp only [FloatFormat.exact, FloatFormat.div, hwidth, if_false, FloatFormat.mul,
      FloatFormat.add]

theorem onSegments_exact (numbers : List (ℚ × ℚ)) (c : ℚ) :
    onSegments .exact (ofNumbers numbers) (.fin c) = (interpolate numbers c).map .fin := by
  induction numbers with
  | nil => rfl
  | cons p numbers ih =>
      cases numbers with
      | nil => rfl
      | cons q rest =>
          have hbrackets : brackets (.fin p.1, p.2) (.fin q.1, q.2) (.fin c) = true ↔
              p.1 ≤ c ∧ c ≤ q.1 := by
            simp [brackets, PyFloat.le]
          simp only [ofNumbers, List.map_cons] at ih ⊢
          rw [onSegments, interpolate, ih, onSegment_exact]
          simp only [hbrackets]
          split_ifs <;> rfl

section Numbers

variable (curve : CalibrationCurve f)

theorem exists_ofNumbers {points : List (PyFloat × ℚ)} (h : ∀ p ∈ points, ∃ x, p.1 = .fin x) :
    ∃ numbers, points = ofNumbers numbers := by
  induction points with
  | nil => exact ⟨[], rfl⟩
  | cons p points ih =>
      rw [List.forall_mem_cons] at h
      obtain ⟨⟨x, hx⟩, hrest⟩ := h
      obtain ⟨numbers, rfl⟩ := ih hrest
      exact ⟨(x, p.2) :: numbers, congrArg (· :: ofNumbers numbers) (Prod.ext hx rfl)⟩

theorem exists_sorted_numbers (h : ∀ p ∈ curve.points, ∃ x, p.1 = .fin x) :
    ∃ numbers, curve.points = ofNumbers numbers ∧ numbers.Pairwise (· ≤ ·) := by
  obtain ⟨numbers, hnumbers⟩ := exists_ofNumbers h
  have hraws := curve.rawsSorted
  have hprobs := curve.probsSorted
  rw [hnumbers, ofNumbers, List.map_map] at hraws hprobs
  have hchain : (numbers.map Prod.fst).IsChain (· ≤ ·) := by
    rw [List.isChain_map] at hraws ⊢
    exact hraws.imp fun p q hpq => by simpa [PyFloat.lt] using hpq
  refine ⟨numbers, hnumbers, ?_⟩
  exact (List.pairwise_map.1 hchain.pairwise).and (List.pairwise_map.1 hprobs)

/-- The curve rises through numbers from one point to another. -/
structure Rises (low high : ℚ × ℚ) (rest : List (ℚ × ℚ)) : Prop where
  points : curve.points = ofNumbers (low :: rest)
  sorted : (low :: rest).Pairwise (· ≤ ·)
  first : curve.first = (.fin low.1, low.2)
  last : curve.last = (.fin high.1, high.2)
  high_mem : high ∈ rest
  le_high : ∀ p ∈ low :: rest, p ≤ high

theorem exists_rises (h : ∀ p ∈ curve.points, ∃ x, p.1 = .fin x) :
    ∃ low high rest, curve.Rises low high rest := by
  obtain ⟨numbers, hnumbers, hsorted⟩ := curve.exists_sorted_numbers h
  have henough : 2 ≤ numbers.length := by simpa [hnumbers, ofNumbers] using curve.enough
  obtain ⟨low, second, rest, rfl⟩ : ∃ low second rest, numbers = low :: second :: rest := by
    rcases numbers with _ | ⟨low, _ | ⟨second, rest⟩⟩
    · simp at henough
    · simp at henough
    · exact ⟨low, second, rest, rfl⟩
  have hne : second :: rest ≠ [] := List.cons_ne_nil _ _
  refine ⟨low, (second :: rest).getLast hne, second :: rest, hnumbers, hsorted, ?_, ?_,
    List.getLast_mem hne, fun p hp => ?_⟩
  · simp only [CalibrationCurve.first, hnumbers, ofNumbers, List.map_cons, List.head_cons]
  · simp only [CalibrationCurve.last, hnumbers, ofNumbers, List.getLast_map,
      List.getLast_cons hne]
  · rw [← List.getLast_cons hne]
    exact hsorted.rel_getLast hp

end Numbers

namespace Rises

variable {curve : CalibrationCurve f} {low high : ℚ × ℚ} {rest : List (ℚ × ℚ)} {raw : PyFloat}

theorem low_le (h : curve.Rises low high rest) : ∀ p ∈ low :: rest, low ≤ p :=
  fun _ hp => h.sorted.rel_head hp

theorem low_le_high (h : curve.Rises low high rest) : low ≤ high :=
  h.low_le high (List.mem_cons_of_mem _ h.high_mem)

theorem clamped_eq (h : curve.Rises low high rest) (raw : PyFloat) :
    curve.clamped raw = raw.clamp low.1 high.1 := by
  rw [clamped, h.first, h.last]
  rfl

theorem exists_clamp_eq (h : curve.Rises low high rest) (hraw : raw ≠ .nan) :
    ∃ c, low.1 ≤ c ∧ c ≤ high.1 ∧ raw.clamp low.1 high.1 = .fin c := by
  rcases PyFloat.clamp_cases h.low_le_high.1 raw with ⟨hnan, -⟩ | hc
  · exact absurd hnan hraw
  · exact hc

end Rises

namespace Rises

variable {curve : CalibrationCurve .exact} {low high : ℚ × ℚ} {rest : List (ℚ × ℚ)} {raw : PyFloat}

theorem apply_eq (h : curve.Rises low high rest) {c y : ℚ} (hc : raw.clamp low.1 high.1 = .fin c)
    (hy : interpolate (low :: rest) c = some y) : curve.apply raw = .fin y := by
  rw [apply, h.clamped_eq, hc, h.points, onSegments_exact, hy]
  rfl

theorem exists_apply_eq (h : curve.Rises low high rest) (hraw : raw ≠ .nan) :
    ∃ c y, raw.clamp low.1 high.1 = .fin c ∧ interpolate (low :: rest) c = some y ∧
      curve.apply raw = .fin y := by
  obtain ⟨c, hlow, hhigh, hc⟩ := h.exists_clamp_eq hraw
  obtain ⟨y, hy⟩ := exists_interpolate_eq hlow ⟨high, h.high_mem, hhigh⟩
  exact ⟨c, y, hc, hy, h.apply_eq hc hy⟩

theorem exists_apply_between (h : curve.Rises low high rest) (raw : PyFloat) :
    ∃ y, curve.apply raw = .fin y ∧ low.2 ≤ y ∧ y ≤ high.2 := by
  by_cases hraw : raw = .nan
  · refine ⟨high.2, ?_, h.low_le_high.2, le_rfl⟩
    rw [hraw, apply_nan, h.last]
  · obtain ⟨c, y, -, hy, happly⟩ := h.exists_apply_eq hraw
    exact ⟨y, happly, le_interpolate h.sorted hy fun p hp => (h.low_le p hp).2,
      interpolate_le h.sorted hy fun p hp => (h.le_high p hp).2⟩

theorem apply_mono (h : curve.Rises low high rest) {raw' : PyFloat} (hle : raw.le raw' = true) :
    (curve.apply raw).le (curve.apply raw') = true := by
  obtain ⟨hraw, hraw'⟩ := PyFloat.ne_nan_of_le hle
  obtain ⟨c, y, hc, hy, happly⟩ := h.exists_apply_eq hraw
  obtain ⟨c', y', hc', hy', happly'⟩ := h.exists_apply_eq hraw'
  rw [happly, happly']
  exact decide_eq_true
    (interpolate_mono h.sorted (PyFloat.clamp_mono h.low_le_high.1 hle hc hc') hy hy')

end Rises

section Ordinary

theorem locates_of_isFinite {points : List (PyFloat × ℚ)} {c : PyFloat}
    (h : ∀ p ∈ points, (f.sub c p.1).isFinite = true) : Locates f points c := by
  induction points with
  | nil => trivial
  | cons p points ih =>
      cases points with
      | nil => trivial
      | cons q rest =>
          rw [List.forall_mem_cons] at h
          rw [Locates]
          split_ifs
          · exact Or.inr h.1
          · exact ih h.2

/-- The knots are numbers within half the range of the doubles. -/
def Ordinary (curve : CalibrationCurve .double) : Prop :=
  ∀ p ∈ curve.points, ∃ x : ℚ, p.1 = .fin x ∧ |x| < floatLimit / 2

/-- Only a knot that is infinite, or next to it, keeps a number from having a confidence. -/
theorem Ordinary.locates {curve : CalibrationCurve .double} (h : curve.Ordinary) {raw : PyFloat}
    (hraw : raw ≠ .nan) : Locates .double curve.points (curve.clamped raw) := by
  obtain ⟨low, high, rest, hrises⟩ := curve.exists_rises fun p hp => (h p hp).imp fun _ hx => hx.1
  have hbound : ∀ p ∈ low :: rest, |p.1| < (floatLimit : ℚ) / 2 := by
    intro p hp
    obtain ⟨x, hx, hlt⟩ := h (.fin p.1, p.2) (by rw [hrises.points]; exact List.mem_map_of_mem hp)
    cases hx
    exact hlt
  obtain ⟨c, hlow, hhigh, hc⟩ := hrises.exists_clamp_eq hraw
  have hcbound : |c| < (floatLimit : ℚ) / 2 := by
    have hfirst := abs_lt.1 (hbound low List.mem_cons_self)
    have hlast := abs_lt.1 (hbound high (List.mem_cons_of_mem _ hrises.high_mem))
    exact abs_lt.2 ⟨hfirst.1.trans_le hlow, hhigh.trans_lt hlast.2⟩
  rw [hrises.clamped_eq, hc, hrises.points]
  refine locates_of_isFinite fun p hp => ?_
  obtain ⟨number, hnumber, rfl⟩ := List.mem_map.1 hp
  have hnear : |c - number.1| < (floatLimit : ℚ) := by
    calc
      |c - number.1| ≤ |c| + |number.1| := abs_sub _ _
      _ < floatLimit / 2 + floatLimit / 2 := add_lt_add hcbound (hbound number hnumber)
      _ = floatLimit := add_halves _
  rw [FloatFormat.sub_fin]
  change (nearestFloat _).isFinite = true
  rw [nearestFloat_of_abs_lt hnear]
  rfl

end Ordinary

variable (curve : CalibrationCurve .exact)

theorem exists_rises_exact : ∃ low high rest, curve.Rises low high rest :=
  curve.exists_rises fun p hp => (curve.representable p hp).1

/-- What is promised of a curve: its values are in the order of the scores and between its ends,
and at a number the loop returns, with no division by zero. -/
structure Isotone : Prop where
  monotone : ∀ raw raw' : PyFloat, raw.le raw' = true →
    (curve.apply raw).le (curve.apply raw') = true
  bounded : ∀ raw, (PyFloat.fin curve.first.2).le (curve.apply raw) = true ∧
    (curve.apply raw).le (.fin curve.last.2) = true
  returns : ∀ raw, raw ≠ .nan → ∃ c, curve.clamped raw = .fin c ∧
    loop .exact curve.points (.fin c) = .ok (some (curve.apply raw))

theorem isotone : curve.Isotone := by
  obtain ⟨low, high, rest, h⟩ := curve.exists_rises_exact
  constructor
  · intro raw raw' hle
    exact h.apply_mono hle
  · intro raw
    obtain ⟨y, happly, hlow, hhigh⟩ := h.exists_apply_between raw
    rw [happly, h.first, h.last]
    exact ⟨decide_eq_true hlow, decide_eq_true hhigh⟩
  · intro raw hraw
    obtain ⟨c, y, hc, hy, happly⟩ := h.exists_apply_eq hraw
    refine ⟨c, by rw [h.clamped_eq, hc], ?_⟩
    rw [loop_eq fun p hp => (curve.representable p hp).1, h.points, onSegments_exact, hy, happly]
    rfl

theorem exists_apply_unit (raw : PyFloat) : ∃ y, curve.apply raw = .fin y ∧ 0 ≤ y ∧ y ≤ 1 := by
  obtain ⟨low, high, rest, h⟩ := curve.exists_rises_exact
  obtain ⟨y, happly, hlow, hhigh⟩ := h.exists_apply_between raw
  have hunit : ∀ p ∈ low :: rest, 0 ≤ p.2 ∧ p.2 ≤ 1 := by
    intro p hp
    refine curve.probsUnit (.fin p.1, p.2) ?_
    rw [h.points]
    exact List.mem_map_of_mem hp
  exact ⟨y, happly, (hunit low List.mem_cons_self).1.trans hlow,
    hhigh.trans (hunit high (List.mem_cons_of_mem _ h.high_mem)).2⟩

end CalibrationCurve

namespace Calibrator

/-- Where all curves are ordinary every number has a confidence. -/
theorem scores_of_ordinary {c : Calibrator .double}
    (h : ∀ classIdentifier curve, c.curves classIdentifier = some curve → curve.Ordinary)
    (classIdentifier : String) {rawScore : PyFloat} (hraw : rawScore ≠ .nan) :
    c.Scores classIdentifier rawScore := by
  unfold Scores
  cases hcurve : c.curves classIdentifier with
  | none => exact hraw
  | some curve => exact (h classIdentifier curve hcurve).locates hraw

variable (c : Calibrator .exact) (classIdentifier : String)

/-- Two scores in order get confidences in order, which lie in the unit interval. -/
def KeepsOrder : Prop :=
  ∀ raw raw' : PyFloat, raw.le raw' = true → ∃ confidence confidence',
    c.calibrate classIdentifier raw = .ok confidence ∧
      c.calibrate classIdentifier raw' = .ok confidence' ∧ 0 ≤ confidence.value ∧
        confidence.value ≤ confidence'.value ∧ confidence'.value ≤ 1

theorem keepsOrder : c.KeepsOrder classIdentifier := by
  intro raw raw' h
  cases hcurve : c.curves classIdentifier with
  | some curve =>
      have hcalibrate : ∀ raw y, curve.apply raw = .fin y → ∀ (h0 : 0 ≤ y) (h1 : y ≤ 1),
          c.calibrate classIdentifier raw = .ok ⟨y, .calibrated, h0, h1⟩ := by
        intro raw y happly h0 h1
        simp only [calibrate, hcurve, happly, PyFloat.clampUnit_of_unit h0 h1, Confidence.of, h0,
          h1, and_self, dite_true]
      obtain ⟨y, happly, h0, h1⟩ := curve.exists_apply_unit raw
      obtain ⟨y', happly', h0', h1'⟩ := curve.exists_apply_unit raw'
      have hle := curve.isotone.monotone raw raw' h
      rw [happly, happly'] at hle
      exact ⟨_, _, hcalibrate raw y happly h0 h1, hcalibrate raw' y' happly' h0' h1', h0,
        of_decide_eq_true hle, h1'⟩
  | none =>
      obtain ⟨hraw, hraw'⟩ := PyFloat.ne_nan_of_le h
      rcases raw.clampUnit_cases with ⟨hnan, -⟩ | ⟨p, hp0, hp1, hp⟩
      · exact absurd hnan hraw
      rcases raw'.clampUnit_cases with ⟨hnan, -⟩ | ⟨q, hq0, hq1, hq⟩
      · exact absurd hnan hraw'
      have hpq : p ≤ q := PyFloat.clamp_mono zero_le_one h hp hq
      refine ⟨⟨p, .raw, hp0, hp1⟩, ⟨q, .raw, hq0, hq1⟩, ?_, ?_, hp0, hpq, hq1⟩
      · simp only [calibrate, hcurve, hp, Confidence.of, hp0, hp1, and_self, dite_true]
      · simp only [calibrate, hcurve, hq, Confidence.of, hq0, hq1, and_self, dite_true]

end Calibrator

/-- In exact arithmetic calibration is monotone and bounded, with a curve and without one. -/
theorem calibration_keeps_order :
    (∀ curve : CalibrationCurve .exact, curve.Isotone) ∧
      ∀ (c : Calibrator .exact) (classIdentifier : String), c.KeepsOrder classIdentifier :=
  ⟨CalibrationCurve.isotone, Calibrator.keepsOrder⟩

end OratoriaEngine
