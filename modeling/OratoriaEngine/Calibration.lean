import OratoriaEngine.FloatFormats
import OratoriaEngine.Measurement

/-!
# Calibration of raw scores

A curve maps a raw score piecewise linearly onto the calibrated scale. A class
without a curve keeps its score, clamped and marked as raw. The engine computes
with doubles; the definitions are those of any number format.
-/

namespace OratoriaEngine

/-- `(raw score, calibrated probability)` pairs. A list is its own sorted copy where no neighbour
falls, so a raw score may be an infinity or a NaN. -/
structure CalibrationCurve (f : FloatFormat) where
  points : List (PyFloat × ℚ)
  enough : 2 ≤ points.length
  rawsSorted : (points.map Prod.fst).IsChain fun x0 x1 => x1.lt x0 = false
  probsSorted : (points.map Prod.snd).Pairwise (· ≤ ·)
  probsUnit : ∀ p ∈ points, 0 ≤ p.2 ∧ p.2 ≤ 1
  representable : ∀ p ∈ points, f.Has p.1 ∧ f.Has (.fin p.2)

namespace CalibrationCurve

variable (f : FloatFormat)

def brackets (p q : PyFloat × ℚ) (c : PyFloat) : Bool := p.1.le c && c.le q.1

/-- The value on a segment; a vertical one has the value of its upper end. -/
def onSegment (p q : PyFloat × ℚ) (c : PyFloat) : PyFloat :=
  if q.1 = p.1 then .fin q.2
  else
    let ratio := f.div (f.sub c p.1) (f.sub q.1 p.1)
    f.add (.fin p.2) (f.mul ratio (f.sub (.fin q.2) (.fin p.2)))

/-- The value on the first segment that brackets `c`. -/
def onSegments : List (PyFloat × ℚ) → PyFloat → Option PyFloat
  | p :: q :: rest, c =>
      if brackets p q c then some (onSegment f p q c) else onSegments (q :: rest) c
  | _, _ => none

/-- The segment is vertical, or the position has a finite distance from its start. -/
def Measures (p q : PyFloat × ℚ) (c : PyFloat) : Prop :=
  q.1 = p.1 ∨ (f.sub c p.1).isFinite = true

/-- The first segment that brackets `c`, if there is one, measures it. -/
def Locates : List (PyFloat × ℚ) → PyFloat → Prop
  | p :: q :: rest, c => if brackets p q c then Measures f p q c else Locates (q :: rest) c
  | _, _ => True

section Segments

variable {f} {p q : PyFloat × ℚ} {c : PyFloat}

/-- On a segment that measures the position the value is a number or too large for one, elsewhere a
NaN: there the distance is that of infinities, or overflows and is divided by one that does. -/
theorem onSegment_cases (hp : f.Has p.1) (hq : f.Has q.1) (hle : p.2 ≤ q.2) (h0 : 0 ≤ p.2)
    (h1 : q.2 ≤ 1) (hc : brackets p q c = true) :
    (Measures f p q c ∧ (PyFloat.fin 0).le (onSegment f p q c) = true) ∨
      (¬Measures f p q c ∧ onSegment f p q c = .nan) := by
  obtain ⟨hpc, hcq⟩ := Bool.and_eq_true_iff.1 hc
  by_cases hvertical : q.1 = p.1
  · rw [onSegment, if_pos hvertical]
    exact Or.inl ⟨Or.inl hvertical, decide_eq_true (h0.trans hle)⟩
  rw [onSegment, if_neg hvertical, Measures, or_iff_right hvertical]
  dsimp only
  obtain ⟨height, hheight0, hheight1, hheight⟩ :=
    f.store_unit (sub_nonneg.2 hle) (by linarith : q.2 - p.2 ≤ 1)
  rw [f.sub_fin q.2 p.2, hheight]
  rcases f.sub_cases hp hq hvertical hpc hcq with hnan | ⟨hinf, hwidth⟩ | ⟨r, hr, hdist, hwidth⟩
  · rw [hnan]
    exact Or.inr ⟨Bool.noConfusion, by simp⟩
  · rw [hinf, hwidth]
    exact Or.inr ⟨Bool.noConfusion, by simp⟩
  · have hratio : ∃ t, 0 ≤ t ∧ t ≤ 1 ∧ f.div (.fin r) (f.sub q.1 p.1) = .fin t := by
      rcases hwidth with hwidth | ⟨s, hs, hrs, hwidth⟩
      · exact ⟨0, le_rfl, zero_le_one, by rw [hwidth]; rfl⟩
      · rw [hwidth, FloatFormat.div, if_neg hs.ne']
        exact f.store_unit (div_nonneg hr hs.le) ((div_le_one hs).2 hrs)
    obtain ⟨t, ht0, ht1, ht⟩ := hratio
    obtain ⟨rise, hrise0, -, hrise⟩ :=
      f.store_unit (mul_nonneg ht0 hheight0) (mul_le_one₀ ht1 hheight0 hheight1)
    rw [hdist, ht, FloatFormat.mul, hrise, FloatFormat.add]
    exact Or.inl ⟨rfl, FloatFormat.store_nonneg (add_nonneg h0 hrise0)⟩

theorem onSegments_cases {points : List (PyFloat × ℚ)}
    (hprobs : (points.map Prod.snd).Pairwise (· ≤ ·))
    (hunit : ∀ p ∈ points, 0 ≤ p.2 ∧ p.2 ≤ 1) (hhas : ∀ p ∈ points, f.Has p.1) :
    (Locates f points c ∧ ∀ v ∈ onSegments f points c, (PyFloat.fin 0).le v = true) ∨
      (¬Locates f points c ∧ onSegments f points c = some .nan) := by
  induction points with
  | nil => exact Or.inl ⟨trivial, nofun⟩
  | cons p points ih =>
      cases points with
      | nil => exact Or.inl ⟨trivial, nofun⟩
      | cons q rest =>
          rw [List.map_cons, List.pairwise_cons] at hprobs
          rw [List.forall_mem_cons] at hunit hhas
          rw [onSegments, Locates]
          split_ifs with hbrackets
          · have hcases := onSegment_cases hhas.1 (hhas.2 q List.mem_cons_self)
              (hprobs.1 q.2 List.mem_cons_self) hunit.1.1 (hunit.2 q List.mem_cons_self).2 hbrackets
            simpa using hcases
          · exact ih hprobs.2 hunit.2 hhas.2

theorem onSegments_nan (points : List (PyFloat × ℚ)) : onSegments f points .nan = none := by
  induction points with
  | nil => rfl
  | cons p points ih =>
      cases points with
      | nil => rfl
      | cons q rest =>
          have hout : brackets p q .nan = false := by
            cases hp : p.1 <;> simp [brackets, hp, PyFloat.le]
          rw [onSegments, hout, if_neg Bool.false_ne_true, ih]

end Segments

variable {f} (curve : CalibrationCurve f)

theorem points_ne_nil : curve.points ≠ [] := by
  intro h
  have h2 := curve.enough
  simp [h] at h2

def first : PyFloat × ℚ := curve.points.head curve.points_ne_nil

def last : PyFloat × ℚ := curve.points.getLast curve.points_ne_nil

theorem last_mem : curve.last ∈ curve.points := List.getLast_mem _

theorem clampUnit_last : (PyFloat.fin curve.last.2).clampUnit = .fin curve.last.2 := by
  obtain ⟨h0, h1⟩ := curve.probsUnit _ curve.last_mem
  exact PyFloat.clampUnit_of_unit h0 h1

def clamped (rawScore : PyFloat) : PyFloat :=
  (rawScore.max curve.first.1).min curve.last.1

/-- Clamp to the ends, then interpolate; a NaN brackets no segment. -/
def apply (rawScore : PyFloat) : PyFloat :=
  (onSegments f curve.points (curve.clamped rawScore)).getD (.fin curve.last.2)

theorem apply_cases (rawScore : PyFloat) :
    (Locates f curve.points (curve.clamped rawScore) ∧
        (PyFloat.fin 0).le (curve.apply rawScore) = true) ∨
      (¬Locates f curve.points (curve.clamped rawScore) ∧ curve.apply rawScore = .nan) := by
  have hlast : (PyFloat.fin 0).le (.fin curve.last.2) = true :=
    decide_eq_true (curve.probsUnit _ curve.last_mem).1
  unfold apply
  rcases onSegments_cases (c := curve.clamped rawScore) curve.probsSorted curve.probsUnit
    fun p hp => (curve.representable p hp).1 with ⟨hlocated, hvalue⟩ | ⟨hlost, hnan⟩
  · refine Or.inl ⟨hlocated, ?_⟩
    cases hon : onSegments f curve.points (curve.clamped rawScore) with
    | none => exact hlast
    | some v => exact hvalue v hon
  · exact Or.inr ⟨hlost, by rw [hnan]; rfl⟩

theorem apply_ne_nan_iff (rawScore : PyFloat) :
    curve.apply rawScore ≠ .nan ↔ Locates f curve.points (curve.clamped rawScore) := by
  rcases curve.apply_cases rawScore with ⟨hlocated, hvalue⟩ | ⟨hlost, hnan⟩
  · exact iff_of_true (PyFloat.ne_nan_of_le hvalue).2 hlocated
  · exact iff_of_false (not_not.2 hnan) hlost

theorem apply_nan : curve.apply .nan = .fin curve.last.2 := by
  have hclamped : curve.clamped .nan = .nan := by
    simp [clamped, PyFloat.max, PyFloat.min, PyFloat.lt]
    cases curve.last.1 <;> simp
  rw [apply, hclamped, onSegments_nan]
  rfl

end CalibrationCurve

/-- The fitted curve of each class that has one. -/
structure Calibrator (f : FloatFormat) where
  curves : String → Option (CalibrationCurve f)

namespace Calibrator

variable {f : FloatFormat}

def unfitted : Calibrator f := ⟨fun _ => none⟩

variable (c : Calibrator f) (classIdentifier : String) (rawScore : PyFloat)

def calibrate : Except Failure Confidence :=
  match c.curves classIdentifier with
  | none => Confidence.of rawScore.clampUnit .raw
  | some curve => Confidence.of (curve.apply rawScore).clampUnit .calibrated

/-- The score can be calibrated: it is no NaN, or the curve of its class locates it. -/
def Scores : Prop :=
  match c.curves classIdentifier with
  | none => rawScore ≠ .nan
  | some curve => CalibrationCurve.Locates f curve.points (curve.clamped rawScore)

theorem calibrate_isOk_iff :
    (∃ confidence, c.calibrate classIdentifier rawScore = .ok confidence) ↔
      c.Scores classIdentifier rawScore := by
  unfold calibrate Scores
  cases c.curves classIdentifier with
  | none => exact Confidence.of_clampUnit _ _
  | some curve => exact (Confidence.of_clampUnit _ _).trans (curve.apply_ne_nan_iff rawScore)

end Calibrator

end OratoriaEngine
