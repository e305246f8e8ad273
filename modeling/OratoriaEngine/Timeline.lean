import OratoriaEngine.Failures
import Mathlib.Logic.Basic
import Mathlib.Tactic.SplitIfs

/-!
# The shared monotonic timeline

Positions are integer milliseconds on the session clock. An interval is
half-open and carries the tolerance of its boundaries.
-/

namespace OratoriaEngine

/-- A point on the session clock, in milliseconds since capture started. -/
@[ext] structure MonotonicTime where
  ms : ℤ
  nonneg : 0 ≤ ms

namespace MonotonicTime

instance : DecidableEq MonotonicTime := fun _ _ => decidable_of_iff _ MonotonicTime.ext_iff.symm

def zero : MonotonicTime := ⟨0, le_rfl⟩

def of (ms : ℤ) : Except Failure MonotonicTime :=
  if h : 0 ≤ ms then .ok ⟨ms, h⟩
  else .error (.invalidInterval s!"monotonic time cannot be negative: {ms}")

theorem of_eq_ok_iff (ms : ℤ) (t : MonotonicTime) : of ms = .ok t ↔ t.ms = ms := by
  constructor
  · intro h
    unfold of at h
    split_ifs at h
    cases h
    rfl
  · rintro rfl
    exact dif_pos t.nonneg

end MonotonicTime

/-- A half-open span `[start, stop)`. -/
@[ext] structure Interval where
  start : MonotonicTime
  stop : MonotonicTime
  toleranceMs : ℤ
  ordered : start.ms ≤ stop.ms
  tolerant : 0 ≤ toleranceMs

namespace Interval

instance : DecidableEq Interval := fun _ _ => decidable_of_iff _ Interval.ext_iff.symm

def defaultToleranceMs : ℤ := 250

theorem defaultToleranceMs_nonneg : 0 ≤ defaultToleranceMs := by decide

def make (start stop : MonotonicTime) (toleranceMs : ℤ) : Except Failure Interval :=
  if ho : start.ms ≤ stop.ms then
    if ht : 0 ≤ toleranceMs then .ok ⟨start, stop, toleranceMs, ho, ht⟩
    else .error (.invalidInterval s!"tolerance cannot be negative: {toleranceMs}")
  else .error (.invalidInterval s!"interval ends before it starts: [{start.ms}, {stop.ms})")

/-- An interval from raw milliseconds, with the default tolerance. -/
def of (startMs endMs : ℤ) : Except Failure Interval := do
  let start ← MonotonicTime.of startMs
  let stop ← MonotonicTime.of endMs
  make start stop defaultToleranceMs

theorem of_eq_ok {startMs endMs : ℤ} {i : Interval} (h : of startMs endMs = .ok i) :
    i.start.ms = startMs ∧ i.stop.ms = endMs ∧ i.toleranceMs = defaultToleranceMs := by
  cases hs : MonotonicTime.of startMs with
  | error e => simp [of, hs, bind, Except.bind] at h
  | ok s =>
      cases he : MonotonicTime.of endMs with
      | error e => simp [of, hs, he, bind, Except.bind] at h
      | ok t =>
          simp only [of, hs, he, bind, Except.bind, make] at h
          split_ifs at h
          cases h
          exact ⟨(MonotonicTime.of_eq_ok_iff _ _).1 hs, (MonotonicTime.of_eq_ok_iff _ _).1 he, rfl⟩

theorem of_isOk {startMs endMs : ℤ} (h0 : 0 ≤ startMs) (h : startMs ≤ endMs) :
    ∃ i, of startMs endMs = .ok i := by
  have he : 0 ≤ endMs := h0.trans h
  simp [of, MonotonicTime.of, h0, he, bind, Except.bind, make, h, defaultToleranceMs]

def durationMs (i : Interval) : ℤ := i.stop.ms - i.start.ms

/-- The spans share an instant; the tolerances play no part. -/
def overlaps (i j : Interval) : Bool := i.start.ms < j.stop.ms && j.start.ms < i.stop.ms

theorem overlaps_iff (i j : Interval) :
    i.overlaps j = true ↔ i.start.ms < j.stop.ms ∧ j.start.ms < i.stop.ms := by
  simp [overlaps]

/-- Milliseconds separating two spans, zero when they overlap or touch. -/
def gapTo (i j : Interval) : ℤ :=
  if i.overlaps j then 0
  else if i.stop.ms ≤ j.start.ms then j.start.ms - i.stop.ms
  else i.start.ms - j.stop.ms

end Interval

end OratoriaEngine
