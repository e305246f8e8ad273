import Mathlib.Algebra.Order.Field.Basic
import Mathlib.Algebra.Order.Field.Rat
import Mathlib.Algebra.Order.Ring.Abs
import Mathlib.Data.List.Dedup
import Mathlib.Data.List.Sort
import Mathlib.Data.String.Basic
import OratoriaEngine.Lib.Except
import OratoriaEngine.Lib.Rounding
import OratoriaEngine.Lib.Tally

/-!
# Agreement coefficients

The confusion matrix of the matched pairs, Cohen's kappa and nominal Krippendorff's alpha over
it, and the boundary errors. A division by zero is an exception; what is computed is rounded.
-/

namespace OratoriaEngine.Corpus

def sortedSet (labels : List String) : List String := labels.dedup.insertionSort (· ≤ ·)

inductive ZeroDivisionError
  | divisionByZero

def quotient (ρ : Rounding ℚ) (a b : ℚ) : Except ZeroDivisionError ℚ :=
  if b = 0 then .error .divisionByZero else .ok (ρ (a / b))

structure ConfusionMatrix where
  counts : Dict (String × String) ℕ
  labels : List String

namespace ConfusionMatrix

variable (m : ConfusionMatrix)

def total : ℕ := m.counts.values.sum

def agreements : ℕ := m.counts.sumWhere fun p => p.1 = p.2

def observedAgreement (ρ : Rounding ℚ) : Except ZeroDivisionError ℚ :=
  if m.total ≠ 0 then quotient ρ m.agreements m.total else .ok 1

def forLabel (label : String) : ℕ × ℕ × ℕ :=
  ((m.counts.get? (label, label)).getD 0,
    m.counts.sumWhere fun p => p.1 = label ∧ p.2 ≠ label,
    m.counts.sumWhere fun p => p.2 = label ∧ p.1 ≠ label)

/-- Agreement on one class; there is none where neither annotator used it. -/
def specificAgreement (ρ : Rounding ℚ) (label : String) : Option ℚ :=
  let (both, leftOnly, rightOnly) := m.forLabel label
  if both = 0 ∧ leftOnly = 0 ∧ rightOnly = 0 then none
  else some (ρ (2 * both / (2 * both + leftOnly + rightOnly)))

end ConfusionMatrix

def confusion (pairs : List (String × String)) : ConfusionMatrix where
  counts := Dict.tally pairs
  labels := sortedSet (pairs.flatMap fun p => [p.1, p.2])

section Coefficients

variable (ρ : Rounding ℚ)

/-- `math.isclose(a, b)`: the tolerance is `1e-9` of either. -/
def isClose (a b : ℚ) : Prop :=
  |ρ (b - a)| ≤ |ρ (ρ (1 / 10 ^ 9) * b)| ∨ |ρ (b - a)| ≤ |ρ (ρ (1 / 10 ^ 9) * a)|

instance (a b : ℚ) : Decidable (isClose ρ a b) := inferInstanceAs (Decidable (_ ∨ _))

def addChance (m : ConfusionMatrix) (expected : ℚ) (label : String) :
    Except ZeroDivisionError ℚ := do
  let leftMarginal ← quotient ρ (m.counts.sumWhere fun p => p.1 = label) m.total
  let rightMarginal ← quotient ρ (m.counts.sumWhere fun p => p.2 = label) m.total
  return ρ (expected + ρ (leftMarginal * rightMarginal))

def cohensKappa (m : ConfusionMatrix) : Except ZeroDivisionError (Option ℚ) := do
  if m.total < 2 then return none
  let observed ← m.observedAgreement ρ
  let expected ← m.labels.foldlM (addChance ρ m) 0
  if isClose ρ expected 1 then return none
  return some (← quotient ρ (ρ (observed - expected)) (ρ (1 - expected)))

/-- Each matched pair contributes in both directions. -/
def coincidences (m : ConfusionMatrix) : Dict (String × String) ℕ :=
  m.counts.entries.foldl (fun d e => (d.add (e.1.1, e.1.2) e.2).add (e.1.2, e.1.1) e.2) Dict.empty

def marginal (m : ConfusionMatrix) (label : String) : ℕ :=
  (coincidences m).sumWhere fun p => p.1 = label

/-- The label pairs of the double loop, those of two different labels. -/
def labelPairs (labels : List String) : List (String × String) :=
  (labels.flatMap fun a => labels.map fun b => (a, b)).filter fun p => p.1 ≠ p.2

def krippendorffsAlpha (m : ConfusionMatrix) : Except ZeroDivisionError (Option ℚ) := do
  if m.total < 2 then return none
  let n := (coincidences m).values.sum
  let observedDisagreement := (coincidences m).sumWhere fun p => p.1 ≠ p.2
  let expectedDisagreement :=
    ((labelPairs m.labels).map fun p => marginal m p.1 * marginal m p.2).sum
  if expectedDisagreement = 0 then return none
  return some (ρ (1 - (← quotient ρ (((n : ℚ) - 1) * observedDisagreement) expectedDisagreement)))

end Coefficients

/-- How far apart two annotators put the edges of the same events. -/
structure BoundaryError where
  startErrorsMs : List ℤ
  endErrorsMs : List ℤ
  deriving DecidableEq

end OratoriaEngine.Corpus
