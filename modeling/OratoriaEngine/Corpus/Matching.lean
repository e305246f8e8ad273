import Mathlib.Algebra.Order.Field.Basic
import Mathlib.Algebra.Order.Field.Rat
import Mathlib.Data.List.Sort
import Mathlib.Data.List.Enum
import OratoriaEngine.Corpus.Records
import OratoriaEngine.Lib.Alignment
import OratoriaEngine.Lib.Dict

/-!
# Matching the events of two annotators

Which annotations of one annotator are which of the other's: the admissible pairs and their
scores, the table of best totals, the traceback through it, and the agreement on finding
events. Scores, totals and differences are rounded: the code computes with doubles.
-/

namespace OratoriaEngine.Corpus

inductive MatchCriterion
  | iou
  | midpointTolerance
  deriving DecidableEq

structure MatchedPair where
  left : DisfluencyAnnotation
  right : DisfluencyAnnotation
  iou : ℚ

structure Matching where
  pairs : List MatchedPair
  leftOnly : List DisfluencyAnnotation
  rightOnly : List DisfluencyAnnotation
  criterion : MatchCriterion
  threshold : ℚ

def Matching.positiveSpecificAgreement (ρ : Rounding ℚ) (m : Matching) : ℚ :=
  let matched := m.pairs.length
  let unmatched := m.leftOnly.length + m.rightOnly.length
  if matched = 0 ∧ unmatched = 0 then 1 else ρ (2 * matched / (2 * matched + unmatched))

/-- The sort key of an annotation: start, end and class. -/
def DisfluencyAnnotation.orderingLe (a b : DisfluencyAnnotation) : Prop :=
  a.interval.startMs < b.interval.startMs ∨ a.interval.startMs = b.interval.startMs ∧
    (a.interval.endMs < b.interval.endMs ∨ a.interval.endMs = b.interval.endMs ∧
      a.eventType.value ≤ b.eventType.value)

instance : DecidableRel DisfluencyAnnotation.orderingLe :=
  fun _ _ => inferInstanceAs (Decidable (_ ∨ _))

def ordered (annotations : List DisfluencyAnnotation) : List DisfluencyAnnotation :=
  annotations.insertionSort DisfluencyAnnotation.orderingLe

def defaultIouThreshold : ℚ := 1 / 2

def defaultToleranceMs : ℤ := 250

/-- How a pair is judged: the criterion and its two parameters. -/
structure MatchRule where
  criterion : MatchCriterion := .iou
  iouThreshold : ℚ := defaultIouThreshold
  toleranceMs : ℤ := defaultToleranceMs

section Rounded

variable (ρ : Rounding ℚ)

def midpoint (i : Interval) : ℚ := ρ ((i.startMs + i.endMs) / 2)

/-- The score of a pair, if it is admissible. A tolerance admits a pair by its midpoints and
scores it by its overlap. -/
def MatchRule.score (rule : MatchRule) (a b : DisfluencyAnnotation) : Option ℚ :=
  match rule.criterion with
  | .iou =>
      let score := a.interval.iou b.interval ρ
      if rule.iouThreshold ≤ score then some score else none
  | .midpointTolerance =>
      if |ρ (midpoint ρ a.interval - midpoint ρ b.interval)| ≤ rule.toleranceMs then
        some (a.interval.iou b.interval ρ)
      else none

/-- Admissible pairs and their scores, entered row by row. -/
def weights (rule : MatchRule) (left right : List DisfluencyAnnotation) : Dict (ℕ × ℕ) ℚ :=
  Dict.empty.setAll (left.zipIdx.flatMap fun (a, i) => right.zipIdx.filterMap fun (b, j) =>
    (rule.score ρ a b).map fun score => ((i, j), score))

def cell (best : List (List ℚ)) (i j : ℕ) : ℚ := (best.getD i []).getD j 0

def setCell (best : List (List ℚ)) (i j : ℕ) (value : ℚ) : List (List ℚ) :=
  best.set i ((best.getD i []).set j value)

/-- The best score of a cell: drop the next left annotation, drop the next right one, or pair. -/
def candidate (skipLeft skipRight diagonal : ℚ) (weight : Option ℚ) : ℚ :=
  let candidate := if skipRight ≤ skipLeft then skipLeft else skipRight
  match weight with
  | none => candidate
  | some weight =>
      let paired := ρ (diagonal + weight)
      if candidate < paired then paired else candidate

/-- The body of the two loops, which enters the cell of row `i + 1` and column `j + 1`. -/
def fillCell (weights : Dict (ℕ × ℕ) ℚ) (i : ℕ) (best : List (List ℚ)) (j : ℕ) :
    List (List ℚ) :=
  setCell best (i + 1) (j + 1)
    (candidate ρ (cell best i (j + 1)) (cell best (i + 1) j) (cell best i j) (weights.get? (i, j)))

def fillRow (weights : Dict (ℕ × ℕ) ℚ) (nRight : ℕ) (best : List (List ℚ)) (i : ℕ) :
    List (List ℚ) :=
  (List.range nRight).foldl (fillCell ρ weights i) best

def bestTable (weights : Dict (ℕ × ℕ) ℚ) (nLeft nRight : ℕ) : List (List ℚ) :=
  (List.range nLeft).foldl (fillRow ρ weights nRight)
    (List.replicate (nLeft + 1) (List.replicate (nRight + 1) 0))

/-- What a tight pair may lose, the double nearest to `1e-12`. -/
def tightness : ℚ := Rounding.double (1 / 10 ^ 12)

/-- The variables of the `while` loop; `pairs` grows at its end. -/
structure Cursor where
  i : ℕ
  j : ℕ
  pairs : List (ℕ × ℕ)

def Cursor.Done (s : Cursor) : Prop := s.i = 0 ∨ s.j = 0

/-- Pairing the annotations before row `i + 1` and column `j + 1` reaches the best score. -/
def isTight (weights : Dict (ℕ × ℕ) ℚ) (best : List (List ℚ)) (i j : ℕ) : Bool :=
  match weights.get? (i, j) with
  | none => false
  | some weight => |ρ (cell best (i + 1) (j + 1) - ρ (cell best i j + weight))| < tightness

/-- One pass through the loop; nothing happens once its condition is false. -/
def advance (weights : Dict (ℕ × ℕ) ℚ) (best : List (List ℚ)) : Cursor → Cursor
  | ⟨i + 1, j + 1, pairs⟩ =>
      if isTight ρ weights best i j then ⟨i, j, pairs ++ [(i, j)]⟩
      else if cell best (i + 1) (j + 1) = cell best i (j + 1) then ⟨i, j + 1, pairs⟩
      else ⟨i + 1, j, pairs⟩
  | s => s

def passes (weights : Dict (ℕ × ℕ) ℚ) (best : List (List ℚ)) (n : ℕ) (s : Cursor) : Cursor :=
  (advance ρ weights best)^[n] s

def optimalNonCrossing (weights : Dict (ℕ × ℕ) ℚ) (nLeft nRight : ℕ) : List (ℕ × ℕ) :=
  (passes ρ weights (bestTable ρ weights nLeft nRight) (nLeft + nRight)
    ⟨nLeft, nRight, []⟩).pairs.reverse

def matchAnnotations (rule : MatchRule) (left right : List DisfluencyAnnotation) : Matching :=
  let orderedLeft := ordered left
  let orderedRight := ordered right
  let indices := optimalNonCrossing ρ (weights ρ rule orderedLeft orderedRight) orderedLeft.length
    orderedRight.length
  let matchedLeft := indices.map Prod.fst
  let matchedRight := indices.map Prod.snd
  { pairs := indices.filterMap fun (i, j) => do
      let a ← orderedLeft[i]?
      let b ← orderedRight[j]?
      return ⟨a, b, a.interval.iou b.interval ρ⟩
    leftOnly := (orderedLeft.zipIdx.filter fun (_, i) => i ∉ matchedLeft).map Prod.fst
    rightOnly := (orderedRight.zipIdx.filter fun (_, j) => j ∉ matchedRight).map Prod.fst
    criterion := rule.criterion
    threshold := match rule.criterion with
      | .iou => rule.iouThreshold
      | .midpointTolerance => ρ rule.toleranceMs }

end Rounded

end OratoriaEngine.Corpus
