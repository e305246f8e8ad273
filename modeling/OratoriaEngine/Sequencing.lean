import OratoriaEngine.Failures
import Mathlib.Data.Finset.Card
import Mathlib.Data.Int.Order.Basic
import Mathlib.Data.Finset.Insert
import Mathlib.Data.Finset.Erase
import Mathlib.Tactic.Ring

/-!
# Chunk sequencing

The ledger of one modality remembers which sequence numbers it accepted, the
highest one seen, and the numbers that arrived ahead of a gap.
-/

namespace OratoriaEngine

inductive ChunkVerdict
  | accepted
  | duplicate
  | gapDetected
  | outOfOrder
  deriving DecidableEq, Repr

/-- A contiguous run of sequence numbers that never arrived. -/
structure SequenceGap where
  firstMissing : ℤ
  lastMissing : ℤ
  deriving DecidableEq, Repr

def SequenceGap.count (g : SequenceGap) : ℤ := g.lastMissing - g.firstMissing + 1

structure ChunkLedger where
  highestSeen : ℤ
  seenAhead : Finset ℤ
  acceptedSet : Finset ℤ
  gaps : List SequenceGap
  duplicates : ℕ
  deriving DecidableEq

namespace ChunkLedger

def empty : ChunkLedger := ⟨-1, ∅, ∅, [], 0⟩

def accept (l : ChunkLedger) (sequence : ℤ) : ChunkLedger :=
  { l with
    acceptedSet := insert sequence l.acceptedSet
    highestSeen := max l.highestSeen sequence }

/-- One pass of the draining loop for each number that is still ahead. -/
def drain : ℕ → ChunkLedger → ChunkLedger
  | 0, l => l
  | fuel + 1, l =>
      if l.highestSeen + 1 ∈ l.seenAhead then
        drain fuel { l with
          seenAhead := l.seenAhead.erase (l.highestSeen + 1)
          highestSeen := l.highestSeen + 1 }
      else l

def drainAhead (l : ChunkLedger) : ChunkLedger := drain l.seenAhead.card l

@[simp] theorem acceptedSet_drain (fuel : ℕ) (l : ChunkLedger) :
    (drain fuel l).acceptedSet = l.acceptedSet := by
  induction fuel generalizing l with
  | zero => rfl
  | succ fuel ih =>
      unfold drain
      split_ifs
      · rw [ih]
      · rfl

@[simp] theorem acceptedSet_drainAhead (l : ChunkLedger) :
    l.drainAhead.acceptedSet = l.acceptedSet := acceptedSet_drain _ _

/-- Record an arriving chunk and say what should happen to it. -/
def offer (l : ChunkLedger) (sequence : ℤ) : Except Failure (ChunkVerdict × ChunkLedger) :=
  if sequence < 0 then
    .error (.valueError s!"chunk sequence must be non-negative, got {sequence}")
  else if sequence ∈ l.acceptedSet then
    .ok (.duplicate, { l with duplicates := l.duplicates + 1 })
  else if sequence = l.highestSeen + 1 then
    .ok (.accepted, (l.accept sequence).drainAhead)
  else if l.highestSeen + 1 < sequence then
    .ok (.gapDetected,
      { l with seenAhead := insert sequence l.seenAhead }.accept sequence)
  else .ok (.outOfOrder, l.accept sequence)

theorem offer_of_neg {l : ChunkLedger} {sequence : ℤ} (h : sequence < 0) :
    l.offer sequence =
      .error (.valueError s!"chunk sequence must be non-negative, got {sequence}") := if_pos h

theorem offer_of_mem {l : ChunkLedger} {sequence : ℤ} (h0 : 0 ≤ sequence)
    (h : sequence ∈ l.acceptedSet) :
    l.offer sequence = .ok (.duplicate, { l with duplicates := l.duplicates + 1 }) := by
  rw [offer, if_neg (not_lt.2 h0), if_pos h]

/-- A chunk seen for the first time is accepted under one of three verdicts. -/
theorem offer_of_notMem {l : ChunkLedger} {sequence : ℤ} (h0 : 0 ≤ sequence)
    (h : sequence ∉ l.acceptedSet) :
    ∃ v l', l.offer sequence = .ok (v, l') ∧ v ≠ .duplicate ∧
      l'.acceptedSet = insert sequence l.acceptedSet := by
  rw [offer, if_neg (not_lt.2 h0), if_neg h]
  split_ifs
  · exact ⟨_, _, rfl, by decide, by simp [accept]⟩
  · exact ⟨_, _, rfl, by decide, by simp [accept]⟩
  · exact ⟨_, _, rfl, by decide, by simp [accept]⟩

/-- Extend the run that starts at `start` and has reached `previous`. -/
def collapseFrom (start previous : ℤ) : List ℤ → List SequenceGap
  | [] => [⟨start, previous⟩]
  | number :: rest =>
      if number = previous + 1 then collapseFrom start number rest
      else ⟨start, previous⟩ :: collapseFrom number number rest

/-- Turn a sorted list of missing numbers into contiguous runs. -/
def collapse : List ℤ → List SequenceGap
  | [] => []
  | number :: rest => collapseFrom number number rest

/-- The expected numbers that were never accepted, in increasing order. -/
def missing (l : ChunkLedger) : List ℤ :=
  ((List.range (l.highestSeen + 1).toNat).map Int.ofNat).filter (· ∉ l.acceptedSet)

/-- Confirm which sequence numbers never arrived. -/
def finalize (l : ChunkLedger) : ChunkLedger := { l with gaps := collapse l.missing }

def missingCount (l : ChunkLedger) : ℤ := (l.gaps.map SequenceGap.count).sum

theorem sum_count_collapseFrom (start previous : ℤ) (rest : List ℤ) :
    ((collapseFrom start previous rest).map SequenceGap.count).sum =
      previous - start + 1 + rest.length := by
  induction rest generalizing start previous with
  | nil => simp [collapseFrom, SequenceGap.count]
  | cons number rest ih =>
      unfold collapseFrom
      split_ifs with h
      · rw [ih, List.length_cons, h]
        push_cast
        ring
      · rw [List.map_cons, List.sum_cons, ih, List.length_cons, SequenceGap.count]
        push_cast
        ring

theorem missingCount_finalize (l : ChunkLedger) : l.finalize.missingCount = l.missing.length := by
  change ((collapse l.missing).map SequenceGap.count).sum = _
  cases l.missing with
  | nil => rfl
  | cons number rest =>
      rw [collapse, sum_count_collapseFrom, List.length_cons]
      push_cast
      ring

end ChunkLedger

end OratoriaEngine
