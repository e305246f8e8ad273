import OratoriaEngine.Configuration
import OratoriaEngine.Lib.Except
import OratoriaEngine.SpeechEvents
import OratoriaEngine.Timeline
import OratoriaEngine.VisualEvents
import Mathlib.Data.List.Sort
import Mathlib.Data.String.Basic

/-!
# Temporal co-occurrence

A co-occurrence pairs a speech event with a visual event no further apart than the
fusion window. Every admissible pair is emitted, and only those, so that fusing
never refuses a pair it selected.
-/

namespace OratoriaEngine

@[ext] structure MultimodalCooccurrence where
  speechEventId : EventId
  visualEventId : EventId
  temporalDistanceMs : ℤ
  window : FusionWindow
  nonneg : 0 ≤ temporalDistanceMs
  admitted : window.admits temporalDistanceMs = true

instance : DecidableEq MultimodalCooccurrence := fun _ _ =>
  decidable_of_iff _ MultimodalCooccurrence.ext_iff.symm

def MultimodalCooccurrence.of (speechEventId visualEventId : EventId) (temporalDistanceMs : ℤ)
    (window : FusionWindow) : Except Failure MultimodalCooccurrence :=
  if hn : 0 ≤ temporalDistanceMs then
    if ha : window.admits temporalDistanceMs = true then
      .ok ⟨speechEventId, visualEventId, temporalDistanceMs, window, hn, ha⟩
    else .error (.fusionViolation
      (s!"gap of {temporalDistanceMs} ms exceeds the fusion window of " ++
        s!"{window.widthMs} ms; this pair does not co-occur under that configuration"))
  else .error (.fusionViolation
    ("temporal distance is an absolute gap and cannot be negative: " ++ s!"{temporalDistanceMs}"))

/-- What fusion needs of an event: an identity and an interval. -/
structure TimedEvent where
  id : EventId
  interval : Interval
  deriving DecidableEq

namespace TimedEvent

/-- The sort key of an event: start, end and identifier. -/
def orderingLe (a b : TimedEvent) : Prop :=
  a.interval.start.ms < b.interval.start.ms ∨ a.interval.start.ms = b.interval.start.ms ∧
    (a.interval.stop.ms < b.interval.stop.ms ∨ a.interval.stop.ms = b.interval.stop.ms ∧
      a.id.value ≤ b.id.value)

instance : DecidableRel orderingLe := fun _ _ => inferInstanceAs (Decidable (_ ∨ _))

end TimedEvent

def ordered (events : List TimedEvent) : List TimedEvent :=
  events.insertionSort TimedEvent.orderingLe

/-- The co-occurrences of one speech event. -/
def correlateOne (speechEvent : TimedEvent) (visual : List TimedEvent) (window : FusionWindow) :
    Except Failure (List MultimodalCooccurrence) :=
  (visual.filter fun visualEvent =>
    window.admits (speechEvent.interval.gapTo visualEvent.interval)).mapM fun visualEvent =>
      MultimodalCooccurrence.of speechEvent.id visualEvent.id
        (speechEvent.interval.gapTo visualEvent.interval) window

/-- Pair the speech and visual events that fall within the window. -/
def correlate (speech visual : List TimedEvent) (window : FusionWindow) :
    Except Failure (List MultimodalCooccurrence) := do
  let pairs ← (ordered speech).mapM (correlateOne · (ordered visual) window)
  return pairs.flatten

/-- Correlate the finalized events of the two modalities. -/
def fuse (speechEvents : List SpeechEvent) (visualEvents : List VisualEvent)
    (window : FusionWindow) : Except Failure (List MultimodalCooccurrence) :=
  let speech : List TimedEvent :=
    (speechEvents.filter (·.isFinal)).map fun e => ⟨e.id, e.interval⟩
  let visual : List TimedEvent :=
    (visualEvents.filter (·.isFinal)).map fun e => ⟨e.id, e.interval⟩
  if speech.isEmpty || visual.isEmpty then .ok []
  else correlate speech visual window

theorem Interval.gapTo_nonneg (i j : Interval) : 0 ≤ i.gapTo j := by
  unfold gapTo
  split_ifs with hoverlap hbefore
  · exact le_rfl
  · omega
  · rw [overlaps_iff] at hoverlap
    omega

theorem correlateOne_isOk (speechEvent : TimedEvent) (visual : List TimedEvent)
    (window : FusionWindow) : ∃ pairs, correlateOne speechEvent visual window = .ok pairs := by
  apply Except.mapM_isOk
  intro visualEvent hm
  have hadmits := (List.mem_filter.1 hm).2
  unfold MultimodalCooccurrence.of
  rw [dif_pos (Interval.gapTo_nonneg _ _), dif_pos hadmits]
  exact ⟨_, rfl⟩

theorem correlate_isOk (speech visual : List TimedEvent) (window : FusionWindow) :
    ∃ pairs, correlate speech visual window = .ok pairs := by
  obtain ⟨pairs, hpairs⟩ := Except.mapM_isOk (l := ordered speech) fun e _ =>
    correlateOne_isOk e (ordered visual) window
  exact ⟨pairs.flatten, by rw [correlate, hpairs]; rfl⟩

theorem fuse_isOk (speechEvents : List SpeechEvent) (visualEvents : List VisualEvent)
    (window : FusionWindow) : ∃ pairs, fuse speechEvents visualEvents window = .ok pairs := by
  dsimp only [fuse]
  split_ifs
  · exact ⟨[], rfl⟩
  · exact correlate_isOk _ _ window

end OratoriaEngine
