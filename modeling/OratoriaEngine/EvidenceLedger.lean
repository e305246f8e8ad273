import OratoriaEngine.SpeechEvents
import OratoriaEngine.Lib.Dict

/-!
# The evidence ledger

An append-only history of the versions of every event. The versions of one event
are a non-empty list, kept as the earlier ones and the current one.
-/

namespace OratoriaEngine

structure LedgerEntry where
  eventId : EventId
  revision : ℕ
  interval : Interval
  provenance : Provenance
  isFinal : Bool
  payload : List (String × String)
  deriving DecidableEq

/-- The versions of one event, oldest first, ending with the current one. -/
structure Versions where
  earlier : List LedgerEntry
  current : LedgerEntry
  deriving DecidableEq

structure EvidenceLedger where
  runId : RunId
  history : Dict EventId Versions
  deriving DecidableEq

namespace EvidenceLedger

def empty (runId : RunId) : EvidenceLedger := ⟨runId, .empty⟩

def contains (l : EvidenceLedger) (id : EventId) : Bool := l.history.contains id

/-- The current version of an event, if the ledger knows the event. -/
def current? (l : EvidenceLedger) (id : EventId) : Option LedgerEntry :=
  (l.history.get? id).map Versions.current

@[simp] theorem current?_empty (runId : RunId) (id : EventId) :
    (empty runId).current? id = none := rfl

def append (l : EvidenceLedger) (id : EventId) (interval : Interval) (provenance : Provenance)
    (isFinal : Bool) (payload : List (String × String)) : Except Failure EvidenceLedger :=
  if l.contains id then
    .error (.evidenceLedgerViolation
      s!"event {id.value} is already in the ledger; use revise() to change it")
  else .ok { l with
    history := l.history.set id ⟨[], ⟨id, 0, interval, provenance, isFinal, payload⟩⟩ }

/-- Freeze an event at its current content. -/
def finalize (l : EvidenceLedger) (id : EventId) : Except Failure EvidenceLedger :=
  match l.history.get? id with
  | none => .error (.evidenceLedgerViolation s!"event {id.value} is not in the ledger")
  | some versions =>
      let current := versions.current
      if current.isFinal then .ok l
      else
        let entry := { current with revision := current.revision + 1, isFinal := true }
        .ok { l with history := l.history.set id ⟨versions.earlier ++ [current], entry⟩ }

theorem current?_eq_none_of_contains {l : EvidenceLedger} {id : EventId}
    (h : l.contains id = false) : l.current? id = none := by
  rw [current?, (Dict.contains_eq_false_iff _ _).1 h]
  rfl

theorem exists_current_of_contains {l : EvidenceLedger} {id : EventId}
    (h : l.contains id = true) : ∃ entry, l.current? id = some entry := by
  unfold contains Dict.contains at h
  obtain ⟨versions, hv⟩ := Option.isSome_iff_exists.1 h
  exact ⟨versions.current, by simp [current?, hv]⟩

theorem append_of_not_contains {l : EvidenceLedger} {id : EventId}
    (h : l.contains id = false) (interval : Interval) (provenance : Provenance) (isFinal : Bool)
    (payload : List (String × String)) :
    ∃ l', l.append id interval provenance isFinal payload = .ok l' ∧
      l'.current? id = some ⟨id, 0, interval, provenance, isFinal, payload⟩ ∧
      ∀ id', id' ≠ id → l'.current? id' = l.current? id' := by
  refine ⟨_, by simp [append, h]; rfl, by simp [current?], fun id' hne => ?_⟩
  simp [current?, Dict.get?_set_ne _ _ hne]

theorem finalize_of_current {l : EvidenceLedger} {id : EventId} {entry : LedgerEntry}
    (h : l.current? id = some entry) :
    ∃ l' entry', l.finalize id = .ok l' ∧ l'.current? id = some entry' ∧
      entry'.isFinal = true ∧ entry'.interval = entry.interval ∧
      (entry.isFinal = true → l' = l) ∧ ∀ id', id' ≠ id → l'.current? id' = l.current? id' := by
  obtain ⟨versions, hv, rfl⟩ := Option.map_eq_some_iff.1 h
  by_cases hf : versions.current.isFinal = true
  · exact ⟨l, versions.current, by simp [finalize, hv, hf], h, hf, rfl, fun _ => rfl,
      fun _ _ => rfl⟩
  · let entry := { versions.current with
      revision := versions.current.revision + 1, isFinal := true }
    refine ⟨{ l with history := l.history.set id ⟨versions.earlier ++ [versions.current], entry⟩ },
      entry, by simp [finalize, hv, hf, entry], by simp [current?], rfl, rfl,
      fun hc => absurd hc hf, fun id' hne => ?_⟩
    simp [current?, Dict.get?_set_ne _ _ hne]

end EvidenceLedger

end OratoriaEngine
