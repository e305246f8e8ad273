import OratoriaEngine.EvidenceLedger
import OratoriaEngine.Lib.Stateful
import Mathlib.Data.List.Sort
import Mathlib.Data.String.Basic

/-!
# An append-only ledger

The three operations of the ledger with their refusals, and its two read paths. A call
either leaves the ledger alone or records one more version of one event, and no version
follows a final one.
-/

namespace OratoriaEngine

namespace LedgerEntry

/-- The key `(start, end, id)` of one entry does not exceed that of the other. -/
def orderingLe (a b : LedgerEntry) : Prop :=
  a.interval.start.ms < b.interval.start.ms ∨ a.interval.start.ms = b.interval.start.ms ∧
    (a.interval.stop.ms < b.interval.stop.ms ∨ a.interval.stop.ms = b.interval.stop.ms ∧
      a.eventId.value ≤ b.eventId.value)

instance : DecidableRel orderingLe := fun _ _ => inferInstanceAs (Decidable (_ ∨ _))

instance : Std.Total orderingLe where
  total a b := by
    unfold orderingLe
    rcases le_total a.eventId.value b.eventId.value with h | h <;> grind

instance : IsTrans LedgerEntry orderingLe where
  trans a b c hab hbc := by
    unfold orderingLe at *
    have ht : a.eventId.value ≤ b.eventId.value → b.eventId.value ≤ c.eventId.value →
        a.eventId.value ≤ c.eventId.value := le_trans
    grind

end LedgerEntry

def Versions.all (v : Versions) : List LedgerEntry := v.earlier ++ [v.current]

namespace EvidenceLedger

open Stateful

/-- Every version of one event, oldest first: the audit trail for one finding. -/
def historyOf (l : EvidenceLedger) (id : EventId) : List LedgerEntry :=
  match l.history.get? id with
  | none => []
  | some versions => versions.all

/-- Current versions of every event, ordered by interval and then by identity. -/
def allCurrent (l : EvidenceLedger) : List LedgerEntry :=
  (l.history.values.map Versions.current).insertionSort LedgerEntry.orderingLe

/-- `versions.append(entry)`, or the first version of a new event. -/
def record (l : EvidenceLedger) (id : EventId) (entry : LedgerEntry) : EvidenceLedger :=
  { l with history := l.history.set id ⟨l.historyOf id, entry⟩ }

/-- One operation of the ledger with its arguments. -/
inductive Call
  | append (id : EventId) (interval : Interval) (provenance : Provenance) (isFinal : Bool)
      (payload : List (String × String))
  | revise (id : EventId) (interval : Interval) (provenance : Provenance) (isFinal : Bool)
      (payload : List (String × String))
  | finalize (id : EventId)

/-- The call, statement by statement: every refusal comes before the first assignment. -/
def Call.perform : Call → Stateful EvidenceLedger Failure LedgerEntry
  | .append id interval provenance isFinal payload => do
      let l ← get
      if l.contains id then
        throw (.evidenceLedgerViolation
          s!"event {id.value} is already in the ledger; use revise() to change it")
      let entry : LedgerEntry := ⟨id, 0, interval, provenance, isFinal, payload⟩
      set (l.record id entry)
      return entry
  | .revise id interval provenance isFinal payload => do
      let l ← get
      match l.current? id with
      | none => throw (.evidenceLedgerViolation
          s!"event {id.value} is not in the ledger; use append() for a new event")
      | some current =>
          if current.isFinal then
            throw (.evidenceLedgerViolation
              (s!"event {id.value} was finalized at revision {current.revision}; " ++
                "finalized history is never rewritten"))
          let entry : LedgerEntry :=
            ⟨id, current.revision + 1, interval, provenance, isFinal, payload⟩
          set (l.record id entry)
          return entry
  | .finalize id => do
      let l ← get
      match l.current? id with
      | none => throw (.evidenceLedgerViolation s!"event {id.value} is not in the ledger")
      | some current =>
          if current.isFinal then return current
          let entry := { current with revision := current.revision + 1, isFinal := true }
          set (l.record id entry)
          return entry

/-- The ledger after the call, returned or refused. -/
def after (l : EvidenceLedger) (c : Call) : EvidenceLedger := (exec c.perform l).2

/-- The ledger after the calls, one after the other. -/
def run (l : EvidenceLedger) (calls : List Call) : EvidenceLedger := calls.foldl after l

/-- The versions of one event: its own, numbered from zero, and none after a final one. -/
structure WellKept (id : EventId) (entries : List LedgerEntry) : Prop where
  own : ∀ e ∈ entries, e.eventId = id
  numbered : entries.map LedgerEntry.revision = List.range entries.length
  finalLast : ∀ earlier e later, entries = earlier ++ e :: later → e.isFinal = true → later = []

/-- The version a call may record next for an event. -/
structure Successor (l : EvidenceLedger) (id : EventId) (entry : LedgerEntry) : Prop where
  own : entry.eventId = id
  numbered : entry.revision = (l.historyOf id).length
  provisional : ∀ e ∈ l.historyOf id, e.isFinal = false

theorem wellKept_nil (id : EventId) : WellKept id [] where
  own := by simp
  numbered := rfl
  finalLast := by simp

theorem WellKept.snoc {l : EvidenceLedger} {id : EventId} {entry : LedgerEntry}
    (h : WellKept id (l.historyOf id)) (hs : Successor l id entry) :
    WellKept id (l.historyOf id ++ [entry]) where
  own e he := by
    rcases List.mem_append.1 he with hold | hnew
    · exact h.own e hold
    · rw [List.mem_singleton.1 hnew, hs.own]
  numbered := by
    rw [List.map_append, h.numbered, List.length_append, List.length_singleton,
      List.range_succ, List.map_singleton, hs.numbered]
  finalLast earlier e later hsplit hfinal := by
    rcases List.eq_nil_or_concat later with hnil | ⟨later, last, rfl⟩
    · exact hnil
    · have hlists : l.historyOf id = earlier ++ e :: later := by
        have hconcat : l.historyOf id ++ [entry] = (earlier ++ e :: later) ++ [last] := by
          simpa using hsplit
        exact (List.append_inj' hconcat rfl).1
      have hopen := hs.provisional e (by simp [hlists])
      rw [hfinal] at hopen
      cases hopen

@[simp] theorem historyOf_record_self (l : EvidenceLedger) (id : EventId) (entry : LedgerEntry) :
    (l.record id entry).historyOf id = l.historyOf id ++ [entry] := by
  simp only [historyOf, record, Dict.get?_set_self, Versions.all]

theorem historyOf_record_ne (l : EvidenceLedger) {id other : EventId} (entry : LedgerEntry)
    (h : other ≠ id) : (l.record id entry).historyOf other = l.historyOf other := by
  simp only [historyOf, record, Dict.get?_set_ne _ _ h]

theorem current?_eq_getLast? (l : EvidenceLedger) (id : EventId) :
    l.current? id = (l.historyOf id).getLast? := by
  unfold current? historyOf
  cases l.history.get? id with
  | none => rfl
  | some versions => simp [Versions.all]

theorem historyOf_eq_nil_iff (l : EvidenceLedger) (id : EventId) :
    l.historyOf id = [] ↔ l.contains id = false := by
  unfold historyOf contains Dict.contains
  cases l.history.get? id with
  | none => simp
  | some versions => simp [Versions.all]

theorem historyOf_record_eq_nil_iff (l : EvidenceLedger) (target id : EventId)
    (entry : LedgerEntry) :
    (l.record target entry).historyOf id = [] ↔ l.historyOf id = [] ∧ id ≠ target := by
  by_cases hid : id = target
  · subst hid
    simp
  · simp [historyOf_record_ne l entry hid, hid]

theorem successor_of_current {l : EvidenceLedger} {id : EventId} {current entry : LedgerEntry}
    (h : WellKept id (l.historyOf id)) (hcurrent : l.current? id = some current)
    (hopen : current.isFinal = false) (hown : entry.eventId = id)
    (hnext : entry.revision = current.revision + 1) : Successor l id entry := by
  rw [current?_eq_getLast?] at hcurrent
  obtain ⟨earlier, hsplit⟩ := List.getLast?_eq_some_iff.1 hcurrent
  have hnumbered := h.numbered
  rw [hsplit, List.map_append, List.length_append, List.length_singleton, List.range_succ,
    List.map_singleton] at hnumbered
  have hrevision : current.revision = earlier.length := by
    have hlast := (List.append_inj' hnumbered rfl).2
    simpa using hlast
  refine ⟨hown, by rw [hnext, hrevision, hsplit]; simp, fun e he => ?_⟩
  rw [hsplit] at he
  rcases List.mem_append.1 he with hold | hlast
  · obtain ⟨before, later, rfl⟩ := List.append_of_mem hold
    by_contra hfinal
    have hnil := h.finalLast before e (later ++ [current]) (by simp [hsplit])
      (Bool.eq_true_of_not_eq_false hfinal)
    simp at hnil
  · rw [List.mem_singleton.1 hlast]
    exact hopen

theorem after_of_refused {l : EvidenceLedger} {c : Call} {failure : Failure}
    (h : (exec c.perform l).1 = .error failure) : l.after c = l := by
  unfold after
  cases c with
  | append id interval provenance isFinal payload =>
      simp only [Call.perform, exec_get_bind] at h ⊢
      split_ifs at h ⊢
      · rfl
      · cases h
  | revise id interval provenance isFinal payload =>
      simp only [Call.perform, exec_get_bind] at h ⊢
      split at h
      · rfl
      · split_ifs at h ⊢
        · rfl
        · cases h
  | finalize id =>
      simp only [Call.perform, exec_get_bind] at h ⊢
      split at h
      · rfl
      · split_ifs at h ⊢
        · rfl
        · cases h

/-- A call leaves the ledger alone, or records and returns the next version of one event. -/
theorem perform_cases (l : EvidenceLedger) (h : ∀ id, WellKept id (l.historyOf id)) (c : Call) :
    l.after c = l ∨ ∃ id entry, Successor l id entry ∧
      exec c.perform l = (.ok entry, l.record id entry) := by
  unfold after
  cases c with
  | append id interval provenance isFinal payload =>
      simp only [Call.perform, exec_get_bind]
      split_ifs with hold
      · exact Or.inl rfl
      · have hnil := (historyOf_eq_nil_iff l id).2 (Bool.eq_false_of_not_eq_true hold)
        exact Or.inr ⟨id, _, ⟨rfl, by rw [hnil]; rfl, by simp [hnil]⟩, rfl⟩
  | revise id interval provenance isFinal payload =>
      simp only [Call.perform, exec_get_bind]
      split
      · exact Or.inl rfl
      · rename_i current hcurrent
        split_ifs with hfinal
        · exact Or.inl rfl
        · exact Or.inr ⟨id, _, successor_of_current (h id) hcurrent
            (Bool.eq_false_of_not_eq_true hfinal) rfl rfl, rfl⟩
  | finalize id =>
      simp only [Call.perform, exec_get_bind]
      split
      · exact Or.inl rfl
      · rename_i current hcurrent
        split_ifs with hfinal
        · exact Or.inl rfl
        · have hown := (h id).own current (List.mem_of_getLast? (by
            rw [← current?_eq_getLast?, hcurrent]))
          let entry := { current with revision := current.revision + 1, isFinal := true }
          exact Or.inr ⟨id, entry, successor_of_current (h id) hcurrent
            (Bool.eq_false_of_not_eq_true hfinal) hown rfl, rfl⟩

theorem wellKept_after {l : EvidenceLedger} (h : ∀ id, WellKept id (l.historyOf id)) (c : Call)
    (id : EventId) : WellKept id ((l.after c).historyOf id) := by
  rcases perform_cases l h c with hsame | ⟨target, entry, hs, hexec⟩
  · rw [hsame]
    exact h id
  · rw [after, hexec]
    by_cases hid : id = target
    · subst hid
      rw [historyOf_record_self]
      exact (h id).snoc hs
    · rw [historyOf_record_ne l entry hid]
      exact h id

theorem historyOf_prefix_after {l : EvidenceLedger} (h : ∀ id, WellKept id (l.historyOf id))
    (c : Call) (id : EventId) : l.historyOf id <+: (l.after c).historyOf id := by
  rcases perform_cases l h c with hsame | ⟨target, entry, -, hexec⟩
  · exact ⟨[], by rw [hsame, List.append_nil]⟩
  · rw [after, hexec]
    by_cases hid : id = target
    · subst hid
      rw [historyOf_record_self]
      exact List.prefix_append _ _
    · exact ⟨[], by rw [historyOf_record_ne l entry hid, List.append_nil]⟩

theorem historyOf_after_eq_nil_iff (l : EvidenceLedger) (c : Call) (id : EventId) :
    (l.after c).historyOf id = [] ↔ l.historyOf id = [] ∧
      ∀ interval provenance isFinal payload,
        c ≠ .append id interval provenance isFinal payload := by
  have hcurrent : ∀ {target current}, l.current? target = some current →
      l.historyOf id = [] → id ≠ target := by
    rintro target current hsome hnil rfl
    rw [current?_eq_getLast?, hnil] at hsome
    cases hsome
  unfold after
  cases c with
  | append target interval provenance isFinal payload =>
      simp only [Call.perform, exec_get_bind]
      split_ifs with hold
      · have hne : l.historyOf id = [] → id ≠ target := by
          rintro hnil rfl
          rw [(historyOf_eq_nil_iff l id).1 hnil] at hold
          cases hold
        simp only [ne_eq, Call.append.injEq, not_and]
        exact ⟨fun hnil => ⟨hnil, fun _ _ _ _ htarget => absurd htarget.symm (hne hnil)⟩,
          fun h => h.1⟩
      · change (l.record target _).historyOf id = [] ↔ _
        rw [historyOf_record_eq_nil_iff]
        refine and_congr_right fun _ => ⟨?_, ?_⟩
        · rintro hne _ _ _ _ hcall
          cases hcall
          exact hne rfl
        · rintro hcall rfl
          exact hcall _ _ _ _ rfl
  | revise target interval provenance isFinal payload =>
      simp only [Call.perform, exec_get_bind]
      split
      · simp
      · rename_i current hsome
        split_ifs with hfinal
        · simp
        · change (l.record target _).historyOf id = [] ↔ _
          rw [historyOf_record_eq_nil_iff]
          simpa using hcurrent hsome
  | finalize target =>
      simp only [Call.perform, exec_get_bind]
      split
      · simp
      · rename_i current hsome
        split_ifs with hfinal
        · simp
        · change (l.record target _).historyOf id = [] ↔ _
          rw [historyOf_record_eq_nil_iff]
          simpa using hcurrent hsome

/-- The coordinator's `append` is the call, with its refusal and its effect in one result. -/
theorem append_eq_perform (l : EvidenceLedger) (id : EventId) (interval : Interval)
    (provenance : Provenance) (isFinal : Bool) (payload : List (String × String)) :
    l.append id interval provenance isFinal payload =
      (exec (Call.append id interval provenance isFinal payload).perform l).1.map
        fun _ => l.after (.append id interval provenance isFinal payload) := by
  unfold append after
  simp only [Call.perform, exec_get_bind]
  split_ifs with hold
  · rfl
  · have hnil := (historyOf_eq_nil_iff l id).2 (Bool.eq_false_of_not_eq_true hold)
    change _ = Except.ok (l.record id _)
    rw [record, hnil]

/-- The coordinator's `finalize` is the call, with its refusal and its effect in one result. -/
theorem finalize_eq_perform (l : EvidenceLedger) (id : EventId) :
    l.finalize id = (exec (Call.finalize id).perform l).1.map fun _ => l.after (.finalize id) := by
  unfold finalize after
  simp only [Call.perform, exec_get_bind, current?]
  cases hget : l.history.get? id with
  | none => rfl
  | some versions =>
      simp only [Option.map_some]
      split_ifs with hfinal
      · rfl
      · change _ = Except.ok (l.record id _)
        simp only [record, historyOf, hget, Versions.all]

@[simp] theorem run_nil (l : EvidenceLedger) : l.run [] = l := rfl

@[simp] theorem run_cons (l : EvidenceLedger) (c : Call) (calls : List Call) :
    l.run (c :: calls) = (l.after c).run calls := rfl

theorem run_append (l : EvidenceLedger) (before later : List Call) :
    l.run (before ++ later) = (l.run before).run later := List.foldl_append

theorem wellKept_run {l : EvidenceLedger} (h : ∀ id, WellKept id (l.historyOf id))
    (calls : List Call) (id : EventId) : WellKept id ((l.run calls).historyOf id) := by
  induction calls generalizing l with
  | nil => exact h id
  | cons c rest ih => exact ih (wellKept_after h c)

theorem historyOf_prefix_run {l : EvidenceLedger} (h : ∀ id, WellKept id (l.historyOf id))
    (calls : List Call) (id : EventId) : l.historyOf id <+: (l.run calls).historyOf id := by
  induction calls generalizing l with
  | nil => exact List.prefix_refl _
  | cons c rest ih => exact (historyOf_prefix_after h c id).trans (ih (wellKept_after h c))

theorem historyOf_run_eq_nil_iff (l : EvidenceLedger) (calls : List Call) (id : EventId) :
    (l.run calls).historyOf id = [] ↔ l.historyOf id = [] ∧
      ∀ interval provenance isFinal payload,
        .append id interval provenance isFinal payload ∉ calls := by
  induction calls generalizing l with
  | nil => simp
  | cons c rest ih =>
      rw [run_cons, ih, historyOf_after_eq_nil_iff]
      simp only [List.mem_cons, not_or, and_assoc, ← forall_and, ne_comm, ne_eq]

theorem mem_allCurrent_iff (l : EvidenceLedger) (entry : LedgerEntry) :
    entry ∈ l.allCurrent ↔ ∃ id, (l.historyOf id).getLast? = some entry := by
  rw [allCurrent, List.mem_insertionSort, List.mem_map]
  simp only [Dict.mem_values_iff, ← current?_eq_getLast?, current?, Option.map_eq_some_iff]
  constructor
  · rintro ⟨versions, ⟨id, hget⟩, hcurrent⟩
    exact ⟨id, versions, hget, hcurrent⟩
  · rintro ⟨id, versions, hget, hcurrent⟩
    exact ⟨versions, ⟨id, hget⟩, hcurrent⟩

theorem mem_allCurrent_own_iff {l : EvidenceLedger} (h : ∀ id, WellKept id (l.historyOf id))
    (id : EventId) (entry : LedgerEntry) :
    entry ∈ l.allCurrent ∧ entry.eventId = id ↔ (l.historyOf id).getLast? = some entry := by
  rw [mem_allCurrent_iff]
  constructor
  · rintro ⟨⟨other, hlast⟩, rfl⟩
    rw [(h other).own entry (List.mem_of_getLast? hlast)]
    exact hlast
  · intro hlast
    exact ⟨⟨id, hlast⟩, (h id).own entry (List.mem_of_getLast? hlast)⟩

theorem nodup_allCurrent {l : EvidenceLedger} (h : ∀ id, WellKept id (l.historyOf id)) :
    (l.allCurrent.map LedgerEntry.eventId).Nodup := by
  have hperm : (l.allCurrent.map LedgerEntry.eventId).Perm l.history.keys := by
    have hsort := (List.perm_insertionSort LedgerEntry.orderingLe
      (l.history.values.map Versions.current)).map LedgerEntry.eventId
    have hkeys : (l.history.values.map Versions.current).map LedgerEntry.eventId =
        l.history.keys := by
      rw [Dict.values, Dict.keys, List.map_map, List.map_map]
      apply List.map_congr_left
      intro pair hpair
      have hget := (Dict.get?_eq_some_iff_mem l.history pair.1 pair.2).2 hpair
      have hlast : (l.historyOf pair.1).getLast? = some pair.2.current := by
        rw [← current?_eq_getLast?, current?, hget, Option.map_some]
      exact (h pair.1).own _ (List.mem_of_getLast? hlast)
    rw [hkeys] at hsort
    exact hsort
  exact hperm.nodup_iff.2 l.history.nodup

theorem ordered_allCurrent (l : EvidenceLedger) :
    l.allCurrent.Pairwise LedgerEntry.orderingLe := List.pairwise_insertionSort _ _

/-- What holds of a ledger after every run of calls, the refused ones included. -/
structure AppendOnly (l : EvidenceLedger) (calls : List Call) : Prop where
  grows : ∀ before later id, calls = before ++ later →
    (l.run before).historyOf id <+: (l.run calls).historyOf id
  wellKept : ∀ id, WellKept id ((l.run calls).historyOf id)
  settled : ∀ before later id entry, calls = before ++ later →
    entry ∈ (l.run before).historyOf id → entry.isFinal = true →
      (l.run calls).historyOf id = (l.run before).historyOf id
  refused : ∀ before c later failure, calls = before ++ c :: later →
    (exec c.perform (l.run before)).1 = .error failure → l.run (before ++ [c]) = l.run before
  known : ∀ id, (∃ entry ∈ (l.run calls).allCurrent, entry.eventId = id) ↔
    ∃ interval provenance isFinal payload, .append id interval provenance isFinal payload ∈ calls
  current : ∀ id entry, entry ∈ (l.run calls).allCurrent ∧ entry.eventId = id ↔
    ((l.run calls).historyOf id).getLast? = some entry
  single : ((l.run calls).allCurrent.map LedgerEntry.eventId).Nodup
  ordered : (l.run calls).allCurrent.Pairwise LedgerEntry.orderingLe

theorem eq_of_grown_of_final {id : EventId} {entries entries' : List LedgerEntry}
    (h : WellKept id entries') (hgrown : entries <+: entries') {entry : LedgerEntry}
    (hmem : entry ∈ entries) (hfinal : entry.isFinal = true) : entries' = entries := by
  obtain ⟨later, rfl⟩ := hgrown
  obtain ⟨before, rest, rfl⟩ := List.append_of_mem hmem
  have hnil := h.finalLast before entry (rest ++ later) (by simp) hfinal
  obtain ⟨-, rfl⟩ := List.append_eq_nil_iff.1 hnil
  exact List.append_nil _

/-- Every run of calls on a fresh ledger only appends to it. -/
theorem appendOnly_run (runId : RunId) (calls : List Call) : (empty runId).AppendOnly calls := by
  have hempty : ∀ id, WellKept id ((empty runId).historyOf id) := wellKept_nil
  have hwell := wellKept_run hempty
  have hgrows : ∀ before later id, calls = before ++ later →
      ((empty runId).run before).historyOf id <+: ((empty runId).run calls).historyOf id := by
    rintro before later id rfl
    rw [run_append]
    exact historyOf_prefix_run (hwell before) later id
  refine ⟨hgrows, hwell calls, ?_, ?_, ?_, mem_allCurrent_own_iff (hwell calls),
    nodup_allCurrent (hwell calls), ordered_allCurrent _⟩
  · intro before later id entry hsplit hmem hfinal
    exact eq_of_grown_of_final (hwell calls id) (hgrows before later id hsplit) hmem hfinal
  · intro before c later failure _ hrefused
    rw [run_append]
    exact after_of_refused hrefused
  · intro id
    have hnil := historyOf_run_eq_nil_iff (empty runId) calls id
    have hknown : (∃ entry ∈ ((empty runId).run calls).allCurrent, entry.eventId = id) ↔
        ((empty runId).run calls).historyOf id ≠ [] := by
      simp only [mem_allCurrent_own_iff (hwell calls), ← List.getLast?_isSome,
        Option.isSome_iff_exists]
    rw [hknown, ne_eq, hnil]
    have hfresh : (empty runId).historyOf id = [] := rfl
    simp only [hfresh, true_and, not_forall, not_not]

end EvidenceLedger

end OratoriaEngine
