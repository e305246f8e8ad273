import OratoriaEngine.ReconcileSteps

/-!
# The silent pauses a reconciliation leaves in the dictionary

A gap is a pair of consecutive words far enough apart. Pause derivation makes one
event for each gap of the final words, and enters it unless its identifier is taken.
-/

namespace OratoriaEngine

/-- Consecutive words that are at least the threshold apart. -/
def gaps (thresholdMs : ℤ) (words : List WordToken) : List (WordToken × WordToken) :=
  (words.zip words.tail).filter fun gap =>
    thresholdMs ≤ gap.2.interval.start.ms - gap.1.interval.stop.ms

/-- The event is the silent pause that fills the gap. -/
structure IsPauseOf (e : SpeechEvent) (gap : WordToken × WordToken) : Prop where
  silent : e.type = .silentPause
  start : e.interval.start.ms = gap.1.interval.stop.ms
  stop : e.interval.stop.ms = gap.2.interval.start.ms

instance (e : SpeechEvent) (gap : WordToken × WordToken) : Decidable (IsPauseOf e gap) :=
  decidable_of_iff (e.type = .silentPause ∧ e.interval.start.ms = gap.1.interval.stop.ms ∧
    e.interval.stop.ms = gap.2.interval.start.ms)
    ⟨fun h => ⟨h.1, h.2.1, h.2.2⟩, fun h => ⟨h.silent, h.start, h.stop⟩⟩

theorem IsPauseOf.finalize {e : SpeechEvent} {gap : WordToken × WordToken} (h : IsPauseOf e gap) :
    IsPauseOf e.finalize gap :=
  ⟨(e.finalize_type).trans h.silent, by rw [e.finalize_interval, h.start],
    by rw [e.finalize_interval, h.stop]⟩

def pauseKey (digest : String → String) (runId : RunId) (gap : WordToken × WordToken) : String :=
  (deriveEventId digest runId SpeechEventType.silentPause.value gap.1.interval.stop.ms "").value

variable {thresholdMs : ℤ} {gap : WordToken × WordToken}

theorem gaps_cons_cons (previous following : WordToken) (rest : List WordToken) :
    gaps thresholdMs (previous :: following :: rest) =
      if thresholdMs ≤ following.interval.start.ms - previous.interval.stop.ms then
        (previous, following) :: gaps thresholdMs (following :: rest)
      else gaps thresholdMs (following :: rest) := by
  simp only [gaps, List.tail_cons, List.zip_cons_cons, List.filter_cons, decide_eq_true_eq]

theorem mem_gaps_cons_cons {previous following : WordToken} {rest : List WordToken} :
    gap ∈ gaps thresholdMs (previous :: following :: rest) ↔
      (gap = (previous, following) ∧
        thresholdMs ≤ following.interval.start.ms - previous.interval.stop.ms) ∨
      gap ∈ gaps thresholdMs (following :: rest) := by
  rw [gaps_cons_cons]
  split_ifs with hfar <;> simp [hfar]

theorem not_mem_gaps_of_length_lt {words : List WordToken} (h : words.length < 2) :
    gap ∉ gaps thresholdMs words := by
  match words, h with
  | [], _ => simp [gaps]
  | [_], _ => simp [gaps]

section Derivation

variable (digest : String → String) (runId : RunId)

/-- The event is the pause of the gap, under the identifier derived for it. -/
def Marks (e : SpeechEvent) (gap : WordToken × WordToken) : Prop :=
  IsPauseOf e gap ∧ e.id.value = pauseKey digest runId gap

/-- The event is the silent pause between two positions, under the identifier derived for it. -/
structure IsPauseAt (e : SpeechEvent) (startMs stopMs : ℤ) : Prop where
  silent : e.type = .silentPause
  start : e.interval.start.ms = startMs
  stop : e.interval.stop.ms = stopMs
  tolerance : e.interval.toleranceMs = Interval.defaultToleranceMs
  id : e.id = deriveEventId digest runId SpeechEventType.silentPause.value startMs ""

theorem pausesBetween_forall₂ {provenance : Provenance} (heard : provenance.modality = .audio)
    {words : List WordToken} (h : ∀ gap ∈ gaps thresholdMs words,
      gap.1.interval.stop.ms ≤ gap.2.interval.start.ms) :
    ∃ pauses, pausesBetween digest thresholdMs provenance runId words = .ok pauses ∧
      List.Forall₂ (fun e gap =>
        IsPauseAt digest runId e gap.1.interval.stop.ms gap.2.interval.start.ms)
        pauses (gaps thresholdMs words) := by
  induction words using pausesBetween.induct thresholdMs with
  | case1 previous following rest gapMs hnear ih =>
      rw [gaps_cons_cons, if_neg (not_le.2 hnear)] at h ⊢
      rw [pausesBetween, if_pos hnear]
      exact ih h
  | case2 previous following rest gapMs hfar ih =>
      rw [gaps_cons_cons, if_pos (not_lt.1 hfar)] at h ⊢
      have hhead : previous.interval.stop.ms ≤ following.interval.start.ms :=
        h _ List.mem_cons_self
      obtain ⟨interval, hinterval⟩ := Interval.of_isOk previous.interval.stop.nonneg hhead
      obtain ⟨pause, hpause⟩ : ∃ pause, SpeechEvent.of
          (deriveEventId digest runId SpeechEventType.silentPause.value previous.interval.stop.ms
            "") .silentPause interval .certain provenance "" none = .ok pause :=
        SpeechEvent.of_isOk heard rfl
      obtain ⟨pauses, hpauses, hmarks⟩ := ih fun gap hgap => h gap (List.mem_cons_of_mem _ hgap)
      obtain ⟨hid, htype, hspan, -⟩ := SpeechEvent.of_eq_ok hpause
      obtain ⟨hstart, hstop, htolerance⟩ := Interval.of_eq_ok hinterval
      rw [← hspan] at hstart hstop htolerance
      refine ⟨pause :: pauses, ?_, .cons ⟨htype, hstart, hstop, htolerance, hid⟩ hmarks⟩
      rw [pausesBetween, if_neg hfar]
      simp only [hinterval, hpause, hpauses, bind, Except.bind]
      rfl
  | case3 words hshort =>
      match words with
      | [] => exact ⟨[], rfl, .nil⟩
      | [_] => exact ⟨[], rfl, .nil⟩
      | a :: b :: l => exact absurd rfl (hshort a b l)

theorem IsPauseAt.marks {e : SpeechEvent}
    (h : IsPauseAt digest runId e gap.1.interval.stop.ms gap.2.interval.start.ms) :
    Marks digest runId e gap :=
  ⟨⟨h.silent, h.start, h.stop⟩, by rw [h.id]; rfl⟩

theorem pausesBetween_of_apart {provenance : Provenance} (heard : provenance.modality = .audio)
    {words : List WordToken} (h : ∀ gap ∈ gaps thresholdMs words,
      gap.1.interval.stop.ms ≤ gap.2.interval.start.ms) :
    ∃ pauses, pausesBetween digest thresholdMs provenance runId words = .ok pauses ∧
      (∀ gap ∈ gaps thresholdMs words, ∃ e ∈ pauses, Marks digest runId e gap) ∧
      ∀ e ∈ pauses, ∃ gap ∈ gaps thresholdMs words, Marks digest runId e gap := by
  obtain ⟨pauses, hpauses, hforall⟩ := pausesBetween_forall₂ digest runId heard h
  have hmarks := hforall.imp fun _ _ => IsPauseAt.marks digest runId
  exact ⟨pauses, hpauses, fun gap hgap => Except.exists_mem_of_forall₂ hmarks hgap,
    fun e he => Except.exists_mem_of_forall₂ hmarks.flip he⟩

end Derivation

namespace Coordinator

theorem setAll_unknownPauses_cons (d : Dict String SpeechEvent) (pause : SpeechEvent)
    (rest : List SpeechEvent) :
    d.setAll (keyed (unknownPauses d (pause :: rest))) =
      if d.contains pause.id.value then d.setAll (keyed (unknownPauses d rest))
      else (d.set pause.id.value pause.finalize).setAll
        (keyed (unknownPauses (d.set pause.id.value pause.finalize) rest)) := by
  rw [unknownPauses]
  split_ifs
  · rfl
  · rw [keyed, List.map_cons, Dict.setAll_cons, SpeechEvent.finalize_id]
    rfl

theorem get?_setAll_unknownPauses_of_get? {d : Dict String SpeechEvent} {key : String}
    {e : SpeechEvent} (h : d.get? key = some e) (pauses : List SpeechEvent) :
    (d.setAll (keyed (unknownPauses d pauses))).get? key = some e := by
  induction pauses generalizing d with
  | nil => exact h
  | cons pause rest ih =>
      rw [setAll_unknownPauses_cons]
      split_ifs with hk
      · exact ih h
      · have hne : key ≠ pause.id.value := fun heq => by
          rw [heq] at h
          exact hk (by rw [Dict.contains, h]; rfl)
        exact ih ((Dict.get?_set_ne _ _ hne).trans h)

theorem exists_get?_setAll_unknownPauses (d : Dict String SpeechEvent)
    {pauses : List SpeechEvent} {pause : SpeechEvent} (h : pause ∈ pauses) :
    ∃ e, (d.setAll (keyed (unknownPauses d pauses))).get? pause.id.value = some e ∧
      (d.get? pause.id.value = some e ∨
        ∃ p ∈ pauses, p.id.value = pause.id.value ∧ e = p.finalize) := by
  induction pauses generalizing d with
  | nil => cases h
  | cons first rest ih =>
      rw [setAll_unknownPauses_cons]
      split_ifs with hk
      · rcases List.mem_cons.1 h with rfl | h
        · obtain ⟨e, he⟩ := Option.isSome_iff_exists.1 hk
          exact ⟨e, get?_setAll_unknownPauses_of_get? he rest, .inl he⟩
        · obtain ⟨e, he, hold | ⟨p, hp, hid⟩⟩ := ih d h
          · exact ⟨e, he, .inl hold⟩
          · exact ⟨e, he, .inr ⟨p, List.mem_cons_of_mem _ hp, hid⟩⟩
      · by_cases hsame : first.id.value = pause.id.value
        · refine ⟨first.finalize, ?_, .inr ⟨first, List.mem_cons_self, hsame, rfl⟩⟩
          refine get?_setAll_unknownPauses_of_get? ?_ rest
          rw [← hsame, Dict.get?_set_self]
        · have hrest : pause ∈ rest := (List.mem_cons.1 h).resolve_left fun heq => by
            rw [heq] at hsame
            exact hsame rfl
          obtain ⟨e, he, hold | ⟨p, hp, hid⟩⟩ := ih (d.set first.id.value first.finalize) hrest
          · refine ⟨e, he, .inl ?_⟩
            rwa [Dict.get?_set_ne _ _ (Ne.symm hsame)] at hold
          · exact ⟨e, he, .inr ⟨p, List.mem_cons_of_mem _ hp, hid⟩⟩

end Coordinator

end OratoriaEngine
