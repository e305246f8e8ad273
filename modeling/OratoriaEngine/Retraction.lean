import OratoriaEngine.FinalizedHistory
import OratoriaEngine.Lib.Runs
import OratoriaEngine.SpeechSteps

/-!
# Retracted hypotheses

A runtime reports its whole active region with every result, and the transcript drops the words
it no longer reports. The dictionary of speech events drops nothing: an event that a later result
does not report again stays provisional, and is promoted like the others.
-/

namespace OratoriaEngine.Coordinator

open Stateful

variable (c : Coordinator)

def Reports (result : SpeechResult) (e : SpeechEvent) : Prop :=
  ∃ hypothesis ∈ result.events, deriveEventId c.speechAssembler.digest c.speechAssembler.runId
    hypothesis.type.value hypothesis.startMs hypothesis.rawText = e.id

instance (result : SpeechResult) (e : SpeechEvent) : Decidable (c.Reports result e) :=
  inferInstanceAs (Decidable (∃ _ ∈ _, _))

/-- A stream, and the last result the speech runtime returned to it. -/
structure Heard where
  stream : Stream
  latest : Option SpeechResult

/-- Nothing was streamed yet. -/
def Heard.fresh (runId : RunId) (sessionId : SessionId) : Heard := ⟨.fresh runId sessionId, none⟩

def hear (s : Heard) (r : Request) : Heard :=
  ⟨c.after s.stream r, (c.transcribed s.stream r).or s.latest⟩

def Contained (s : Heard) (e : SpeechEvent) : Prop := ∃ result ∈ s.latest, c.Reports result e

def Provisional (t : Stream) (e : SpeechEvent) : Prop :=
  e ∈ t.state.speechEvents.values ∧ e.isFinal = false

def Promotes (t : Stream) (r : Request) (e : SpeechEvent) : Prop :=
  (Provisional t e ∨ ∃ result ∈ c.transcribed t r, ∃ assembled,
    c.speechAssembler.assemble result = .ok assembled ∧ e ∈ assembled.events) ∧
      ∃ e', finalAt (c.after t r) e.id.value = some e'

def PromotesContained (s : Heard) (r : Request) : Prop :=
  ∀ e, c.Promotes s.stream r e → c.Contained (c.hear s r) e

/-- What a completion promotes, whatever session and configuration it completes with, the last
result contains. -/
def CompletesContained (s : Heard) : Prop :=
  ∀ session configuration tenant sessionId wallMs bundle document,
    assembleEvidence s.stream.state session configuration tenant sessionId wallMs =
      .ok (bundle, document) →
    ∀ e, Provisional s.stream e → e.finalize ∈ document.speechEvents → c.Contained s e

/-- No call of the run promotes a retracted hypothesis, and neither does a completion that follows
a call. -/
def NeverPromotesRetracted (s : Heard) (rs : List Request) : Prop :=
  Runs.EveryStep c.hear c.PromotesContained s rs ∧ Runs.Throughout c.hear c.CompletesContained s rs

/-- A result that the call is given reports again every event that is provisional. -/
def Repeats (s : Heard) (r : Request) : Prop :=
  ∀ result ∈ c.transcribed s.stream r, ∀ e, Provisional s.stream e → c.Reports result e

variable {c} {s : Heard} {r : Request} {t : Stream} {e : SpeechEvent}

theorem reports_of_mem_events {result : SpeechResult} {assembled : AssembledSpeech}
    (ha : c.speechAssembler.assemble result = .ok assembled) (he : e ∈ assembled.events) :
    c.Reports result e := by
  obtain ⟨hypothesis, hmem, hevent⟩ :=
    Except.mem_of_mapM_eq_ok (SpeechAssembler.assemble_eq_ok ha).2.1 he
  exact ⟨hypothesis, hmem, (SpeechAssembler.event_eq_ok hevent).2.symm⟩

theorem completesContained_iff :
    c.CompletesContained s ↔ ∀ e, Provisional s.stream e → c.Contained s e := by
  constructor
  · intro h e he
    obtain ⟨⟨bundle, document⟩, hassemble⟩ := (assembleEvidence_isOk_iff s.stream.state
      (studySession .capturing) defaultConfiguration studyTenant studySessionId 0).2 rfl
    apply h _ _ _ _ _ _ _ hassemble e he
    rw [(assembleEvidence_eq_ok hassemble).speechEvents]
    exact List.mem_map_of_mem he.1
  · intro h _ _ _ _ _ _ _ _ e he _
    exact h e he

theorem contained_hear_iff {result : SpeechResult} (h : c.transcribed s.stream r = some result) :
    c.Contained (c.hear s r) e ↔ c.Reports result e := by
  simp [Contained, hear, h]

theorem contained_hear_of_silent (h : c.transcribed s.stream r = none) :
    c.Contained (c.hear s r) e ↔ c.Contained s e := by
  simp [Contained, hear, h]

theorem get?_promotedState_cases (u : StreamingState) (stableThroughMs : ℤ) (key : String) :
    (promotedState u stableThroughMs).speechEvents.get? key = u.speechEvents.get? key ∨
      ∃ e, (promotedState u stableThroughMs).speechEvents.get? key = some e ∧
        e.isFinal = true := by
  rw [get?_promotedState]
  cases u.speechEvents.get? key with
  | none => exact Or.inl rfl
  | some e =>
      rw [Option.map_some]
      split_ifs
      · exact Or.inr ⟨_, rfl, e.finalize_isFinal⟩
      · exact Or.inl rfl

theorem get?_settled_cases (u : StreamingState) (stableThroughMs : ℤ) (pauses : List SpeechEvent)
    (key : String) :
    (reconciledState u stableThroughMs pauses).speechEvents.get? key = u.speechEvents.get? key ∨
      ∃ e, (reconciledState u stableThroughMs pauses).speechEvents.get? key = some e ∧
        e.isFinal = true := by
  rcases get?_reconciledState_cases u stableThroughMs pauses key with hold | ⟨pause, -, -, -, hnew⟩
  · rw [hold]
    exact get?_promotedState_cases u stableThroughMs key
  · exact Or.inr ⟨_, hnew, pause.finalize_isFinal⟩

theorem get?_after_cases (t : Stream) (r : Request) (key : String) :
    (c.after t r).state.speechEvents.get? key = t.state.speechEvents.get? key ∨
      (∃ e, finalAt (c.after t r) key = some e) ∨
      ∃ result ∈ c.transcribed t r, ∃ e, c.Reports result e ∧
        (c.after t r).state.speechEvents.get? key = some e := by
  have hassigned : ∀ {result assembled transcript}, c.Merges t r result assembled transcript →
      (withSpeech t transcript assembled).state.speechEvents.get? key =
          t.state.speechEvents.get? key ∨
        ∃ e, c.Reports result e ∧
          (withSpeech t transcript assembled).state.speechEvents.get? key = some e := by
    intro result assembled transcript merged
    rcases get?_withSpeech_cases t transcript assembled key with ⟨e, he, -, hget⟩ | hget
    · exact Or.inr ⟨e, reports_of_mem_events merged.assembles he, hget⟩
    · exact Or.inl hget
  cases c.speechStep_after t r with
  | untouched _ same => exact Or.inl (by rw [same.speechEvents])
  | assigned merged _ same =>
      rw [same.speechEvents]
      rcases hassigned merged with hold | ⟨e, hreports, hget⟩
      · exact Or.inl hold
      · exact Or.inr (Or.inr ⟨_, merged.returned, e, hreports, hget⟩)
  | @promoted _ assembled transcript _ _ merged _ _ same =>
      simp only [finalAt_eq_some, same.speechEvents]
      rcases get?_promotedState_cases (withSpeech t transcript assembled).state
        assembled.stableThroughMs key with hsame | ⟨e, hget, hfinal⟩
      · rw [hsame]
        rcases hassigned merged with hold | ⟨e, hreports, hget⟩
        · exact Or.inl hold
        · exact Or.inr (Or.inr ⟨_, merged.returned, e, hreports, hget⟩)
      · exact Or.inr (Or.inl ⟨e, hget, hfinal⟩)
  | @reconciled _ assembled transcript pauses _ merged _ _ same =>
      simp only [finalAt_eq_some, same.speechEvents]
      rcases get?_settled_cases (withSpeech t transcript assembled).state
        assembled.stableThroughMs pauses key with hsame | ⟨e, hget, hfinal⟩
      · rw [hsame]
        rcases hassigned merged with hold | ⟨e, hreports, hget⟩
        · exact Or.inl hold
        · exact Or.inr (Or.inr ⟨_, merged.returned, e, hreports, hget⟩)
      · exact Or.inr (Or.inl ⟨e, hget, hfinal⟩)

/-- The dictionary is keyed, and what is provisional in it the last result contains. -/
structure UpToDate (c : Coordinator) (s : Heard) : Prop where
  keyed : KeyedById s.stream.state
  contained : ∀ e, Provisional s.stream e → c.Contained s e

theorem upToDate_fresh (runId : RunId) (sessionId : SessionId) :
    c.UpToDate (.fresh runId sessionId) :=
  ⟨keyedById_fresh runId sessionId, fun _ h => absurd h.1 List.not_mem_nil⟩

theorem KeyedById.get?_of_provisional (h : KeyedById t.state) (he : Provisional t e) :
    t.state.speechEvents.get? e.id.value = some e := by
  obtain ⟨key, hget⟩ := (Dict.mem_values_iff _ _).1 he.1
  rwa [h key e hget]

theorem UpToDate.hear (h : c.UpToDate s) (hrepeats : c.Repeats s r) :
    c.PromotesContained s r ∧ c.UpToDate (c.hear s r) := by
  refine ⟨fun e ⟨hcandidate, e', hfinal⟩ => ?_, h.keyed.after c r, fun e he => ?_⟩
  · rcases hcandidate with hprov | ⟨result, hresult, assembled, ha, hmem⟩
    · cases hreturned : c.transcribed s.stream r with
      | none =>
          have hsame := (c.speechAgrees_after_of_silent hreturned).speechEvents
          rw [finalAt_congr hsame, finalAt_eq_some, h.keyed.get?_of_provisional hprov] at hfinal
          obtain ⟨heq, hfinal⟩ := hfinal
          cases heq
          exact absurd (hprov.2.symm.trans hfinal) Bool.false_ne_true
      | some result => exact (contained_hear_iff hreturned).2 (hrepeats _ hreturned e hprov)
    · exact (contained_hear_iff hresult).2 (reports_of_mem_events ha hmem)
  · have hget := (h.keyed.after c r).get?_of_provisional he
    rcases get?_after_cases (c := c) s.stream r e.id.value with
      hold | ⟨e', hfinal⟩ | ⟨result, hresult, e', hreports, hnew⟩
    · have hprov : Provisional s.stream e :=
        ⟨Dict.mem_values_of_get? (hold.symm.trans hget), he.2⟩
      cases hreturned : c.transcribed s.stream r with
      | none => exact (contained_hear_of_silent hreturned).2 (h.contained e hprov)
      | some result => exact (contained_hear_iff hreturned).2 (hrepeats _ hreturned e hprov)
    · obtain ⟨hget', hfinal⟩ := finalAt_eq_some.1 hfinal
      cases hget.symm.trans hget'
      exact absurd (he.2.symm.trans hfinal) Bool.false_ne_true
    · cases hget.symm.trans hnew
      exact (contained_hear_iff hresult).2 hreports

/-- A result that does not repeat something provisional is followed by its promotion, with this
call or by a completion. -/
theorem UpToDate.repeats (h : c.UpToDate s) (hpromotes : c.PromotesContained s r)
    (hcontained : ∀ e, Provisional (c.hear s r).stream e → c.Contained (c.hear s r) e) :
    c.Repeats s r := by
  intro result hresult e he
  have hget := h.keyed.get?_of_provisional he
  rcases get?_after_cases (c := c) s.stream r e.id.value with
    hold | hfinal | ⟨result', hresult', e', hreports, hnew⟩
  · exact (contained_hear_iff hresult).1
      (hcontained e ⟨Dict.mem_values_of_get? (hold.trans hget), he.2⟩)
  · exact (contained_hear_iff hresult).1 (hpromotes e ⟨Or.inl he, hfinal⟩)
  · cases hresult.symm.trans hresult'
    obtain ⟨hypothesis, hmem, hid⟩ := hreports
    have hsame : e'.id = e.id := EventId.ext_value (h.keyed.after c r _ _ hnew)
    exact ⟨hypothesis, hmem, hid.trans hsame⟩

theorem keyedById_foldl_hear (h : KeyedById s.stream.state) (rs : List Request) :
    KeyedById (rs.foldl c.hear s).stream.state := by
  induction rs generalizing s with
  | nil => exact h
  | cons r rs ih => exact ih (h.after c r)

/-- No run promotes a retracted hypothesis, in a call or by a completion after any of its calls,
exactly when every result repeats what is provisional when it comes. -/
theorem neverPromotesRetracted_iff (c : Coordinator) (runId : RunId) (sessionId : SessionId)
    (rs : List Request) :
    c.NeverPromotesRetracted (.fresh runId sessionId) rs ↔
      Runs.EveryStep c.hear c.Repeats (.fresh runId sessionId) rs := by
  have hkeyed : ∀ before : List Request,
      KeyedById (before.foldl c.hear (.fresh runId sessionId)).stream.state :=
    keyedById_foldl_hear (keyedById_fresh runId sessionId)
  have hthroughout : Runs.Throughout c.hear c.CompletesContained (.fresh runId sessionId) rs ↔
      Runs.Throughout c.hear c.UpToDate (.fresh runId sessionId) rs := by
    constructor
    · intro h before rest heq
      exact ⟨hkeyed before, completesContained_iff.1 (h before rest heq)⟩
    · intro h before rest heq
      exact completesContained_iff.2 (h before rest heq).contained
  rw [NeverPromotesRetracted, hthroughout]
  refine (Runs.everyStep_iff_and_throughout (fun s r hs => ?_) (upToDate_fresh _ _)).symm
  constructor
  · exact hs.hear
  · rintro ⟨hpromotes, hnext⟩
    exact hs.repeats hpromotes hnext.contained

/-- The next result no longer contains the pause, and everything it reached is stable. -/
def pauseRetracted : List Request :=
  [hearing 0 (.ok (pauseHeard 0 100 0)), hearing 1 (.ok (nothingHeard 1000))]

/-- The retracted pause is promoted by the call that retracts it. -/
theorem not_neverPromotesRetracted_pauseRetracted :
    ¬(sample pauseDigest).NeverPromotesRetracted (.fresh sampleRunId sampleSessionId)
      pauseRetracted := by
  rintro ⟨hcalls, -⟩
  have hcontained := hcalls [hearing 0 (.ok (pauseHeard 0 100 0))]
    (hearing 1 (.ok (nothingHeard 1000))) [] rfl { settledPause with isFinal := false }
    ⟨Or.inl ⟨by decide, rfl⟩, settledPause, by decide⟩
  obtain ⟨result, hresult, hreports⟩ := hcontained
  cases hresult
  obtain ⟨hypothesis, hmem, -⟩ := hreports
  cases hmem

end OratoriaEngine.Coordinator
