import OratoriaEngine.Reconciliation

/-!
# What a call does to the speech evidence

A call leaves the transcript and the speech events alone, or it assigns what was assembled from
the result of the runtime; past the frontier it then promotes both, and enters the pauses if
they can be built. Entry by entry the dictionary changes in no other way.
-/

namespace OratoriaEngine.Coordinator

open Stateful

variable (c : Coordinator) {t : Stream} {r : Request} {s s' : StreamingState}

/-- What the speech runtime returned for the call, if the call came as far as asking it. -/
def transcribed (t : Stream) (r : Request) : Option SpeechResult :=
  match r.call with
  | .audio sequence window =>
      if Novel t .audio sequence ∧ HasRoom c t then (r.ports.speech window).toOption else none
  | .video _ _ => none

structure SpeechAgrees (s s' : StreamingState) : Prop where
  runId : s'.runId = s.runId
  transcript : s'.transcript = s.transcript
  speechEvents : s'.speechEvents = s.speechEvents

/-- The call was given a result that merges into the transcript. -/
structure Merges (t : Stream) (r : Request) (result : SpeechResult) (assembled : AssembledSpeech)
    (transcript : Transcript) : Prop where
  returned : c.transcribed t r = some result
  assembles : c.speechAssembler.assemble result = .ok assembled
  merges : t.state.transcript.withProvisional assembled.tokens = .ok transcript

variable {c} in
theorem Merges.unique {result result' : SpeechResult} {assembled assembled' : AssembledSpeech}
    {transcript transcript' : Transcript} (h : c.Merges t r result assembled transcript)
    (h' : c.Merges t r result' assembled' transcript') :
    assembled = assembled' ∧ transcript = transcript' := by
  cases h.returned.symm.trans h'.returned
  cases h.assembles.symm.trans h'.assembles
  cases h.merges.symm.trans h'.merges
  exact ⟨rfl, rfl⟩

/-- Everything a call can do to the speech evidence. -/
inductive SpeechStep (t : Stream) (r : Request) : StreamingState → Prop
  | untouched {s' : StreamingState}
      (unmerged : ∀ result assembled transcript, ¬c.Merges t r result assembled transcript)
      (same : SpeechAgrees t.state s') : SpeechStep t r s'
  | assigned {result : SpeechResult} {assembled : AssembledSpeech} {transcript : Transcript}
      {s' : StreamingState} (merged : c.Merges t r result assembled transcript)
      (stopped : ¬ReachesReconciliation r.ports t transcript assembled)
      (same : SpeechAgrees (withSpeech t transcript assembled).state s') : SpeechStep t r s'
  | promoted {result : SpeechResult} {assembled : AssembledSpeech} {transcript : Transcript}
      {e : Failure} {s' : StreamingState} (merged : c.Merges t r result assembled transcript)
      (reached : ReachesReconciliation r.ports t transcript assembled)
      (refused : detectedPauses c (withSpeech t transcript assembled).state
        assembled.stableThroughMs = .error e)
      (same : SpeechAgrees (promotedState (withSpeech t transcript assembled).state
        assembled.stableThroughMs) s') : SpeechStep t r s'
  | reconciled {result : SpeechResult} {assembled : AssembledSpeech} {transcript : Transcript}
      {pauses : List SpeechEvent} {s' : StreamingState}
      (merged : c.Merges t r result assembled transcript)
      (reached : ReachesReconciliation r.ports t transcript assembled)
      (detected : detectedPauses c (withSpeech t transcript assembled).state
        assembled.stableThroughMs = .ok pauses)
      (same : SpeechAgrees (reconciledState (withSpeech t transcript assembled).state
        assembled.stableThroughMs pauses) s') : SpeechStep t r s'

theorem not_merges_of_silent (h : c.transcribed t r = none) (result : SpeechResult)
    (assembled : AssembledSpeech) (transcript : Transcript) :
    ¬c.Merges t r result assembled transcript := by
  intro merged
  exact absurd (h.symm.trans merged.returned) (by simp)

theorem speechAgrees_after_of_silent (h : c.transcribed t r = none) :
    SpeechAgrees t.state (c.after t r).state := by
  obtain ⟨ports, call⟩ := r
  cases call with
  | video sequence frames =>
      rcases after_video_cases c ports (t := t) frames with hf | ⟨result, l, -, -, -, hx⟩
      · exact ⟨hf.runId, hf.transcript, hf.speechEvents⟩
      · obtain ⟨events, quality, hstate, -⟩ := state_exec_absorbVisual c ports result
          (withCall (withChunks t .video l) (.observe frames))
        rw [hx, hstate]
        exact ⟨rfl, rfl, rfl⟩
  | audio sequence window =>
      rcases after_audio_cases c ports (t := t) window with hf | ⟨result, l, hans, hn, hroom, -⟩
      · exact ⟨hf.runId, hf.transcript, hf.speechEvents⟩
      · have hreturned : c.transcribed t ⟨ports, .audio sequence window⟩ = some result :=
          (if_pos ⟨hn, hroom⟩).trans (by rw [hans]; rfl)
        exact absurd (h.symm.trans hreturned) (by simp)

theorem after_of_transcribed {result : SpeechResult} (h : c.transcribed t r = some result) :
    ∃ call l, c.after t r = (exec (absorbSpeech c r.ports result)
      (withCall (withChunks t .audio l) call)).2 := by
  obtain ⟨ports, ⟨sequence, window⟩ | ⟨sequence, frames⟩⟩ := r
  · by_cases hasked : Novel t .audio sequence ∧ HasRoom c t
    · have hanswer : (ports.speech window).toOption = some result := (if_pos hasked).symm.trans h
      have hans : ports.speech window = .ok result := by
        cases hp : ports.speech window with
        | error e => rw [hp] at hanswer; cases hanswer
        | ok result' => rw [hp] at hanswer; cases hanswer; rfl
      obtain ⟨v, l, -, hv, -, ho⟩ := exists_offer_of_novel hasked.1
      exact ⟨_, l, congrArg Prod.snd (exec_ingest_of_result c ports (.transcribe window) _
        (absorbSpeech c ports) hans ho hv hasked.2)⟩
    · exact absurd ((if_neg hasked).symm.trans h) (by simp)
  · cases h

theorem speechStep_after (t : Stream) (r : Request) : c.SpeechStep t r (c.after t r).state := by
  cases hreturned : c.transcribed t r with
  | none =>
      exact .untouched (c.not_merges_of_silent hreturned) (c.speechAgrees_after_of_silent hreturned)
  | some result =>
      obtain ⟨call, l, hx⟩ := c.after_of_transcribed hreturned
      rw [hx]
      cases ha : c.speechAssembler.assemble result with
      | error e =>
          rw [exec_absorbSpeech_assemble_error c r.ports ha]
          refine .untouched (fun result' assembled transcript merged => ?_) ⟨rfl, rfl, rfl⟩
          cases hreturned.symm.trans merged.returned
          cases ha.symm.trans merged.assembles
      | ok assembled =>
          cases ht : t.state.transcript.withProvisional assembled.tokens with
          | error e =>
              rw [exec_absorbSpeech_transcript_error c r.ports ha (e := e) (by rw [← ht]; rfl)]
              refine .untouched (fun result' assembled' transcript merged => ?_) ⟨rfl, rfl, rfl⟩
              cases hreturned.symm.trans merged.returned
              cases ha.symm.trans merged.assembles
              cases ht.symm.trans merged.merges
          | ok transcript =>
              have hmerged : c.Merges t r result assembled transcript := ⟨hreturned, ha, ht⟩
              rw [state_exec_absorbSpeech_of_ok c r.ports ha
                (t := withCall (withChunks t .audio l) call) ht]
              split_ifs with hreaches
              · have hsame : detectedPauses c (withSpeech (withCall (withChunks t .audio l) call)
                    transcript assembled).state assembled.stableThroughMs =
                  detectedPauses c (withSpeech t transcript assembled).state
                    assembled.stableThroughMs := rfl
                rw [hsame]
                cases hp : detectedPauses c (withSpeech t transcript assembled).state
                  assembled.stableThroughMs with
                | error e => exact .promoted hmerged hreaches hp ⟨rfl, rfl, rfl⟩
                | ok pauses => exact .reconciled hmerged hreaches hp ⟨rfl, rfl, rfl⟩
              · exact .assigned hmerged hreaches ⟨rfl, rfl, rfl⟩

theorem get?_promotedState (s : StreamingState) (stableThroughMs : ℤ) (key : String) :
    (promotedState s stableThroughMs).speechEvents.get? key = (s.speechEvents.get? key).map
      fun e => if pending stableThroughMs (key, e) then e.finalize else e := by
  rcases Dict.get?_setAll_cases s.speechEvents (promotions stableThroughMs s.speechEvents.entries)
    key with ⟨e', hmem, hget⟩ | ⟨hnot, hget⟩
  · obtain ⟨⟨k, e⟩, hentry, heq⟩ := List.mem_map.1 hmem
    obtain ⟨rfl, rfl⟩ := Prod.mk.inj heq
    obtain ⟨hentry, hpending⟩ := List.mem_filter.1 hentry
    change (s.speechEvents.setAll _).get? k = _
    rw [hget, (s.speechEvents.get?_eq_some_iff_mem k e).2 hentry, Option.map_some, if_pos hpending]
  · change (s.speechEvents.setAll _).get? key = _
    rw [hget]
    cases hold : s.speechEvents.get? key with
    | none => rfl
    | some e =>
        have hnotPending : ¬pending stableThroughMs (key, e) = true := fun hpending => by
          have hentry := (s.speechEvents.get?_eq_some_iff_mem key e).1 hold
          exact hnot (List.mem_map.2 ⟨_, List.mem_map_of_mem
            (List.mem_filter.2 ⟨hentry, hpending⟩), rfl⟩)
        rw [Option.map_some, if_neg hnotPending]

theorem exists_of_mem_unknownPauses {d : Dict String SpeechEvent} {pauses : List SpeechEvent}
    {e : SpeechEvent} (h : e ∈ unknownPauses d pauses) : ∃ pause ∈ pauses, pause.finalize = e := by
  induction pauses generalizing d with
  | nil => cases h
  | cons pause rest ih =>
      rw [unknownPauses] at h
      split_ifs at h
      · obtain ⟨p, hp, heq⟩ := ih h
        exact ⟨p, List.mem_cons_of_mem _ hp, heq⟩
      · rcases List.mem_cons.1 h with rfl | h
        · exact ⟨pause, List.mem_cons_self, rfl⟩
        · obtain ⟨p, hp, heq⟩ := ih h
          exact ⟨p, List.mem_cons_of_mem _ hp, heq⟩

theorem get?_reconciledState_cases (s : StreamingState) (stableThroughMs : ℤ)
    (pauses : List SpeechEvent) (key : String) :
    (reconciledState s stableThroughMs pauses).speechEvents.get? key =
        (promotedState s stableThroughMs).speechEvents.get? key ∨
      ∃ pause ∈ pauses, pause.id.value = key ∧
        (promotedState s stableThroughMs).speechEvents.get? key = none ∧
        (reconciledState s stableThroughMs pauses).speechEvents.get? key = some pause.finalize := by
  cases hold : (promotedState s stableThroughMs).speechEvents.get? key with
  | some e => exact Or.inl (get?_setAll_unknownPauses_of_get? hold pauses)
  | none =>
      rcases Dict.get?_setAll_cases (promotedState s stableThroughMs).speechEvents
        (keyed (unknownPauses (promotedState s stableThroughMs).speechEvents pauses)) key with
        ⟨e, hmem, hget⟩ | ⟨-, hget⟩
      · obtain ⟨e', he', heq⟩ := List.mem_map.1 hmem
        obtain ⟨hkey, rfl⟩ := Prod.mk.inj heq
        obtain ⟨pause, hpause, rfl⟩ := exists_of_mem_unknownPauses he'
        exact Or.inr ⟨pause, hpause, by rw [← hkey, SpeechEvent.finalize_id], rfl, hget⟩
      · exact Or.inl (hget.trans hold)

/-- Every event of the dictionary is stored under its identifier. -/
def KeyedById (s : StreamingState) : Prop :=
  ∀ key e, s.speechEvents.get? key = some e → e.id.value = key

theorem keyedById_fresh (runId : RunId) (sessionId : SessionId) :
    KeyedById (.fresh runId sessionId) := fun _ _ h => nomatch h

theorem KeyedById.promoted (h : KeyedById s) (stableThroughMs : ℤ) :
    KeyedById (promotedState s stableThroughMs) := by
  intro key e hget
  rw [get?_promotedState] at hget
  obtain ⟨e', hold, rfl⟩ := Option.map_eq_some_iff.1 hget
  split_ifs
  · rw [SpeechEvent.finalize_id]
    exact h key e' hold
  · exact h key e' hold

theorem KeyedById.withSpeech (h : KeyedById t.state) (transcript : Transcript)
    (assembled : AssembledSpeech) : KeyedById (withSpeech t transcript assembled).state := by
  intro key e hget
  rcases get?_withSpeech_cases t transcript assembled key with ⟨e', -, hkey, hget'⟩ | hget'
  · cases hget'.symm.trans hget
    exact hkey
  · exact h key e (hget'.symm.trans hget)

theorem KeyedById.after (h : KeyedById t.state) (r : Request) :
    KeyedById (c.after t r).state := by
  have hsame : ∀ {s s'}, KeyedById s → SpeechAgrees s s' → KeyedById s' := by
    intro s s' hs hss key e hget
    rw [hss.speechEvents] at hget
    exact hs key e hget
  cases c.speechStep_after t r with
  | untouched _ same => exact hsame h same
  | assigned _ _ same => exact hsame (h.withSpeech _ _) same
  | promoted _ _ _ same => exact hsame ((h.withSpeech _ _).promoted _) same
  | @reconciled _ assembled transcript pauses _ _ _ _ same =>
      refine hsame (fun key e hget => ?_) same
      rcases get?_reconciledState_cases (Coordinator.withSpeech t transcript assembled).state
        assembled.stableThroughMs pauses key with hold | ⟨pause, -, hkey, -, hnew⟩
      · exact ((h.withSpeech _ _).promoted _) key e (hold.symm.trans hget)
      · cases hnew.symm.trans hget
        rw [SpeechEvent.finalize_id, hkey]

theorem values_ne_nil_after (h : t.state.speechEvents.values ≠ []) (r : Request) :
    (c.after t r).state.speechEvents.values ≠ [] := by
  cases c.speechStep_after t r with
  | untouched _ same =>
      rw [same.speechEvents]
      exact h
  | assigned _ _ same =>
      rw [same.speechEvents]
      exact Dict.values_setAll_ne_nil _ h
  | promoted _ _ _ same =>
      rw [same.speechEvents]
      exact Dict.values_setAll_ne_nil _ (Dict.values_setAll_ne_nil _ h)
  | reconciled _ _ _ same =>
      rw [same.speechEvents]
      exact Dict.values_setAll_ne_nil _ (Dict.values_setAll_ne_nil _
        (Dict.values_setAll_ne_nil _ h))

end OratoriaEngine.Coordinator
