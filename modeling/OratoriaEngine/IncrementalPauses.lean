import OratoriaEngine.Lib.Delimited
import OratoriaEngine.PauseExactness
import OratoriaEngine.SpeechSteps

/-!
# Pauses derived step by step

Every reconciliation derives the pauses of all final words and enters those it does not know yet.
Words become final in order, so a silence between final words is never broken again, and what was
entered step by step is what the last derivation finds at once.
-/

namespace OratoriaEngine

section Identifiers

open Delimited

theorem bar_notMem_toString (m : ℤ) : '|' ∉ (toString m).toList := by
  intro hmem
  rcases mem_toList_repr hmem with h | h
  · cases h
  · exact absurd h (by decide)

theorem bar_notMem_value (type : SpeechEventType) : '|' ∉ type.value.toList := by
  cases type <;> decide

theorem SpeechEventType.value_injective : Function.Injective SpeechEventType.value := by
  intro type type' h
  cases type <;> cases type' <;> first | rfl | exact absurd h (by decide)

theorem toList_eventMaterial (runId : RunId) (eventType : String) (startMs : ℤ) (text : String) :
    (eventMaterial runId eventType startMs text).toList = runId.value.toList ++ '|' ::
      (eventType.toList ++ '|' :: ((toString (bucket startMs)).toList ++ '|' :: text.toList)) := by
  change (((((runId.value ++ "|") ++ eventType) ++ "|") ++ toString (bucket startMs)) ++ "|" ++
    text).toList = _
  simp only [String.toList_append, List.append_assoc]
  rfl

/-- Under an injective digest an identifier tells the class and the bucket of its event. -/
theorem eq_of_deriveEventId_eq {digest : String → String} (hdigest : Function.Injective digest)
    {runId : RunId} {type type' : SpeechEventType} {startMs startMs' : ℤ} {text text' : String}
    (h : deriveEventId digest runId type.value startMs text =
      deriveEventId digest runId type'.value startMs' text') :
    type = type' ∧ bucket startMs = bucket startMs' := by
  have hvalue := congrArg (fun id : EventId => id.value) h
  have hmaterial := hdigest ((String.append_right_inj _).1 hvalue)
  have hlist := congrArg String.toList hmaterial
  rw [toList_eventMaterial, toList_eventMaterial, List.append_cancel_left_eq] at hlist
  have hparts := (List.cons_eq_cons.1 hlist).2
  rw [append_cons_inj_of_not_mem_left (bar_notMem_value type) (bar_notMem_value type'),
    append_cons_inj_of_not_mem_left (bar_notMem_toString _) (bar_notMem_toString _)] at hparts
  obtain ⟨htype, hbucket, -⟩ := hparts
  exact ⟨SpeechEventType.value_injective (String.toList_injective htype),
    repr_injective (String.toList_injective hbucket)⟩

end Identifiers

/-- The two spans do not overlap. -/
def WordToken.Apart (v w : WordToken) : Prop := v.endMs ≤ w.startMs ∨ w.endMs ≤ v.startMs

/-- Every word is over when the next one starts. -/
def InTurn (words : List WordToken) : Prop := words.Pairwise fun v w => v.endMs ≤ w.startMs

/-- No two words of the result overlap, and none of its events is a silent pause. -/
structure WellSpoken (result : SpeechResult) : Prop where
  apart : result.words.Pairwise fun v w => v.endMs ≤ w.startMs ∨ w.endMs ≤ v.startMs
  pauseless : ∀ hypothesis ∈ result.events, hypothesis.type ≠ .silentPause

/-- A silence between the words that is long enough for a pause. -/
def Quiet (thresholdMs : ℤ) (words : List WordToken) (startMs stopMs : ℤ) : Prop :=
  IsSilence words startMs stopMs ∧ LastsAtLeast thresholdMs startMs stopMs

section Words

variable {words words' : List WordToken} {thresholdMs startMs stopMs startMs' stopMs' : ℤ}

theorem inTurn_of_ordered (hordered : words.Pairwise WordToken.orderingLe)
    (hapart : words.Pairwise WordToken.Apart) : InTurn words := by
  refine (hordered.and hapart).imp fun {v w} ⟨hle, hvw⟩ => ?_
  have hv := v.interval.ordered
  have hw := w.interval.ordered
  unfold WordToken.orderingLe at hle
  unfold WordToken.Apart WordToken.startMs WordToken.endMs at hvw
  unfold WordToken.startMs WordToken.endMs
  omega

theorem apart_of_assemble {a : SpeechAssembler} {result : SpeechResult}
    {assembled : AssembledSpeech} (ha : a.assemble result = .ok assembled)
    (hspoken : WellSpoken result) : assembled.tokens.Pairwise WordToken.Apart := by
  have hspan : ∀ {word : WordHypothesis} {w : WordToken}, a.token word = .ok w →
      w.startMs = word.startMs ∧ w.endMs = word.endMs := by
    intro word w hw
    obtain ⟨interval, hi, hw⟩ := Except.bind_eq_ok.1 hw
    obtain ⟨confidence, -, hw⟩ := Except.bind_eq_ok.1 hw
    obtain ⟨hstart, hstop, -⟩ := Interval.of_eq_ok hi
    unfold WordToken.of at hw
    split_ifs at hw
    cases hw
    exact ⟨hstart, hstop⟩
  refine Except.pairwise_of_forall₂ (fun {v v' w w'} hv hw hvw => ?_)
    (Except.mapM_eq_ok (SpeechAssembler.assemble_eq_ok ha).1) hspoken.apart
  unfold WordToken.Apart
  rwa [(hspan hv).1, (hspan hv).2, (hspan hw).1, (hspan hw).2]

/-- Later words leave a silence between earlier ones as it is. -/
theorem Quiet.mono (h : Quiet thresholdMs words startMs stopMs) (hsub : words ⊆ words')
    (hlater : ∀ w ∈ words', w ∈ words ∨ ∀ v ∈ words, v.endMs ≤ w.startMs) :
    Quiet thresholdMs words' startMs stopMs :=
  ⟨h.1.mono (fun w _ => w.startMs_le_endMs) hsub hlater, h.2⟩

theorem Quiet.eq_of_bucket_eq (hthreshold : positionBucketMs ≤ thresholdMs)
    (h : Quiet thresholdMs words startMs stopMs) (h' : Quiet thresholdMs words startMs' stopMs')
    (hbucket : bucket startMs = bucket startMs') : startMs = startMs' ∧ stopMs = stopMs' := by
  have hlasts := h.2
  have hlasts' := h'.2
  unfold LastsAtLeast at hlasts hlasts'
  unfold positionBucketMs at hthreshold
  unfold bucket positionBucketMs at hbucket
  rw [Int.fdiv_eq_ediv_of_nonneg _ (by omega), Int.fdiv_eq_ediv_of_nonneg _ (by omega)] at hbucket
  rcases h.1.eq_or_le (fun w _ => w.startMs_le_endMs) h'.1 with heq | hbefore | hafter
  · exact heq
  · omega
  · omega

end Words

theorem IsPauseAt.finalize {digest : String → String} {runId : RunId} {e : SpeechEvent}
    {startMs stopMs : ℤ} (h : IsPauseAt digest runId e startMs stopMs) :
    IsPauseAt digest runId e.finalize startMs stopMs where
  silent := e.finalize_type.trans h.silent
  start := by rw [e.finalize_interval, h.start]
  stop := by rw [e.finalize_interval, h.stop]
  tolerance := by rw [e.finalize_interval, h.tolerance]
  id := e.finalize_id.trans h.id

namespace Coordinator

variable (c : Coordinator) {t : Stream} {s : StreamingState}

/-- Both assemblers use one injective digest, and a pause lasts at least as long as a bucket. -/
structure Distinguishes : Prop where
  injective : Function.Injective c.digest
  shared : c.speechAssembler.digest = c.digest
  threshold : positionBucketMs ≤ c.configuration.silenceThresholdMs

theorem Distinguishes.pos {c : Coordinator} (h : c.Distinguishes) :
    0 < c.configuration.silenceThresholdMs :=
  lt_of_lt_of_le (by decide) h.threshold

/-- Deriving the pauses of words in turn finds each silence that is long enough, once. -/
theorem exists_silentPauses {provenance : Provenance} (hc : c.Distinguishes)
    (heard : provenance.modality = .audio) (runId : RunId) {words : List WordToken}
    (hordered : words.Pairwise WordToken.orderingLe) (hturn : InTurn words) :
    ∃ pauses, silentPauses c.digest words c.configuration.silenceThresholdMs provenance runId =
        .ok pauses ∧
      (pauses.map SpeechEvent.span).Nodup ∧
      (∀ e ∈ pauses, ∃ startMs stopMs, IsPauseAt c.digest runId e startMs stopMs ∧
        Quiet c.configuration.silenceThresholdMs words startMs stopMs) ∧
      ∀ startMs stopMs, Quiet c.configuration.silenceThresholdMs words startMs stopMs →
        ∃ e ∈ pauses, IsPauseAt c.digest runId e startMs stopMs := by
  have hsame : byStart words = words :=
    (hordered.imp WordToken.start_le_of_orderingLe).insertionSort_eq
  have hnone : NoneSpeaksOn c.configuration.silenceThresholdMs words := by
    rw [NoneSpeaksOn, hsame]
    exact Gaps.noneOutlasts_of_isChain (fun w _ => w.startMs_le_endMs) hturn
  have hexact := (gapSpans_iff hc.pos).2 hnone
  obtain ⟨pauses, hpauses, hforall⟩ :=
    silentPauses_forall₂ c.digest runId hc.pos heard words
  refine ⟨pauses, hpauses, ?_, fun e he => ?_, fun startMs stopMs hquiet => ?_⟩
  · rw [spans_of_forall₂ c.digest runId hforall]
    exact nodup_gapSpans hc.pos byStart_sorted
  · obtain ⟨gap, hgap, hpause⟩ := Except.exists_mem_of_forall₂ hforall.flip he
    exact ⟨_, _, hpause, (hexact _ _).1 (List.mem_map_of_mem hgap)⟩
  · obtain ⟨gap, hgap, hspan⟩ := List.mem_map.1 ((hexact startMs stopMs).2 hquiet)
    obtain ⟨e, he, hpause⟩ := Except.exists_mem_of_forall₂ hforall hgap
    rw [hspan] at hpause
    exact ⟨e, he, hpause⟩

/-- The words are in turn, every event has the identifier derived for it, and every silent pause
is final and fills a silence between the final words. -/
structure Tracks (s : StreamingState) : Prop where
  keyed : KeyedById s
  run : s.runId = c.speechAssembler.runId
  ordered : s.transcript.tokens.Pairwise WordToken.orderingLe
  inTurn : InTurn s.transcript.tokens
  named : ∀ e ∈ s.speechEvents.values, ∃ startMs text,
    e.id = deriveEventId c.digest s.runId e.type.value startMs text
  sound : ∀ e ∈ s.speechEvents.values, e.type = .silentPause → e.isFinal = true ∧
    ∃ startMs stopMs, IsPauseAt c.digest s.runId e startMs stopMs ∧
      Quiet c.configuration.silenceThresholdMs s.transcript.finalTokens startMs stopMs

/-- Every silence between the final words that is long enough has its pause. -/
def CoversSilences (s : StreamingState) : Prop :=
  ∀ startMs stopMs,
    Quiet c.configuration.silenceThresholdMs s.transcript.finalTokens startMs stopMs →
      ∃ e ∈ s.speechEvents.values, IsPauseAt c.digest s.runId e startMs stopMs

theorem tracks_fresh (sessionId : SessionId) :
    c.Tracks (.fresh c.speechAssembler.runId sessionId) where
  keyed := keyedById_fresh _ _
  run := rfl
  ordered := List.Pairwise.nil
  inTurn := List.Pairwise.nil
  named _ h := absurd h List.not_mem_nil
  sound _ h := absurd h List.not_mem_nil

variable {c}

theorem SpeechAgrees.tracks {s' : StreamingState} (hs : SpeechAgrees s s') (h : c.Tracks s) :
    c.Tracks s' ∧ (c.CoversSilences s → c.CoversSilences s') := by
  obtain ⟨hrun, htranscript, hevents⟩ := hs
  refine ⟨⟨?_, ?_, ?_, ?_, ?_, ?_⟩, ?_⟩
  · unfold KeyedById
    rw [hevents]
    exact h.keyed
  · rw [hrun]
    exact h.run
  · rw [htranscript]
    exact h.ordered
  · rw [htranscript]
    exact h.inTurn
  · rw [hevents, hrun]
    exact h.named
  · rw [hevents, hrun, htranscript]
    exact h.sound
  · unfold CoversSilences
    rw [hevents, hrun, htranscript]
    exact id

section Assigned

variable {r : Request} {result : SpeechResult} {assembled : AssembledSpeech}
  {transcript : Transcript}

theorem named_of_mem_events (hc : c.Distinguishes) (hspoken : WellSpoken result)
    (ha : c.speechAssembler.assemble result = .ok assembled) {e : SpeechEvent}
    (he : e ∈ assembled.events) : e.type ≠ .silentPause ∧ ∃ startMs text,
      e.id = deriveEventId c.digest c.speechAssembler.runId e.type.value startMs text := by
  obtain ⟨hypothesis, hmem, hevent⟩ :=
    Except.mem_of_mapM_eq_ok (SpeechAssembler.assemble_eq_ok ha).2.1 he
  obtain ⟨interval, -, hevent⟩ := Except.bind_eq_ok.1 hevent
  obtain ⟨confidence, -, hevent⟩ := Except.bind_eq_ok.1 hevent
  obtain ⟨hid, htype, -⟩ := SpeechEvent.of_eq_ok hevent
  rw [htype, hid, hc.shared]
  exact ⟨hspoken.pauseless hypothesis hmem, _, _, rfl⟩

theorem mem_values_withSpeech {e : SpeechEvent}
    (he : e ∈ (withSpeech t transcript assembled).state.speechEvents.values) :
    e ∈ assembled.events ∨ e ∈ t.state.speechEvents.values := by
  obtain ⟨key, hget⟩ := (Dict.mem_values_iff _ _).1 he
  rcases get?_withSpeech_cases t transcript assembled key with ⟨e', he', -, hget'⟩ | hget'
  · cases hget'.symm.trans hget
    exact Or.inl he'
  · exact Or.inr (Dict.mem_values_of_get? (hget'.symm.trans hget))

/-- The new words start when the final ones are over. -/
theorem Merges.late (merged : c.Merges t r result assembled transcript) :
    ∀ w ∈ assembled.tokens, ∀ f ∈ t.state.transcript.finalTokens, f.endMs ≤ w.startMs := by
  intro w hw f hf
  have hahead := Transcript.exists_withProvisional_iff.1 ⟨_, merged.merges⟩ w hw
  exact ((Transcript.frontier_le_iff.1 le_rfl).2 f hf).trans hahead

theorem Merges.finalTokens (merged : c.Merges t r result assembled transcript)
    (hordered : t.state.transcript.tokens.Pairwise WordToken.orderingLe) :
    transcript.finalTokens = t.state.transcript.finalTokens :=
  Transcript.finalTokens_withProvisional hordered
    (fun _ => SpeechAssembler.provisional_of_mem_tokens merged.assembles) merged.merges

theorem Merges.inTurn (merged : c.Merges t r result assembled transcript)
    (hspoken : WellSpoken result) (hturn : InTurn t.state.transcript.tokens) :
    InTurn transcript.tokens := by
  apply inTurn_of_ordered (Transcript.pairwise_withProvisional merged.merges)
  have hsymm : ∀ {v w : WordToken}, v.Apart w → w.Apart v := Or.symm
  apply ((Transcript.tokens_perm_withProvisional merged.merges).pairwise_iff hsymm).2
  refine List.pairwise_append.2 ⟨?_, apart_of_assemble merged.assembles hspoken, ?_⟩
  · exact (hturn.sublist List.filter_sublist).imp Or.inl
  · intro f hf w hw
    exact Or.inl (merged.late w hw f hf)

theorem Tracks.assigned (hc : c.Distinguishes) (h : c.Tracks t.state)
    (merged : c.Merges t r result assembled transcript) (hspoken : WellSpoken result) :
    c.Tracks (withSpeech t transcript assembled).state ∧
      (c.CoversSilences t.state → c.CoversSilences (withSpeech t transcript assembled).state) := by
  have hfinal := merged.finalTokens h.ordered
  refine ⟨⟨h.keyed.withSpeech _ _, h.run, Transcript.pairwise_withProvisional merged.merges,
    merged.inTurn hspoken h.inTurn, fun e he => ?_, fun e he htype => ?_⟩,
    fun hcovers startMs stopMs hquiet => ?_⟩
  · rcases mem_values_withSpeech he with hnew | hold
    · change ∃ startMs text, e.id = deriveEventId c.digest t.state.runId _ startMs text
      rw [h.run]
      exact (named_of_mem_events hc hspoken merged.assembles hnew).2
    · exact h.named e hold
  · rcases mem_values_withSpeech he with hnew | hold
    · exact absurd htype (named_of_mem_events hc hspoken merged.assembles hnew).1
    · change _ ∧ ∃ startMs stopMs, _ ∧ Quiet _ transcript.finalTokens startMs stopMs
      rw [hfinal]
      exact h.sound e hold htype
  · change Quiet _ transcript.finalTokens startMs stopMs at hquiet
    rw [hfinal] at hquiet
    obtain ⟨e, he, hpause⟩ := hcovers startMs stopMs hquiet
    refine ⟨e, ?_, hpause⟩
    obtain ⟨key, hget⟩ := (Dict.mem_values_iff _ _).1 he
    rcases get?_withSpeech_cases t transcript assembled key with ⟨e', he', hkey, -⟩ | hget'
    · obtain ⟨hsilent, startMs', text, hname⟩ :=
        named_of_mem_events hc hspoken merged.assembles he'
      have hsame : e'.id = e.id := EventId.ext_value (hkey.trans (h.keyed key e hget).symm)
      rw [hname, ← h.run, hpause.id] at hsame
      exact absurd (eq_of_deriveEventId_eq hc.injective hsame).1 hsilent
    · exact Dict.mem_values_of_get? (hget'.trans hget)

end Assigned

section Reconciled

variable {stableThroughMs : ℤ}

/-- The words that are not final yet start when the final ones are over. -/
def FinalFirst (s : StreamingState) : Prop :=
  ∀ w ∈ s.transcript.tokens, w ∈ s.transcript.finalTokens ∨
    ∀ f ∈ s.transcript.finalTokens, f.endMs ≤ w.startMs

theorem Merges.finalFirst {r : Request} {result : SpeechResult} {assembled : AssembledSpeech}
    {transcript : Transcript} (merged : c.Merges t r result assembled transcript)
    (hordered : t.state.transcript.tokens.Pairwise WordToken.orderingLe) :
    FinalFirst (withSpeech t transcript assembled).state := by
  intro w hw
  change w ∈ transcript.finalTokens ∨ ∀ f ∈ transcript.finalTokens, f.endMs ≤ w.startMs
  rw [merged.finalTokens hordered]
  have hmem := (Transcript.tokens_perm_withProvisional merged.merges).mem_iff.1 hw
  exact (List.mem_append.1 hmem).imp id (merged.late w)

theorem quiet_promotedState {thresholdMs startMs stopMs : ℤ} (hfirst : FinalFirst s)
    (h : Quiet thresholdMs s.transcript.finalTokens startMs stopMs) :
    Quiet thresholdMs (promotedState s stableThroughMs).transcript.finalTokens startMs stopMs := by
  refine h.mono (fun w hw => ?_) fun w hw => ?_
  · obtain ⟨hmem, hfinal⟩ := List.mem_filter.1 hw
    refine List.mem_filter.2 ⟨List.mem_map.2 ⟨w, hmem, ?_⟩, hfinal⟩
    rw [WordToken.finalize_of_isFinal hfinal, ite_self]
  · obtain ⟨v, hv, rfl⟩ := List.mem_map.1 (List.mem_filter.1 hw).1
    have hspan : (if v.interval.stop.ms ≤ stableThroughMs then v.finalize else v).startMs =
        v.startMs := Transcript.map_freeze (f := WordToken.startMs)
      (fun w => by rw [WordToken.startMs, w.finalize_interval, WordToken.startMs])
      stableThroughMs v
    rcases hfirst v hv with hfinal | hlate
    · rw [WordToken.finalize_of_isFinal (List.mem_filter.1 hfinal).2, ite_self]
      exact Or.inl hfinal
    · rw [hspan]
      exact Or.inr hlate

theorem mem_values_promotedState {e : SpeechEvent}
    (he : e ∈ (promotedState s stableThroughMs).speechEvents.values) :
    ∃ e' ∈ s.speechEvents.values, e = e' ∨ e = e'.finalize := by
  obtain ⟨key, hget⟩ := (Dict.mem_values_iff _ _).1 he
  rw [get?_promotedState] at hget
  obtain ⟨e', hold, rfl⟩ := Option.map_eq_some_iff.1 hget
  refine ⟨e', Dict.mem_values_of_get? hold, ?_⟩
  split_ifs
  · exact Or.inr rfl
  · exact Or.inl rfl

theorem Tracks.promoted (h : c.Tracks s) (hfirst : FinalFirst s) :
    c.Tracks (promotedState s stableThroughMs) where
  keyed := h.keyed.promoted _
  run := h.run
  ordered := pairwise_promotedState h.ordered _
  inTurn := by
    have hspan : ∀ w : WordToken,
        (if w.interval.stop.ms ≤ stableThroughMs then w.finalize else w).interval = w.interval :=
      Transcript.map_freeze WordToken.finalize_interval stableThroughMs
    refine List.pairwise_map.2 (h.inTurn.imp fun {v w} hvw => ?_)
    unfold WordToken.startMs WordToken.endMs at hvw ⊢
    rwa [hspan, hspan]
  named e he := by
    obtain ⟨e', he', rfl | rfl⟩ := mem_values_promotedState he
    · exact h.named e he'
    · rw [e'.finalize_type, e'.finalize_id]
      exact h.named e' he'
  sound e he htype := by
    obtain ⟨e', he', rfl | rfl⟩ := mem_values_promotedState he
    · obtain ⟨hfinal, startMs, stopMs, hpause, hquiet⟩ := h.sound e he' htype
      exact ⟨hfinal, startMs, stopMs, hpause, quiet_promotedState hfirst hquiet⟩
    · obtain ⟨-, startMs, stopMs, hpause, hquiet⟩ :=
        h.sound e' he' (e'.finalize_type.symm.trans htype)
      exact ⟨e'.finalize_isFinal, startMs, stopMs, hpause.finalize,
        quiet_promotedState hfirst hquiet⟩

theorem Tracks.reconciled (h : c.Tracks (promotedState s stableThroughMs))
    {pauses : List SpeechEvent}
    (hpauses : ∀ e ∈ pauses, ∃ startMs stopMs, IsPauseAt c.digest s.runId e startMs stopMs ∧
      Quiet c.configuration.silenceThresholdMs
        (promotedState s stableThroughMs).transcript.finalTokens startMs stopMs) :
    c.Tracks (reconciledState s stableThroughMs pauses) := by
  have hvalues : ∀ e ∈ (reconciledState s stableThroughMs pauses).speechEvents.values,
      e ∈ (promotedState s stableThroughMs).speechEvents.values ∨
        ∃ pause ∈ pauses, e = pause.finalize := by
    intro e he
    obtain ⟨key, hget⟩ := (Dict.mem_values_iff _ _).1 he
    rcases get?_reconciledState_cases s stableThroughMs pauses key with
      hold | ⟨pause, hpause, -, -, hnew⟩
    · exact Or.inl (Dict.mem_values_of_get? (hold.symm.trans hget))
    · exact Or.inr ⟨pause, hpause, Option.some.inj (hget.symm.trans hnew)⟩
  refine ⟨fun key e hget => ?_, h.run, h.ordered, h.inTurn, fun e he => ?_, fun e he htype => ?_⟩
  · rcases get?_reconciledState_cases s stableThroughMs pauses key with
      hold | ⟨pause, -, hkey, -, hnew⟩
    · exact h.keyed key e (hold.symm.trans hget)
    · cases hnew.symm.trans hget
      rw [SpeechEvent.finalize_id, hkey]
  · rcases hvalues e he with hold | ⟨pause, hpause, rfl⟩
    · exact h.named e hold
    · obtain ⟨startMs, stopMs, hat, -⟩ := hpauses pause hpause
      exact ⟨startMs, "", by rw [hat.finalize.id, hat.finalize.silent]; rfl⟩
  · rcases hvalues e he with hold | ⟨pause, hpause, rfl⟩
    · exact h.sound e hold htype
    · obtain ⟨startMs, stopMs, hat, hquiet⟩ := hpauses pause hpause
      exact ⟨pause.finalize_isFinal, startMs, stopMs, hat.finalize, hquiet⟩

theorem not_quiet_of_length_lt {words : List WordToken} (h : words.length < 2)
    {thresholdMs startMs stopMs : ℤ} : ¬Quiet thresholdMs words startMs stopMs := by
  rintro ⟨hsilence, -⟩
  obtain ⟨hfree, ⟨v, hv, hstart⟩, ⟨w, hw, hstop⟩⟩ :=
    (Gaps.isGap_iff fun w _ => w.startMs_le_endMs).1 hsilence
  have hsame : v = w := by
    cases words with
    | nil => cases hv
    | cons u rest =>
        have hrest : rest = [] := List.length_eq_zero_iff.1 (by rw [List.length_cons] at h; omega)
        rw [hrest, List.mem_singleton] at hv hw
        rw [hv, hw]
  have hlt := hfree.1
  have hle := w.startMs_le_endMs
  rw [hsame] at hstart
  omega

theorem Tracks.covers_reconciled (hc : c.Distinguishes)
    (h : c.Tracks (promotedState s stableThroughMs)) {pauses : List SpeechEvent}
    (hpauses : ∀ e ∈ pauses, ∃ startMs stopMs, IsPauseAt c.digest s.runId e startMs stopMs ∧
      Quiet c.configuration.silenceThresholdMs
        (promotedState s stableThroughMs).transcript.finalTokens startMs stopMs)
    (hall : ∀ startMs stopMs, Quiet c.configuration.silenceThresholdMs
        (promotedState s stableThroughMs).transcript.finalTokens startMs stopMs →
      ∃ e ∈ pauses, IsPauseAt c.digest s.runId e startMs stopMs) :
    c.CoversSilences (reconciledState s stableThroughMs pauses) := by
  intro startMs stopMs hquiet
  obtain ⟨pause, hpause, hat⟩ := hall startMs stopMs hquiet
  obtain ⟨e, hget, hfrom⟩ := exists_get?_setAll_unknownPauses
    (promotedState s stableThroughMs).speechEvents hpause
  have hmem : e ∈ (reconciledState s stableThroughMs pauses).speechEvents.values :=
    Dict.mem_values_of_get? hget
  refine ⟨e, hmem, ?_⟩
  have hid : e.id = pause.id := by
    rcases hfrom with hold | ⟨p, -, hp, rfl⟩
    · exact EventId.ext_value (h.keyed _ e hold)
    · exact (SpeechEvent.finalize_id p).trans (EventId.ext_value hp)
  have htracks := h.reconciled hpauses
  obtain ⟨startMs₀, text, hname⟩ := htracks.named e hmem
  have htype : e.type = .silentPause := by
    rw [hname, hat.id] at hid
    exact (eq_of_deriveEventId_eq hc.injective hid).1
  obtain ⟨-, startMs', stopMs', hat', hquiet'⟩ := htracks.sound e hmem htype
  rw [hat'.id, hat.id] at hid
  obtain ⟨-, hbucket⟩ := eq_of_deriveEventId_eq hc.injective hid
  obtain ⟨rfl, rfl⟩ := hquiet'.eq_of_bucket_eq hc.threshold hquiet hbucket
  exact hat'

theorem Tracks.reconcile (hc : c.Distinguishes) (h : c.Tracks s) (hfirst : FinalFirst s)
    (stableThroughMs : ℤ) :
    ∃ pauses, detectedPauses c s stableThroughMs = .ok pauses ∧
      c.Tracks (reconciledState s stableThroughMs pauses) ∧
      ((reconciledState s stableThroughMs pauses).speechEvents.values ≠ [] →
        c.CoversSilences (reconciledState s stableThroughMs pauses)) := by
  have hpromoted : c.Tracks (promotedState s stableThroughMs) := h.promoted hfirst
  unfold detectedPauses
  simp only
  split_ifs with hfew
  · exact ⟨[], rfl, hpromoted.reconciled (fun e he => absurd he List.not_mem_nil),
      fun _ startMs stopMs hquiet => absurd hquiet (not_quiet_of_length_lt hfew)⟩
  · cases hprovenance : speechProvenance (promotedState s stableThroughMs)
        (newlyFinal stableThroughMs s.speechEvents.entries) with
    | none =>
        refine ⟨[], rfl, hpromoted.reconciled (fun e he => absurd he List.not_mem_nil),
          fun hvalues => absurd ?_ hvalues⟩
        rw [speechProvenance, Option.map_eq_none_iff, List.head?_eq_none_iff,
          List.append_eq_nil_iff] at hprovenance
        exact hprovenance.2
    | some provenance =>
        obtain ⟨pauses, hpauses, -, hpause, hall⟩ := exists_silentPauses c hc
          (heard_of_speechProvenance hprovenance) s.runId
          (hpromoted.ordered.sublist List.filter_sublist)
          (hpromoted.inTurn.sublist List.filter_sublist)
        exact ⟨pauses, hpauses, hpromoted.reconciled hpause,
          fun _ => hpromoted.covers_reconciled hc hpause hall⟩

end Reconciled

/-- Every result a call obtains is well spoken. -/
def HearsWell (c : Coordinator) (t : Stream) (r : Request) : Prop :=
  ∀ result ∈ c.transcribed t r, WellSpoken result

/-- The call merges its result and reconciles through its stable point. -/
def AdvancesBoundary (c : Coordinator) (t : Stream) (r : Request) : Prop :=
  ∃ result assembled transcript, c.Merges t r result assembled transcript ∧
    ReachesReconciliation r.ports t transcript assembled

/-- One of the speech events was reported by the runtime. -/
def HoldsReported (s : StreamingState) : Prop :=
  ∃ e ∈ s.speechEvents.values, e.type ≠ .silentPause

theorem Tracks.after (hc : c.Distinguishes) (h : c.Tracks t.state) {r : Request}
    (hr : c.HearsWell t r) :
    c.Tracks (c.after t r).state ∧
      (c.CoversSilences t.state ∧ t.state.speechEvents.values ≠ [] ∨
        c.AdvancesBoundary t r ∧ (c.after t r).state.speechEvents.values ≠ [] →
          c.CoversSilences (c.after t r).state) := by
  have hwell : ∀ {result assembled transcript}, c.Merges t r result assembled transcript →
      WellSpoken result := fun merged => hr _ merged.returned
  cases c.speechStep_after t r with
  | untouched unmerged same =>
      obtain ⟨htracks, hcovers⟩ := same.tracks h
      refine ⟨htracks, ?_⟩
      rintro (⟨hold, -⟩ | ⟨⟨_, _, _, merged, -⟩, -⟩)
      · exact hcovers hold
      · exact absurd merged (unmerged _ _ _)
  | assigned merged stopped same =>
      obtain ⟨htracks, hkept⟩ := h.assigned hc merged (hwell merged)
      obtain ⟨htracks', hcovers⟩ := same.tracks htracks
      refine ⟨htracks', ?_⟩
      rintro (⟨hold, -⟩ | ⟨⟨_, _, _, merged', reached⟩, -⟩)
      · exact hcovers (hkept hold)
      · obtain ⟨rfl, rfl⟩ := merged.unique merged'
        exact absurd reached stopped
  | @promoted _ assembled _ _ _ merged reached refused same =>
      obtain ⟨pauses, hpauses, -⟩ := (h.assigned hc merged (hwell merged)).1.reconcile
        hc (merged.finalFirst h.ordered) assembled.stableThroughMs
      cases refused.symm.trans hpauses
  | @reconciled _ assembled transcript pauses _ merged reached detected same =>
      obtain ⟨_, hpauses, htracks, hcovers⟩ := (h.assigned hc merged (hwell merged)).1.reconcile
        hc (merged.finalFirst h.ordered) assembled.stableThroughMs
      cases detected.symm.trans hpauses
      obtain ⟨htracks', hcovers'⟩ := same.tracks htracks
      refine ⟨htracks', fun hready => hcovers' (hcovers ?_)⟩
      rw [← same.speechEvents]
      rcases hready with ⟨-, hvalues⟩ | ⟨-, hvalues⟩
      · exact c.values_ne_nil_after hvalues r
      · exact hvalues

theorem Tracks.runCalls (hc : c.Distinguishes) (h : c.Tracks t.state) {rs : List Request}
    (hrs : c.EveryCall c.HearsWell t rs) : c.Tracks (c.runCalls t rs).state :=
  c.runCalls_induction (I := fun t => c.Tracks t.state) (fun _ _ ht hr => (ht.after hc hr).1) h hrs

theorem Tracks.covers_runCalls (hc : c.Distinguishes) (h : c.Tracks t.state)
    (hcovers : c.CoversSilences t.state) (hvalues : t.state.speechEvents.values ≠ [])
    {rs : List Request} (hrs : c.EveryCall c.HearsWell t rs) :
    c.CoversSilences (c.runCalls t rs).state := by
  have hrun := c.runCalls_induction (P := c.HearsWell) (I := fun t => c.Tracks t.state ∧
    c.CoversSilences t.state ∧ t.state.speechEvents.values ≠ []) ?_ ⟨h, hcovers, hvalues⟩ hrs
  · exact hrun.2.1
  · rintro t r ⟨ht, hcovers, hvalues⟩ hr
    obtain ⟨htracks, hkept⟩ := ht.after hc hr
    exact ⟨htracks, hkept (Or.inl ⟨hcovers, hvalues⟩), c.values_ne_nil_after hvalues r⟩

def pausesKnown (s : StreamingState) : List SpeechEvent :=
  s.speechEvents.values.filter fun e => e.type = .silentPause

/-- The silent pauses are final, each is there once, and their identifiers and intervals are those
that deriving the pauses of all final words at once gives. -/
structure DerivedAtOnce (c : Coordinator) (s : StreamingState) : Prop where
  final : ∀ e ∈ pausesKnown s, e.isFinal = true
  once : ((pausesKnown s).map (·.id)).Nodup
  oneShot : ∀ provenance : Provenance, provenance.modality = .audio →
    ∃ pauses, silentPauses c.digest s.transcript.finalTokens c.configuration.silenceThresholdMs
        provenance s.runId = .ok pauses ∧
      ((pausesKnown s).map fun e => (e.id, e.interval)).Perm
        (pauses.map fun e => (e.id, e.interval))

theorem KeyedById.nodup_pausesKnown (h : KeyedById s) : ((pausesKnown s).map (·.id)).Nodup := by
  have hvalues : (s.speechEvents.values.map (·.id)).Nodup := by
    apply List.Nodup.of_map fun id : EventId => id.value
    have hkeys : (s.speechEvents.values.map (·.id)).map (fun id : EventId => id.value) =
        s.speechEvents.entries.map Prod.fst := by
      rw [Dict.values, List.map_map, List.map_map]
      apply List.map_congr_left
      intro entry hentry
      exact h entry.1 entry.2 ((s.speechEvents.get?_eq_some_iff_mem _ _).2 hentry)
    rw [hkeys]
    exact s.speechEvents.nodup
  exact hvalues.sublist (List.filter_sublist.map _)

theorem eq_of_isPauseAt {digest : String → String} {runId : RunId} {e e' : SpeechEvent}
    {startMs stopMs : ℤ} (h : IsPauseAt digest runId e startMs stopMs)
    (h' : IsPauseAt digest runId e' startMs stopMs) : (e.id, e.interval) = (e'.id, e'.interval) :=
  Prod.ext (h.id.trans h'.id.symm) (Interval.ext (MonotonicTime.ext (h.start.trans h'.start.symm))
    (MonotonicTime.ext (h.stop.trans h'.stop.symm)) (h.tolerance.trans h'.tolerance.symm))

theorem Tracks.derivedAtOnce (hc : c.Distinguishes) (h : c.Tracks s)
    (hcovers : c.CoversSilences s) : c.DerivedAtOnce s where
  final e he := by
    obtain ⟨hmem, htype⟩ := List.mem_filter.1 he
    exact (h.sound e hmem (of_decide_eq_true htype)).1
  once := h.keyed.nodup_pausesKnown
  oneShot provenance heard := by
    obtain ⟨pauses, hpauses, hspans, hpause, hall⟩ := exists_silentPauses c hc heard s.runId
      (h.ordered.sublist List.filter_sublist) (h.inTurn.sublist List.filter_sublist)
    refine ⟨pauses, hpauses, (List.perm_ext_iff_of_nodup ?_ ?_).2 fun x => ?_⟩
    · apply List.Nodup.of_map Prod.fst
      rw [List.map_map]
      exact h.keyed.nodup_pausesKnown
    · apply List.Nodup.of_map fun p : EventId × Interval => (p.2.start.ms, p.2.stop.ms)
      rw [List.map_map]
      exact hspans
    · simp only [List.mem_map]
      constructor
      · rintro ⟨e, he, rfl⟩
        obtain ⟨hmem, htype⟩ := List.mem_filter.1 he
        obtain ⟨-, startMs, stopMs, hat, hquiet⟩ := h.sound e hmem (of_decide_eq_true htype)
        obtain ⟨pause, hmem', hat'⟩ := hall startMs stopMs hquiet
        exact ⟨pause, hmem', eq_of_isPauseAt hat' hat⟩
      · rintro ⟨pause, hmem, rfl⟩
        obtain ⟨startMs, stopMs, hat, hquiet⟩ := hpause pause hmem
        obtain ⟨e, he, hat'⟩ := hcovers startMs stopMs hquiet
        exact ⟨e, List.mem_filter.2 ⟨he, decide_eq_true hat'.silent⟩, eq_of_isPauseAt hat' hat⟩

/-- The pauses known after a call that moves the boundary, and ever after, are those of deriving
them at once, if the runtime has reported an event by then. -/
theorem derivedAtOnce_runCalls {runId : RunId} {sessionId : SessionId}
    {configuration : ConfigurationSnapshot} {calibrator : Calibrator .double}
    {digest : String → String} {maxQueueDepth : ℤ}
    (hc : c = forRun runId configuration calibrator digest maxQueueDepth)
    (hdigest : Function.Injective digest) (hthreshold : 100 ≤ configuration.silenceThresholdMs)
    (before : List Request) {later : List Request} {r : Request}
    (hheard : c.EveryCall c.HearsWell (.fresh runId sessionId) (before ++ r :: later))
    (hmoves : c.AdvancesBoundary (c.runCalls (.fresh runId sessionId) before) r)
    (hreported : HoldsReported (c.runCalls (.fresh runId sessionId) (before ++ [r])).state) :
    c.DerivedAtOnce (c.runCalls (.fresh runId sessionId) (before ++ r :: later)).state := by
  have hdistinct : c.Distinguishes := by
    rw [hc]
    exact ⟨hdigest, rfl, hthreshold⟩
  have hrun : c.speechAssembler.runId = runId := by rw [hc]; rfl
  obtain ⟨hbefore, hr, hlater⟩ := (everyCall_append _).1 hheard
  have hfresh : c.Tracks (Stream.fresh runId sessionId).state := hrun ▸ c.tracks_fresh sessionId
  have htracks := hfresh.runCalls hdistinct hbefore
  rw [runCalls_append] at hreported ⊢
  obtain ⟨hafter, hcovers⟩ := htracks.after hdistinct hr
  obtain ⟨e, he, -⟩ := hreported
  have hvalues := List.ne_nil_of_mem he
  have hcovered := hcovers (Or.inr ⟨hmoves, hvalues⟩)
  exact (hafter.runCalls hdistinct hlater).derivedAtOnce hdistinct
    (hafter.covers_runCalls hdistinct hcovered hvalues hlater)

/-- A window with two words and a filled pause between them. -/
def wordsHeard (startMs : ℤ) : SpeechResult where
  modelVersion := sampleModel
  words :=
    [⟨"uno", startMs, startMs + 300, .fin 1⟩, ⟨"dos", startMs + 1500, startMs + 1800, .fin 1⟩]
  events := [⟨.filledPause, startMs + 400, startMs + 600, .fin 1, "", none⟩]
  prosody := []
  stableThroughMs := startMs + 2000

theorem wellSpoken_wordsHeard (startMs : ℤ) : WellSpoken (wordsHeard startMs) where
  apart := by simp [wordsHeard]
  pauseless := by simp [wordsHeard]

theorem hearsWell_hearing {sequence startMs : ℤ} :
    c.HearsWell t (hearing sequence (.ok (wordsHeard startMs))) := by
  intro result hresult
  rw [transcribed] at hresult
  dsimp only [hearing] at hresult
  split_ifs at hresult
  · cases hresult
    exact wellSpoken_wordsHeard startMs
  · cases hresult

/-- The second window adds two silences, one of which began in the first. -/
theorem derivedAtOnce_twoWindows :
    (sample id).DerivedAtOnce ((sample id).runCalls sampleStream
      [hearing 0 (.ok (wordsHeard 0)), hearing 1 (.ok (wordsHeard 3000))]).state := by
  refine derivedAtOnce_runCalls rfl Function.injective_id (by decide) []
    ⟨hearsWell_hearing, hearsWell_hearing, trivial⟩ ?_ ?_
  · exact ⟨_, _, _, ⟨rfl, rfl, rfl⟩, by decide⟩
  · unfold HoldsReported
    decide

end Coordinator

end OratoriaEngine
