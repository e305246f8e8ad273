import OratoriaEngine.Commands
import OratoriaEngine.SilentPauses

/-!
# What the completed document still leaves open

Completion finalizes the events but takes the transcript as the stream left it, and
derives no pauses. The document is therefore reconciled when the stream closed its
tail, and when every call on the way kept the pauses up with the final words.
-/

namespace OratoriaEngine.Coordinator

open Stateful

variable (c : Coordinator) (ports : StreamPorts) {t : Stream} {s : StreamingState}

def finalGaps (s : StreamingState) : List (WordToken × WordToken) :=
  gaps c.configuration.silenceThresholdMs s.transcript.finalTokens

/-- What holds the identifier of a gap's pause is that pause. -/
def Fits (s : StreamingState) : Prop :=
  ∀ gap ∈ c.finalGaps s, ∀ e ∈ s.speechEvents.get? (pauseKey c.digest s.runId gap), IsPauseOf e gap

/-- The pause of every gap can be built, and gaps with one identifier are one span. -/
structure Derivable (s : StreamingState) : Prop where
  apart : ∀ gap ∈ c.finalGaps s, gap.1.interval.stop.ms ≤ gap.2.interval.start.ms
  distinct : ∀ gap ∈ c.finalGaps s, ∀ gap' ∈ c.finalGaps s,
    pauseKey c.digest s.runId gap = pauseKey c.digest s.runId gap' →
      gap.1.interval.stop.ms = gap'.1.interval.stop.ms ∧
        gap.2.interval.start.ms = gap'.2.interval.start.ms

/-- Every gap has its pause, once there is an event to lend a provenance. -/
structure Covered (s : StreamingState) : Prop where
  ordered : s.transcript.tokens.Pairwise WordToken.orderingLe
  filled : s.speechEvents.values ≠ [] → ∀ gap ∈ c.finalGaps s,
    ∃ e, s.speechEvents.get? (pauseKey c.digest s.runId gap) = some e ∧ IsPauseOf e gap

theorem covered_fresh (runId : RunId) (sessionId : SessionId) :
    Covered c (.fresh runId sessionId) :=
  ⟨List.Pairwise.nil, fun h => absurd rfl h⟩

theorem Covered.congr {s' : StreamingState} (h : Covered c s) (hrun : s'.runId = s.runId)
    (htranscript : s'.transcript = s.transcript) (hevents : s'.speechEvents = s.speechEvents) :
    Covered c s' := by
  refine ⟨by rw [htranscript]; exact h.ordered, fun hs gap hgap => ?_⟩
  rw [hevents] at hs ⊢
  rw [finalGaps, htranscript] at hgap
  rw [hrun]
  exact h.filled hs gap hgap

theorem pairwise_promotedState (h : s.transcript.tokens.Pairwise WordToken.orderingLe)
    (stableThroughMs : ℤ) :
    (promotedState s stableThroughMs).transcript.tokens.Pairwise WordToken.orderingLe :=
  Transcript.ordered_promoted h stableThroughMs

theorem silentPauses_of_ordered {thresholdMs : ℤ} {words : List WordToken}
    (hordered : words.Pairwise WordToken.orderingLe) (digest : String → String)
    (provenance : Provenance) (runId : RunId) :
    silentPauses digest words thresholdMs provenance runId =
      pausesBetween digest thresholdMs provenance runId words := by
  rw [silentPauses, (hordered.imp WordToken.start_le_of_orderingLe).insertionSort_eq]

theorem values_ne_nil_of_speechProvenance {stableThroughMs : ℤ} {provenance : Provenance}
    (h : speechProvenance (promotedState s stableThroughMs)
      (newlyFinal stableThroughMs s.speechEvents.entries) = some provenance) :
    s.speechEvents.values ≠ [] := by
  intro hnone
  have hentries : s.speechEvents.entries = [] := List.map_eq_nil_iff.1 hnone
  simp [speechProvenance, promotedState, newlyFinal, promotions, hentries, hnone] at h

theorem heard_of_speechProvenance {events : List SpeechEvent} {provenance : Provenance}
    (h : speechProvenance s events = some provenance) : provenance.modality = .audio := by
  obtain ⟨e, -, rfl⟩ := Option.map_eq_some_iff.1 h
  exact e.heard

theorem exists_pause_of_derivable (hfits : Fits c s) (hderivable : Derivable c s)
    {pauses : List SpeechEvent}
    (hleft : ∀ gap ∈ c.finalGaps s, ∃ e ∈ pauses, Marks c.digest s.runId e gap)
    (hright : ∀ e ∈ pauses, ∃ gap ∈ c.finalGaps s, Marks c.digest s.runId e gap)
    {gap : WordToken × WordToken} (hgap : gap ∈ c.finalGaps s) :
    ∃ e, (s.speechEvents.setAll (keyed (unknownPauses s.speechEvents pauses))).get?
      (pauseKey c.digest s.runId gap) = some e ∧ IsPauseOf e gap := by
  obtain ⟨pause, hpause, -, hid⟩ := hleft gap hgap
  obtain ⟨e, hget, hfrom⟩ := exists_get?_setAll_unknownPauses s.speechEvents hpause
  rw [hid] at hget hfrom
  refine ⟨e, hget, ?_⟩
  rcases hfrom with hold | ⟨p, hp, hkey, rfl⟩
  · exact hfits gap hgap e hold
  · obtain ⟨gap', hgap', hpause', hid'⟩ := hright p hp
    obtain ⟨hstart, hstop⟩ := hderivable.distinct gap' hgap' gap hgap (hid'.symm.trans hkey)
    exact IsPauseOf.finalize ⟨hpause'.silent, hpause'.start.trans hstart, hpause'.stop.trans hstop⟩

theorem covered_reconciledState {stableThroughMs : ℤ}
    (hordered : s.transcript.tokens.Pairwise WordToken.orderingLe)
    (hready : s.speechEvents.values ≠ [] → Fits c (promotedState s stableThroughMs) ∧
      Derivable c (promotedState s stableThroughMs)) :
    ∃ pauses, detectedPauses c s stableThroughMs = .ok pauses ∧
      Covered c (reconciledState s stableThroughMs pauses) := by
  have hpromoted := pairwise_promotedState hordered stableThroughMs
  unfold detectedPauses
  simp only
  split_ifs with hfew
  · exact ⟨[], rfl, hpromoted, fun _ gap hgap => absurd hgap (not_mem_gaps_of_length_lt hfew)⟩
  · cases hprovenance : speechProvenance (promotedState s stableThroughMs)
        (newlyFinal stableThroughMs s.speechEvents.entries) with
    | none =>
        refine ⟨[], rfl, hpromoted, fun hvalues => absurd ?_ hvalues⟩
        rw [speechProvenance, Option.map_eq_none_iff, List.head?_eq_none_iff,
          List.append_eq_nil_iff] at hprovenance
        exact hprovenance.2
    | some provenance =>
        obtain ⟨hfits, hderivable⟩ := hready (values_ne_nil_of_speechProvenance hprovenance)
        obtain ⟨pauses, hpauses, hleft, hright⟩ := pausesBetween_of_apart c.digest s.runId
          (heard_of_speechProvenance hprovenance) hderivable.apart
        refine ⟨pauses, ?_, hpromoted, fun _ gap hgap => ?_⟩
        · rw [← hpauses]
          exact silentPauses_of_ordered (hpromoted.sublist List.filter_sublist) _ _ _
        · exact exists_pause_of_derivable c hfits hderivable hleft hright hgap

/-- The call gets as far as reconciling: the channel takes its provisional message and its
stable point is past the frontier. -/
def ReachesReconciliation (t : Stream) (transcript : Transcript)
    (assembled : AssembledSpeech) : Prop :=
  Delivers ports.channel t.published
      (speechMessages (withSpeech t transcript assembled).state assembled.events false) ∧
    transcript.finalizedFrontier.ms < assembled.stableThroughMs

instance (t : Stream) (transcript : Transcript) (assembled : AssembledSpeech) :
    Decidable (ReachesReconciliation ports t transcript assembled) :=
  inferInstanceAs (Decidable (_ ∧ _))

variable {result : SpeechResult} {assembled : AssembledSpeech} {transcript : Transcript}

theorem state_exec_absorbSpeech_of_ok (ha : c.speechAssembler.assemble result = .ok assembled)
    (ht : t.state.transcript.withProvisional assembled.tokens = .ok transcript) :
    (exec (absorbSpeech c ports result) t).2.state =
      if ReachesReconciliation ports t transcript assembled then
        match detectedPauses c (withSpeech t transcript assembled).state
            assembled.stableThroughMs with
        | .error _ =>
            promotedState (withSpeech t transcript assembled).state assembled.stableThroughMs
        | .ok pauses =>
            reconciledState (withSpeech t transcript assembled).state assembled.stableThroughMs
              pauses
      else (withSpeech t transcript assembled).state := by
  rw [exec_absorbSpeech_ok c ports ha ht]
  by_cases hd : Delivers ports.channel t.published
      (speechMessages (withSpeech t transcript assembled).state assembled.events false)
  · have hpublish := exec_publishAll_of_delivers ports (t := withSpeech t transcript assembled) hd
    rw [← exec_publishSpeech_eq] at hpublish
    rw [exec_bind_ok hpublish, state_exec_finalizeThrough]
    simp only [ReachesReconciliation, hd, true_and]
    rfl
  · rw [if_neg fun h => hd h.1]
    obtain ⟨r, log, hpublish, -⟩ :=
      exec_publishSpeech ports assembled.events false (withSpeech t transcript assembled)
    cases r with
    | error e => rw [exec_bind_error hpublish]
    | ok _ =>
        rw [exec_publishSpeech_eq] at hpublish
        exact absurd ((returns_publishAll_iff ports _ (withSpeech t transcript assembled)).1
          ⟨_, by rw [hpublish]⟩) hd

/-- What an assignment of events must respect for the pauses to keep up with the final words. -/
structure KeepsUp (t : Stream) (transcript : Transcript) (assembled : AssembledSpeech) :
    Prop where
  reconciled : ReachesReconciliation ports t transcript assembled →
    (withSpeech t transcript assembled).state.speechEvents.values ≠ [] →
      let promoted :=
        promotedState (withSpeech t transcript assembled).state assembled.stableThroughMs
      Fits c promoted ∧ Derivable c promoted
  unreconciled : ¬ReachesReconciliation ports t transcript assembled →
    Fits c (withSpeech t transcript assembled).state ∧
      (t.state.speechEvents.values = [] → assembled.events ≠ [] → c.finalGaps t.state = [])

/-- Every audio call that gets as far as assigning its events keeps the pauses up. -/
def PausesKeepUp (t : Stream) (r : Request) : Prop :=
  ∀ sequence window result assembled transcript, r.call = .audio sequence window →
    Novel t .audio sequence → HasRoom c t → r.ports.speech window = .ok result →
    c.speechAssembler.assemble result = .ok assembled →
    t.state.transcript.withProvisional assembled.tokens = .ok transcript →
    KeepsUp c r.ports t transcript assembled

theorem finalGaps_withSpeech (hordered : t.state.transcript.tokens.Pairwise WordToken.orderingLe)
    (ha : c.speechAssembler.assemble result = .ok assembled)
    (ht : t.state.transcript.withProvisional assembled.tokens = .ok transcript) :
    c.finalGaps (withSpeech t transcript assembled).state = c.finalGaps t.state :=
  congrArg (gaps _) (Transcript.finalTokens_withProvisional hordered
    (fun _ => SpeechAssembler.provisional_of_mem_tokens ha) ht)

theorem covered_withSpeech (hc : Covered c t.state)
    (ha : c.speechAssembler.assemble result = .ok assembled)
    (ht : t.state.transcript.withProvisional assembled.tokens = .ok transcript)
    (hfits : Fits c (withSpeech t transcript assembled).state)
    (hfirst : t.state.speechEvents.values = [] → assembled.events ≠ [] →
      c.finalGaps t.state = []) :
    Covered c (withSpeech t transcript assembled).state := by
  refine ⟨Transcript.pairwise_withProvisional ht, fun hvalues gap hgap => ?_⟩
  have hold : gap ∈ c.finalGaps t.state := by rwa [finalGaps_withSpeech c hc.ordered ha ht] at hgap
  by_cases hnone : t.state.speechEvents.values = []
  · by_cases hevents : assembled.events = []
    · refine absurd ?_ hvalues
      change (t.state.speechEvents.setAll (assembled.events.map _)).values = []
      rw [hevents]
      exact hnone
    · rw [hfirst hnone hevents] at hold
      cases hold
  · obtain ⟨e, hget, -⟩ := hc.filled hnone gap hold
    obtain ⟨e', hget'⟩ : ∃ e', (withSpeech t transcript assembled).state.speechEvents.get?
        (pauseKey c.digest t.state.runId gap) = some e' := by
      rcases Dict.get?_setAll_cases t.state.speechEvents
        (assembled.events.map fun e => (e.id.value, e)) (pauseKey c.digest t.state.runId gap)
        with ⟨e', -, hget'⟩ | ⟨-, hget'⟩
      · exact ⟨e', hget'⟩
      · exact ⟨e, hget'.trans hget⟩
    exact ⟨e', hget', hfits gap hgap e' hget'⟩

theorem covered_absorbSpeech (hc : Covered c t.state)
    (hkeeps : ∀ assembled transcript, c.speechAssembler.assemble result = .ok assembled →
      t.state.transcript.withProvisional assembled.tokens = .ok transcript →
      KeepsUp c ports t transcript assembled) :
    Covered c (exec (absorbSpeech c ports result) t).2.state := by
  cases ha : c.speechAssembler.assemble result with
  | error e =>
      rw [exec_absorbSpeech_assemble_error c ports ha]
      exact hc
  | ok assembled =>
      cases ht : t.state.transcript.withProvisional assembled.tokens with
      | error e =>
          rw [exec_absorbSpeech_transcript_error c ports ha ht]
          exact hc
      | ok transcript =>
          have hkeep := hkeeps assembled transcript ha ht
          rw [state_exec_absorbSpeech_of_ok c ports ha ht]
          split_ifs with hreaches
          · obtain ⟨pauses, hpauses, hcovered⟩ := covered_reconciledState c
              (s := (withSpeech t transcript assembled).state)
              (Transcript.pairwise_withProvisional ht) (hkeep.reconciled hreaches)
            rw [hpauses]
            exact hcovered
          · obtain ⟨hfits, hfirst⟩ := hkeep.unreconciled hreaches
            exact covered_withSpeech c hc ha ht hfits hfirst

theorem covered_after {r : Request} (hc : Covered c t.state) (hr : PausesKeepUp c t r) :
    Covered c (c.after t r).state := by
  obtain ⟨ports, call⟩ := r
  cases call with
  | audio sequence window =>
      rcases after_audio_cases c ports (t := t) window with hf | ⟨result, l, hans, hn, hroom, hx⟩
      · exact hc.congr c hf.runId hf.transcript hf.speechEvents
      · rw [hx]
        refine covered_absorbSpeech c ports (hc.congr c rfl rfl rfl) fun assembled tr ha ht => ?_
        have hkeep := hr sequence window result assembled tr rfl hn hroom hans ha ht
        refine ⟨fun hreaches hvalues => ?_, hkeep.unreconciled⟩
        obtain ⟨hfits, hderivable⟩ := hkeep.reconciled hreaches hvalues
        exact ⟨hfits, hderivable.apart, hderivable.distinct⟩
  | video sequence frames =>
      rcases after_video_cases c ports (t := t) frames with hf | ⟨result, l, -, -, -, hx⟩
      · exact hc.congr c hf.runId hf.transcript hf.speechEvents
      · obtain ⟨events, quality, hstate, -⟩ := state_exec_absorbVisual c ports result
          (withCall (withChunks t .video l) (.observe frames))
        rw [hx, hstate]
        exact hc.congr c rfl rfl rfl

/-- Along a run whose calls keep the pauses up, every gap between final words has its pause. -/
theorem covered_runCalls {rs : List Request} (hc : Covered c t.state)
    (h : c.EveryCall (PausesKeepUp c) t rs) : Covered c (c.runCalls t rs).state :=
  c.runCalls_induction (I := fun t => Covered c t.state) (fun _ _ ht hr => covered_after c ht hr)
    hc h

end OratoriaEngine.Coordinator

namespace OratoriaEngine.CompleteSession

open Program

theorem yields_execute (caller : AuthenticatedCaller) (sessionId : SessionId)
    (state : StreamingState) (configuration : ConfigurationSnapshot) (wallMs nowMs : ℤ) :
    Yields (fun completed => ∃ bundle,
        Assembled state configuration caller.tenant sessionId bundle completed.document)
      (execute caller sessionId state configuration wallMs nowMs) := by
  refine yields_bind fun _ => yields_bind fun session => yields_ofExcept_bind fun completing _ => ?_
  refine yields_bind fun _ => yields_ofExcept_bind fun evidence hevidence => ?_
  refine yields_bind fun _ => yields_bind fun _ => yields_ofExcept_bind fun completed _ => ?_
  refine yields_bind fun _ => yields_bind fun _ => yields_pure ?_
  exact ⟨evidence.1, assembleEvidence_eq_ok hevidence⟩

/-- Everything in the document is final, and every gap between its words has its pause. -/
structure Reconciled (thresholdMs : ℤ) (document : EvidenceDocument) : Prop where
  speech : ∀ e ∈ document.speechEvents, e.isFinal = true
  visual : ∀ e ∈ document.visualEvents, e.isFinal = true
  words : ∀ w ∈ document.transcript.tokens, w.isFinal = true
  paused : document.speechEvents ≠ [] → ∀ gap ∈ gaps thresholdMs document.transcript.tokens,
    ∃ e ∈ document.speechEvents, IsPauseOf e gap

variable {c : Coordinator} {state : StreamingState} {configuration : ConfigurationSnapshot}
  {tenant : TenantId} {sessionId : SessionId} {bundle : EvidenceBundle}
  {document : EvidenceDocument}

theorem mem_gaps_of_le {thresholdMs thresholdMs' : ℤ} (h : thresholdMs ≤ thresholdMs')
    {words : List WordToken} {gap : WordToken × WordToken} (hgap : gap ∈ gaps thresholdMs' words) :
    gap ∈ gaps thresholdMs words := by
  obtain ⟨hmem, hfar⟩ := List.mem_filter.1 hgap
  exact List.mem_filter.2 ⟨hmem, decide_eq_true (h.trans (of_decide_eq_true hfar))⟩

/-- Where the pauses kept up with the final words, the document is reconciled exactly when the
transcript has no provisional tail left. -/
theorem reconciled_iff_of_covered (hc : c.Covered state)
    (hthreshold : c.configuration.silenceThresholdMs ≤ configuration.silenceThresholdMs)
    (ha : Assembled state configuration tenant sessionId bundle document) :
    Reconciled configuration.silenceThresholdMs document ↔
      state.transcript.provisionalTokens = [] := by
  have hspeech : ∀ e, e ∈ document.speechEvents ↔
      ∃ e' ∈ state.speechEvents.values, e'.finalize = e := fun e => by
    rw [ha.speechEvents, List.mem_map]
  constructor
  · intro h
    apply List.filter_eq_nil_iff.2
    intro w hw
    rw [← ha.transcript] at hw
    simp [h.words w hw]
  · intro hclosed
    have hfinal : ∀ w ∈ state.transcript.tokens, w.isFinal = true := fun w hw => by
      simpa using List.filter_eq_nil_iff.1 hclosed w hw
    refine ⟨fun e he => ?_, fun e he => ?_, fun w hw => ?_, fun hsome gap hgap => ?_⟩
    · obtain ⟨e', -, rfl⟩ := (hspeech e).1 he
      exact e'.finalize_isFinal
    · rw [ha.visualEvents] at he
      obtain ⟨e', -, rfl⟩ := List.mem_map.1 he
      exact e'.finalize_isFinal
    · rw [ha.transcript] at hw
      exact hfinal w hw
    · have hvalues : state.speechEvents.values ≠ [] := fun h =>
        hsome (by rw [ha.speechEvents, h]; rfl)
      have hall : state.transcript.finalTokens = state.transcript.tokens :=
        List.filter_eq_self.2 hfinal
      rw [ha.transcript, ← hall] at hgap
      obtain ⟨e, hget, hpause⟩ := hc.filled hvalues gap (mem_gaps_of_le hthreshold hgap)
      exact ⟨e.finalize, (hspeech _).2 ⟨e, Dict.mem_values_of_get? hget, rfl⟩, hpause.finalize⟩

/-- Over a run whose calls keep the pauses up, what completion returns is reconciled exactly when
the stream left no provisional word. -/
theorem reconciled_iff_of_pausesKeepUp {W : Type} {runId : RunId} {streamId : SessionId}
    {rs : List Coordinator.Request} {caller : AuthenticatedCaller} {wallMs nowMs : ℤ}
    {ports : Ports Port Port.Answer Failure W} {fault : FaultPlan Failure} {n : ℕ} {w w' : W}
    {completed : CompletedSession}
    (hkeeps : c.EveryCall (Coordinator.PausesKeepUp c) (.fresh runId streamId) rs)
    (hthreshold : c.configuration.silenceThresholdMs ≤ configuration.silenceThresholdMs)
    (hrun : (execute caller sessionId (c.runCalls (.fresh runId streamId) rs).state configuration
      wallMs nowMs).run ports fault n w = (.ok completed, w')) :
    Reconciled configuration.silenceThresholdMs completed.document ↔
      (c.runCalls (.fresh runId streamId) rs).state.transcript.provisionalTokens = [] := by
  have hcovered :=
    Coordinator.covered_runCalls c (Coordinator.covered_fresh c runId streamId) hkeeps
  obtain ⟨bundle, hassembled⟩ := (yields_execute _ _ _ _ _ _).of_run hrun
  exact reconciled_iff_of_covered hcovered hthreshold hassembled

/-- Two words a second apart and a filled pause over the first. -/
def greetingHeard (stableThroughMs : ℤ) : SpeechResult where
  modelVersion := Coordinator.sampleModel
  words := [⟨"hola", 0, 400, .fin 1⟩, ⟨"mundo", 1400, 1800, .fin 1⟩]
  events := [⟨.filledPause, 0, 100, .fin 1, "", none⟩]
  prosody := []
  stableThroughMs := stableThroughMs

def greetingDigest : String → String
  | "run-1|0|hola" => "322360fcca772441ee18e25a411ad195"
  | "run-1|14|mundo" => "cf8e516868ccb088cdc1c0ebca0e0f05"
  | "run-1|filled_pause|0|" => "94db8c0d48215e2eb3c33889069d3818"
  | _ => "40b7da3c86ea961f4a9ecf3c61e650aa"

def greeted (stableThroughMs : ℤ) : Stream :=
  (Coordinator.sample greetingDigest).runCalls Coordinator.sampleStream
    [Coordinator.hearing 0 (.ok (greetingHeard stableThroughMs))]

def completeGreeting (stableThroughMs : ℤ) : Except Failure CompletedSession × World :=
  (execute operator studySessionId (greeted stableThroughMs).state defaultConfiguration 1000
    1000).run inMemory noFault 0 (study .capturing)

theorem pausesKeepUp_greeting :
    Coordinator.PausesKeepUp (Coordinator.sample greetingDigest) Coordinator.sampleStream
      (Coordinator.hearing 0 (.ok (greetingHeard 1800))) := by
  rintro sequence window result assembled transcript hcall - - hans ha ht
  cases hcall
  cases hans
  cases ha
  cases ht
  refine ⟨fun _ _ => ⟨by unfold Coordinator.Fits; decide, by decide, by decide⟩, fun h => ?_⟩
  exact absurd (by decide) h

/-- Where it settled everything, the document is reconciled, with the pause between the words. -/
theorem reconciled_of_settled :
    (∃ completed w', completeGreeting 1800 = (.ok completed, w')) ∧
      ∀ completed w', completeGreeting 1800 = (.ok completed, w') →
        Reconciled defaultConfiguration.silenceThresholdMs completed.document := by
  refine ⟨⟨_, _, Prod.ext (by rfl) rfl⟩, fun completed w' hrun => ?_⟩
  have hkeeps : (Coordinator.sample greetingDigest).EveryCall
      (Coordinator.PausesKeepUp (Coordinator.sample greetingDigest)) Coordinator.sampleStream
      [Coordinator.hearing 0 (.ok (greetingHeard 1800))] := ⟨pausesKeepUp_greeting, trivial⟩
  exact (reconciled_iff_of_pausesKeepUp hkeeps le_rfl hrun).2 (by decide)

/-- Where the runtime settled nothing, the document keeps provisional words. -/
theorem not_reconciled_of_unsettled :
    ∃ completed w', completeGreeting 0 = (.ok completed, w') ∧
      ¬Reconciled defaultConfiguration.silenceThresholdMs completed.document := by
  refine ⟨_, _, Prod.ext (by rfl) rfl, fun h => ?_⟩
  exact absurd h.words (by decide)

end OratoriaEngine.CompleteSession
