import Mathlib.Data.Prod.Lex
import OratoriaEngine.Reconciliation

/-!
# What the coordinator can take from a runtime

The result of a runtime passes two assemblers, the transcript and the derivation of pauses. Each
of them refuses some results; what all of them take is said here hypothesis by hypothesis.
-/

namespace OratoriaEngine

def IsSpan (startMs endMs : ℤ) : Prop := 0 ≤ startMs ∧ startMs ≤ endMs

theorem Interval.of_isOk_iff {startMs endMs : ℤ} :
    (∃ i, Interval.of startMs endMs = .ok i) ↔ IsSpan startMs endMs := by
  constructor
  · rintro ⟨i, h⟩
    obtain ⟨hstart, hstop, -⟩ := Interval.of_eq_ok h
    rw [IsSpan, ← hstart, ← hstop]
    exact ⟨i.start.nonneg, i.ordered⟩
  · rintro ⟨hnonneg, hle⟩
    exact Interval.of_isOk hnonneg hle

namespace SpeechAssembler

variable (a : SpeechAssembler)

def SoundWord (word : WordHypothesis) : Prop :=
  IsSpan word.startMs word.endMs ∧ a.calibrator.Scores "word" word.score ∧ word.rawText ≠ ""

def SoundEvent (hypothesis : SpeechEventHypothesis) : Prop :=
  IsSpan hypothesis.startMs hypothesis.endMs ∧
    a.calibrator.Scores hypothesis.type.value hypothesis.score ∧
      (hypothesis.type.lexical = true → isBlank hypothesis.rawText = false)

def SoundProsody (hypothesis : ProsodyHypothesis) : Prop :=
  IsSpan hypothesis.startMs hypothesis.endMs ∧
    (hypothesis.value ≠ none → a.calibrator.Scores hypothesis.indicator.value hypothesis.score)

variable {a}

theorem token_isOk_iff {word : WordHypothesis} :
    (∃ t, a.token word = .ok t) ↔ a.SoundWord word := by
  rw [token, SoundWord, ← Interval.of_isOk_iff]
  refine Except.bind_isOk_iff fun interval _ => ?_
  rw [← Calibrator.calibrate_isOk_iff]
  refine Except.bind_isOk_iff fun confidence _ => ?_
  by_cases h : word.rawText ≠ ""
  · simp [WordToken.of, h]
  · simp [WordToken.of, h]

theorem event_isOk_iff {hypothesis : SpeechEventHypothesis} {provenance : Provenance}
    (heard : provenance.modality = .audio) :
    (∃ e, a.event hypothesis provenance = .ok e) ↔ a.SoundEvent hypothesis := by
  rw [event, SoundEvent, ← Interval.of_isOk_iff]
  refine Except.bind_isOk_iff fun interval _ => ?_
  rw [← Calibrator.calibrate_isOk_iff]
  refine Except.bind_isOk_iff fun confidence _ => ?_
  cases hlexical : hypothesis.type.lexical with
  | false => simp [SpeechEvent.of, heard, roleFor, hlexical]
  | true =>
      cases hblank : isBlank hypothesis.rawText with
      | false => simp [SpeechEvent.of, heard, roleFor, hlexical, hblank]
      | true => simp [SpeechEvent.of, heard, hlexical, hblank]

theorem prosody_isOk_iff {hypothesis : ProsodyHypothesis} {provenance : Provenance} :
    (∃ r, a.prosody hypothesis provenance = .ok r) ↔ a.SoundProsody hypothesis := by
  rw [prosody, SoundProsody, ← Interval.of_isOk_iff]
  refine Except.bind_isOk_iff fun window _ => ?_
  cases hypothesis.value with
  | none => exact iff_of_true ⟨_, rfl⟩ fun h => absurd rfl h
  | some value =>
      simp only [ne_eq, reduceCtorEq, not_false_eq_true, true_implies]
      rw [← Calibrator.calibrate_isOk_iff]
      exact (Except.bind_isOk_iff fun confidence _ => iff_of_true ⟨_, rfl⟩ trivial).trans
        (and_iff_left trivial)

theorem assemble_isOk_iff {result : SpeechResult} :
    (∃ assembled, a.assemble result = .ok assembled) ↔
      (∀ word ∈ result.words, a.SoundWord word) ∧
        (∀ hypothesis ∈ result.events, a.SoundEvent hypothesis) ∧
          ∀ hypothesis ∈ result.prosody, a.SoundProsody hypothesis := by
  have hparts : (∃ assembled, a.assemble result = .ok assembled) ↔
      (∃ tokens, result.words.mapM a.token = .ok tokens) ∧
        (∃ events, result.events.mapM (a.event · (a.provenance result)) = .ok events) ∧
          (∃ prosody, result.prosody.mapM (a.prosody · (a.provenance result)) = .ok prosody) ∧
            True := by
    refine Except.bind_isOk_iff fun tokens _ => ?_
    refine Except.bind_isOk_iff fun events _ => ?_
    exact Except.bind_isOk_iff fun prosody _ => iff_of_true ⟨_, rfl⟩ trivial
  have heard : (a.provenance result).modality = .audio := rfl
  rw [hparts, and_true]
  simp only [Except.mapM_isOk_iff, token_isOk_iff, event_isOk_iff heard, prosody_isOk_iff]

end SpeechAssembler

namespace VisualAssembler

variable (a : VisualAssembler)

/-- The hypothesis has a confidence, and either the gate on optional classes drops it or an event
can be built from it. -/
def SoundEvent (hypothesis : VisualEventHypothesis) : Prop :=
  ∃ confidence, a.calibrator.calibrate hypothesis.type.value hypothesis.score = .ok confidence ∧
    (hypothesis.type.optional = true ∧ confidence.meets
        ((a.configuration.visualThresholds.lookup hypothesis.type.value).getD
          optionalClassMinConfidence) = false ∨
      IsSpan hypothesis.startMs hypothesis.endMs ∧
        (hypothesis.type.gaze = true ↔ hypothesis.direction ≠ none) ∧
          (hypothesis.type.optional = true →
            confidence.meets optionalClassMinConfidence = true))

variable {a}

theorem eventOf_isOk_iff {id : EventId} {type : VisualEventType} {interval : Interval}
    {confidence : Confidence} {provenance : Provenance} {direction : Option GazeDirection}
    {magnitude : Option PyFloat} (seen : provenance.modality = .video) :
    (∃ e, VisualEvent.of id type interval confidence provenance direction magnitude = .ok e) ↔
      (type.gaze = true ↔ direction ≠ none) ∧
        (type.optional = true → confidence.meets optionalClassMinConfidence = true) := by
  unfold VisualEvent.of
  rw [dif_pos seen]
  split_ifs with hdirected hgated hgaze
  · exact iff_of_true ⟨_, rfl⟩ ⟨hdirected, hgated⟩
  · exact iff_of_false exists_false fun h => hgated h.2
  · exact iff_of_false exists_false fun h => hdirected h.1
  · exact iff_of_false exists_false fun h => hdirected h.1

theorem event_isOk_iff {hypothesis : VisualEventHypothesis} {provenance : Provenance}
    (seen : provenance.modality = .video) :
    (∃ e, a.event hypothesis provenance = .ok e) ↔ a.SoundEvent hypothesis := by
  rw [event, SoundEvent]
  cases hcalibrate : a.calibrator.calibrate hypothesis.type.value hypothesis.score with
  | error e =>
      apply iff_of_false Except.not_isOk_error
      rintro ⟨confidence, h, -⟩
      cases h
  | ok confidence =>
      simp only [Except.ok.injEq, exists_eq_left']
      generalize (a.configuration.visualThresholds.lookup hypothesis.type.value).getD
        optionalClassMinConfidence = threshold
      by_cases hgate : hypothesis.type.optional = true ∧ confidence.meets threshold = false
      · refine iff_of_true ⟨none, ?_⟩ (Or.inl hgate)
        simp only [bind, Except.bind, hgate.1, hgate.2, Bool.not_false, Bool.and_self, if_true]
        rfl
      · rw [or_iff_right hgate, ← Interval.of_isOk_iff]
        have hopen : (hypothesis.type.optional && !confidence.meets threshold) = false := by
          simpa using hgate
        simp only [bind, Except.bind, hopen, Bool.false_eq_true, if_false]
        refine Except.bind_isOk_iff fun interval _ => ?_
        exact Except.map_isOk_iff.trans (eventOf_isOk_iff seen)

theorem grade_isOk_iff {signal : VisualQualitySignal} :
    (∃ graded, grade signal = .ok graded) ↔ IsSpan signal.startMs signal.endMs := by
  rw [← Interval.of_isOk_iff]
  cases hwindow : Interval.of signal.startMs signal.endMs with
  | error e =>
      simp only [grade, assessments, hwindow, bind, Except.bind]
      exact iff_of_false Except.not_isOk_error Except.not_isOk_error
  | ok window =>
      refine iff_of_true ?_ ⟨window, rfl⟩
      simp only [grade, assessments, availability, hwindow, bind, Except.bind]
      split_ifs <;> exact ⟨_, rfl⟩

theorem assemble_isOk_iff {result : VisualResult} :
    (∃ assembled, a.assemble result = .ok assembled) ↔
      (∀ hypothesis ∈ result.events, a.SoundEvent hypothesis) ∧
        ∀ signal ∈ result.quality, IsSpan signal.startMs signal.endMs := by
  have hparts : (∃ assembled, a.assemble result = .ok assembled) ↔
      (∃ built, result.events.mapM (a.event · (a.provenance result)) = .ok built) ∧
        (∃ graded, result.quality.mapM grade = .ok graded) ∧ True := by
    refine Except.bind_isOk_iff fun built _ => ?_
    exact Except.bind_isOk_iff fun graded _ => iff_of_true ⟨_, rfl⟩ trivial
  have seen : (a.provenance result).modality = .video := rfl
  rw [hparts, and_true]
  simp only [Except.mapM_isOk_iff, event_isOk_iff seen, grade_isOk_iff]

end VisualAssembler

def WordToken.span (w : WordToken) : ℤ ×ₗ ℤ := toLex (w.interval.start.ms, w.interval.stop.ms)

def WordHypothesis.span (w : WordHypothesis) : ℤ ×ₗ ℤ := toLex (w.startMs, w.endMs)

/-- The second span starts too early for a pause, or not before the end of the first. -/
def Paced (thresholdMs : ℤ) (previous following : ℤ ×ₗ ℤ) : Prop :=
  (ofLex following).1 - (ofLex previous).2 < thresholdMs ∨ (ofLex previous).2 ≤ (ofLex following).1

theorem span_finalize (w : WordToken) : w.finalize.span = w.span := by
  rw [WordToken.span, w.finalize_interval, WordToken.span]

theorem span_le_of_orderingLe {v w : WordToken} (h : WordToken.orderingLe v w) :
    v.span ≤ w.span := by
  unfold WordToken.orderingLe at h
  rw [Prod.Lex.le_iff]
  simp only [WordToken.span, ofLex_toLex]
  omega

theorem span_of_token {a : SpeechAssembler} {word : WordHypothesis} {t : WordToken}
    (h : a.token word = .ok t) : t.span = word.span := by
  obtain ⟨interval, hi, h⟩ := Except.bind_eq_ok.1 h
  obtain ⟨confidence, -, h⟩ := Except.bind_eq_ok.1 h
  obtain ⟨hstart, hstop, -⟩ := Interval.of_eq_ok hi
  unfold WordToken.of at h
  split_ifs at h
  cases h
  simp only [WordToken.span, WordHypothesis.span, hstart, hstop]

theorem isChain_paced_iff {thresholdMs : ℤ} {words : List WordToken} :
    (words.map WordToken.span).IsChain (Paced thresholdMs) ↔
      ∀ gap ∈ gaps thresholdMs words, gap.1.interval.stop.ms ≤ gap.2.interval.start.ms := by
  induction words with
  | nil => exact iff_of_true .nil fun gap hgap => absurd hgap (not_mem_gaps_of_length_lt (by simp))
  | cons previous words ih =>
      cases words with
      | nil => exact iff_of_true (.singleton _) fun gap hgap =>
          absurd hgap (not_mem_gaps_of_length_lt (by simp))
      | cons following rest =>
          rw [List.map_cons, List.map_cons, List.isChain_cons_cons, ← List.map_cons, ih]
          constructor
          · rintro ⟨hpaced, hrest⟩ gap hgap
            rcases mem_gaps_cons_cons.1 hgap with ⟨rfl, hfar⟩ | hgap
            · exact hpaced.resolve_left (not_lt.2 hfar)
            · exact hrest gap hgap
          · intro h
            refine ⟨?_, fun gap hgap => h gap (mem_gaps_cons_cons.2 (.inr hgap))⟩
            by_cases hfar : thresholdMs ≤ following.interval.start.ms - previous.interval.stop.ms
            · exact Or.inr (h (previous, following) (mem_gaps_cons_cons.2 (.inl ⟨rfl, hfar⟩)))
            · exact Or.inl (not_le.1 hfar)

theorem pausesBetween_isOk_iff (digest : String → String) (runId : RunId) {thresholdMs : ℤ}
    {provenance : Provenance} (heard : provenance.modality = .audio) {words : List WordToken} :
    (∃ pauses, pausesBetween digest thresholdMs provenance runId words = .ok pauses) ↔
      (words.map WordToken.span).IsChain (Paced thresholdMs) := by
  rw [isChain_paced_iff]
  constructor
  · induction words using pausesBetween.induct thresholdMs with
    | case1 previous following rest gapMs hnear ih =>
        rw [pausesBetween, if_pos hnear]
        intro h gap hgap
        rcases mem_gaps_cons_cons.1 hgap with ⟨-, hfar⟩ | hgap
        · exact absurd hfar (not_le.2 hnear)
        · exact ih h gap hgap
    | case2 previous following rest gapMs hfar ih =>
        rw [pausesBetween, if_neg hfar]
        rintro ⟨pauses, h⟩ gap hgap
        obtain ⟨interval, hinterval, h⟩ := Except.bind_eq_ok.1 h
        obtain ⟨pause, -, h⟩ := Except.bind_eq_ok.1 h
        obtain ⟨others, hothers, -⟩ := Except.bind_eq_ok.1 h
        rcases mem_gaps_cons_cons.1 hgap with ⟨rfl, -⟩ | hgap
        · exact (Interval.of_isOk_iff.1 ⟨interval, hinterval⟩).2
        · exact ih ⟨others, hothers⟩ gap hgap
    | case3 words hshort =>
        intro _ gap hgap
        refine absurd hgap (not_mem_gaps_of_length_lt ?_)
        by_contra hlong
        obtain ⟨a, b, l, rfl⟩ : ∃ a b l, words = a :: b :: l := by
          rcases words with _ | ⟨a, _ | ⟨b, l⟩⟩
          · simp at hlong
          · simp at hlong
          · exact ⟨a, b, l, rfl⟩
        exact hshort a b l rfl
  · intro h
    obtain ⟨pauses, hpauses, -⟩ := pausesBetween_of_apart digest runId heard h
    exact ⟨pauses, hpauses⟩

namespace Coordinator

variable (c : Coordinator)

def settledSpans (t : Transcript) (result : SpeechResult) : List (ℤ ×ₗ ℤ) :=
  (t.finalTokens.map WordToken.span ++
    (result.words.filter fun word => word.endMs ≤ result.stableThroughMs).map
      WordHypothesis.span).insertionSort (· ≤ ·)

/-- If the stable point moves the frontier and there is an event to borrow a provenance from,
pauses can be built between the words that are final then. -/
def PausesFit (s : StreamingState) (result : SpeechResult) : Prop :=
  s.transcript.finalizedFrontier.ms < result.stableThroughMs →
    s.speechEvents.values ≠ [] ∨ result.events ≠ [] →
      (settledSpans s.transcript result).IsChain (Paced c.configuration.silenceThresholdMs)

/-- The speech that the coordinator takes: sound hypotheses, no word behind the frontier, and
pauses that fit. -/
structure TakesSpeech (s : StreamingState) (result : SpeechResult) : Prop where
  words : ∀ word ∈ result.words, c.speechAssembler.SoundWord word
  ahead : ∀ word ∈ result.words, s.transcript.finalizedFrontier.ms ≤ word.startMs
  events : ∀ hypothesis ∈ result.events, c.speechAssembler.SoundEvent hypothesis
  prosody : ∀ hypothesis ∈ result.prosody, c.speechAssembler.SoundProsody hypothesis
  pauses : PausesFit c s result

structure TakesVideo (result : VisualResult) : Prop where
  events : ∀ hypothesis ∈ result.events, c.visualAssembler.SoundEvent hypothesis
  quality : ∀ signal ∈ result.quality, IsSpan signal.startMs signal.endMs

variable {c} {s : StreamingState}

theorem values_eq_nil_iff {d : Dict String SpeechEvent} :
    d.values = [] ↔ ∀ key, d.get? key = none := by
  constructor
  · intro h key
    cases hget : d.get? key with
    | none => rfl
    | some e => exact absurd (Dict.mem_values_of_get? hget) (by simp [h])
  · intro h
    refine List.eq_nil_iff_forall_not_mem.2 fun e he => ?_
    obtain ⟨key, hget⟩ := (Dict.mem_values_iff d e).1 he
    rw [h key] at hget
    cases hget

theorem values_setAll_eq_nil_iff {d : Dict String SpeechEvent}
    {entries : List (String × SpeechEvent)} :
    (d.setAll entries).values = [] ↔ d.values = [] ∧ entries = [] := by
  constructor
  · intro h
    have hnone := values_eq_nil_iff.1 h
    have hentries : entries = [] := by
      refine List.eq_nil_iff_forall_not_mem.2 fun entry hentry => ?_
      rcases Dict.get?_setAll_cases d entries entry.1 with ⟨e, -, hget⟩ | ⟨hnot, -⟩
      · rw [hnone] at hget
        cases hget
      · exact hnot (List.mem_map_of_mem hentry)
    rw [hentries, Dict.setAll_nil] at h
    exact ⟨h, hentries⟩
  · rintro ⟨hd, rfl⟩
    exact hd

theorem speechProvenance_eq_none_iff {stableThroughMs : ℤ} :
    speechProvenance (promotedState s stableThroughMs)
      (newlyFinal stableThroughMs s.speechEvents.entries) = none ↔ s.speechEvents.values = [] := by
  constructor
  · intro h
    rw [speechProvenance, Option.map_eq_none_iff, List.head?_eq_none_iff,
      List.append_eq_nil_iff] at h
    exact (values_setAll_eq_nil_iff.1 h.2).1
  · intro h
    cases hprovenance : speechProvenance (promotedState s stableThroughMs)
        (newlyFinal stableThroughMs s.speechEvents.entries) with
    | none => rfl
    | some provenance => exact absurd h (values_ne_nil_of_speechProvenance hprovenance)

theorem detectedPauses_isOk_iff (hordered : s.transcript.tokens.Pairwise WordToken.orderingLe)
    {stableThroughMs : ℤ} :
    (∃ pauses, detectedPauses c s stableThroughMs = .ok pauses) ↔
      (s.speechEvents.values ≠ [] →
        ((promotedState s stableThroughMs).transcript.finalTokens.map WordToken.span).IsChain
          (Paced c.configuration.silenceThresholdMs)) := by
  unfold detectedPauses
  simp only
  split_ifs with hfew
  · refine iff_of_true ⟨[], rfl⟩ fun _ => isChain_paced_iff.2 fun gap hgap => ?_
    exact absurd hgap (not_mem_gaps_of_length_lt hfew)
  · cases hprovenance : speechProvenance (promotedState s stableThroughMs)
        (newlyFinal stableThroughMs s.speechEvents.entries) with
    | none =>
        exact iff_of_true ⟨[], rfl⟩ fun hvalues =>
          absurd (speechProvenance_eq_none_iff.1 hprovenance) hvalues
    | some provenance =>
        have hfinal : (promotedState s stableThroughMs).transcript.finalTokens.Pairwise
            WordToken.orderingLe :=
          (pairwise_promotedState hordered stableThroughMs).sublist List.filter_sublist
        simp only
        rw [silentPauses_of_ordered hfinal,
          pausesBetween_isOk_iff _ _ (heard_of_speechProvenance hprovenance)]
        exact ⟨fun h _ => h, fun h => h (values_ne_nil_of_speechProvenance hprovenance)⟩

theorem map_span_of_forall₂ {a : SpeechAssembler} {words : List WordHypothesis}
    {tokens : List WordToken} (h : List.Forall₂ (fun word t => a.token word = .ok t) words tokens) :
    tokens.map WordToken.span = words.map WordHypothesis.span := by
  induction h with
  | nil => rfl
  | cons htoken _ ih => rw [List.map_cons, List.map_cons, span_of_token htoken, ih]

section Assembled

variable {result : SpeechResult} {assembled : AssembledSpeech} {transcript : Transcript}
  (ha : c.speechAssembler.assemble result = .ok assembled)
include ha

theorem map_span_tokens : assembled.tokens.map WordToken.span =
    result.words.map WordHypothesis.span :=
  map_span_of_forall₂ (Except.mapM_eq_ok (SpeechAssembler.assemble_eq_ok ha).1)

theorem map_span_settled :
    (assembled.tokens.filter fun w => w.interval.stop.ms ≤ result.stableThroughMs).map
        WordToken.span =
      (result.words.filter fun word => word.endMs ≤ result.stableThroughMs).map
        WordHypothesis.span := by
  have hfilter := congrArg
    (List.filter fun span : ℤ ×ₗ ℤ => (ofLex span).2 ≤ result.stableThroughMs) (map_span_tokens ha)
  rw [List.filter_map, List.filter_map] at hfilter
  exact hfilter

/-- No token is refused exactly if no word starts behind the frontier. -/
theorem withProvisional_isOk_iff {t : Transcript} :
    (∃ transcript, t.withProvisional assembled.tokens = .ok transcript) ↔
      ∀ word ∈ result.words, t.finalizedFrontier.ms ≤ word.startMs := by
  rw [Transcript.exists_withProvisional_iff]
  have htokens := List.forall_mem_map (f := WordToken.span) (l := assembled.tokens)
    (P := fun span => t.finalizedFrontier.ms ≤ (ofLex span).1)
  have hwords := List.forall_mem_map (f := WordHypothesis.span) (l := result.words)
    (P := fun span => t.finalizedFrontier.ms ≤ (ofLex span).1)
  rw [map_span_tokens ha] at htokens
  exact htokens.symm.trans hwords

variable (ht : s.transcript.withProvisional assembled.tokens = .ok transcript)
include ht

theorem finalizedFrontier_withProvisional :
    transcript.finalizedFrontier.ms = s.transcript.finalizedFrontier.ms := by
  have hperm := Transcript.finalTokens_perm_withProvisional
    (fun w hw => SpeechAssembler.provisional_of_mem_tokens ha hw) ht
  exact le_antisymm (Transcript.frontier_le_of_subset hperm.subset)
    (Transcript.frontier_le_of_subset hperm.symm.subset)

theorem span_finalTokens_settled :
    ((transcript.promoted result.stableThroughMs).finalTokens.map WordToken.span) =
      settledSpans s.transcript result := by
  rw [Transcript.map_finalTokens_promoted span_finalize]
  have hprovisional : ∀ w ∈ assembled.tokens, w.isFinal = false := fun w hw =>
    SpeechAssembler.provisional_of_mem_tokens ha hw
  have hperm := ((Transcript.filter_perm_withProvisional ht hprovisional
    fun w => w.interval.stop.ms ≤ result.stableThroughMs).1).map WordToken.span
  rw [List.map_append, map_span_settled ha] at hperm
  have hsorted : ((transcript.tokens.filter fun w =>
      w.isFinal || decide (w.interval.stop.ms ≤ result.stableThroughMs)).map
        WordToken.span).Pairwise (· ≤ ·) :=
    List.pairwise_map.2 (((Transcript.pairwise_withProvisional ht).sublist
      List.filter_sublist).imp span_le_of_orderingLe)
  rw [settledSpans]
  exact (hperm.trans (List.perm_insertionSort _ _).symm).eq_of_pairwise
    (fun _ _ _ _ => le_antisymm) hsorted (List.pairwise_insertionSort _ _)

theorem pauses_isOk_iff {t : Stream} (hstate : t.state = s) :
    (transcript.finalizedFrontier.ms < assembled.stableThroughMs →
        ∃ pauses, detectedPauses c (withSpeech t transcript assembled).state
          assembled.stableThroughMs = .ok pauses) ↔ PausesFit c s result := by
  subst hstate
  obtain ⟨-, hevents, hstable⟩ := SpeechAssembler.assemble_eq_ok ha
  have hordered : (withSpeech t transcript assembled).state.transcript.tokens.Pairwise
      WordToken.orderingLe := Transcript.pairwise_withProvisional ht
  have hnone : assembled.events = [] ↔ result.events = [] := by
    rw [← List.length_eq_zero_iff, ← List.length_eq_zero_iff,
      (Except.mapM_eq_ok hevents).length_eq]
  have hvalues : (withSpeech t transcript assembled).state.speechEvents.values ≠ [] ↔
      t.state.speechEvents.values ≠ [] ∨ result.events ≠ [] := by
    rw [ne_eq, withSpeech, values_setAll_eq_nil_iff, List.map_eq_nil_iff, hnone, not_and_or]
  have hspans : (promotedState (withSpeech t transcript assembled).state
      result.stableThroughMs).transcript.finalTokens.map WordToken.span =
        settledSpans t.state.transcript result := span_finalTokens_settled ha ht
  rw [PausesFit, hstable, finalizedFrontier_withProvisional ha ht,
    detectedPauses_isOk_iff hordered, hvalues, hspans]

end Assembled

/-- A result passes the assembler, the transcript and the derivation of pauses exactly if it is
one the coordinator takes. -/
theorem takesSpeech_iff {t : Stream} {result : SpeechResult} :
    (∃ assembled transcript, c.speechAssembler.assemble result = .ok assembled ∧
      t.state.transcript.withProvisional assembled.tokens = .ok transcript ∧
        (transcript.finalizedFrontier.ms < assembled.stableThroughMs →
          ∃ pauses, detectedPauses c (withSpeech t transcript assembled).state
            assembled.stableThroughMs = .ok pauses)) ↔ TakesSpeech c t.state result := by
  constructor
  · rintro ⟨assembled, transcript, ha, ht, hpauses⟩
    obtain ⟨hwords, hevents, hprosody⟩ := SpeechAssembler.assemble_isOk_iff.1 ⟨assembled, ha⟩
    exact ⟨hwords, (withProvisional_isOk_iff ha).1 ⟨transcript, ht⟩, hevents, hprosody,
      (pauses_isOk_iff ha ht rfl).1 hpauses⟩
  · intro h
    obtain ⟨assembled, ha⟩ :=
      SpeechAssembler.assemble_isOk_iff.2 ⟨h.words, h.events, h.prosody⟩
    obtain ⟨transcript, ht⟩ := (withProvisional_isOk_iff ha).2 h.ahead
    exact ⟨assembled, transcript, ha, ht, (pauses_isOk_iff ha ht rfl).2 h.pauses⟩

theorem takesVideo_iff {result : VisualResult} :
    (∃ assembled, c.visualAssembler.assemble result = .ok assembled) ↔ TakesVideo c result := by
  rw [VisualAssembler.assemble_isOk_iff]
  exact ⟨fun h => ⟨h.1, h.2⟩, fun h => ⟨h.events, h.quality⟩⟩

end Coordinator

end OratoriaEngine
