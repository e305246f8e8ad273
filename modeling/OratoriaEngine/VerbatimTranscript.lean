import OratoriaEngine.DeterministicRuntime
import OratoriaEngine.ModalityIsolation
import OratoriaEngine.Reconciliation
import OratoriaEngine.RefusedIngest

/-!
# No word is lost or duplicated

The runtime keeps a stable point and the transcript a frontier. Fed window after window,
in any order, the transcript holds every scripted word up to the largest stable point as
final and the rest of what the last window reached as provisional, each word once.
-/

namespace OratoriaEngine

def WordToken.utterance (token : WordToken) : String × ℤ × ℤ :=
  (token.rawText, token.interval.start.ms, token.interval.stop.ms)

def ScriptedWord.utterance (word : ScriptedWord) : String × ℤ × ℤ :=
  (word.text, word.startMs, word.endMs)

/-- The words do not overlap. -/
def ScriptedWord.Apart (v w : ScriptedWord) : Prop := v.endMs ≤ w.startMs ∨ w.endMs ≤ v.startMs

/-- A script the domain accepts, word by word and event by event, without a scripted failure. Every
score in the unit interval has a confidence: a curve with infinite knots could refuse one. -/
structure SpeechScript.Playable (script : SpeechScript) (a : SpeechAssembler) : Prop where
  said : ∀ w ∈ script.words, w.text ≠ ""
  placed : ∀ w ∈ script.words, 0 ≤ w.startMs ∧ w.startMs < w.endMs
  apart : script.words.Pairwise ScriptedWord.Apart
  scored : ∀ w ∈ script.words, ∃ q : ℚ, w.score = .fin q ∧ 0 ≤ q ∧ q ≤ 1
  calibrates : ∀ (classIdentifier : String) (q : ℚ), 0 ≤ q → q ≤ 1 →
    a.calibrator.Scores classIdentifier (.fin q)
  accepted : ∀ e ∈ script.events, ∀ result, result.modelVersion = script.modelVersion →
    ∃ event, a.event e.hypothesis (a.provenance result) = .ok event
  unfailing : script.failAfterWindow = none
  tail : 0 ≤ script.instabilityTailMs

def SpeechScript.wordsBy (script : SpeechScript) (ms : ℤ) : List ScriptedWord :=
  script.words.filter fun w => w.endMs ≤ ms

/-- The words that end after a position and start before the window ends. -/
def SpeechScript.wordsAfter (script : SpeechScript) (ms : ℤ) (window : AudioWindow) :
    List ScriptedWord :=
  script.words.filter fun w => DeterministicSpeechRuntime.active ms window w.startMs w.endMs

structure AudioWindow.Placed (window : AudioWindow) : Prop where
  position : 0 ≤ window.sessionPositionMs
  duration : 0 ≤ window.durationMs

theorem AudioWindow.Placed.endMs_nonneg {window : AudioWindow} (h : window.Placed) :
    0 ≤ window.endMs := add_nonneg h.position h.duration

namespace SpeechScript.Playable

variable {script : SpeechScript} {a : SpeechAssembler} {window : AudioWindow}

theorem stableThrough_le (h : script.Playable a) (hw : window.Placed) :
    0 ≤ script.stableThrough window ∧ script.stableThrough window ≤ window.endMs := by
  have hend := hw.endMs_nonneg
  have htail := h.tail
  unfold SpeechScript.stableThrough
  split_ifs
  · exact ⟨hend, le_rfl⟩
  · exact ⟨le_max_left _ _, max_le hend (by omega)⟩

theorem apart_of_ne (h : script.Playable a) {v w : ScriptedWord} (hv : v ∈ script.words)
    (hw : w ∈ script.words) (hne : v ≠ w) : v.Apart w := by
  have : Std.Symm ScriptedWord.Apart := ⟨fun _ _ => Or.symm⟩
  exact h.apart.forall hv hw hne

/-- What was final, and what a window makes final, is what ends by the new stable point. -/
theorem wordsBy_perm (h : script.Playable a) (hw : window.Placed) (stableMs : ℤ) :
    (script.wordsBy stableMs ++ (script.wordsAfter stableMs window).filter
        fun w => w.endMs ≤ script.stableThrough window).Perm
      (script.wordsBy (max stableMs (script.stableThrough window))) := by
  obtain ⟨-, hle⟩ := h.stableThrough_le hw
  have hby : script.wordsBy stableMs =
      (script.wordsBy (max stableMs (script.stableThrough window))).filter
        fun w => w.endMs ≤ stableMs := by
    rw [SpeechScript.wordsBy, SpeechScript.wordsBy, List.filter_filter]
    apply List.filter_congr
    intro w _
    simp only [← Bool.decide_and, decide_eq_decide]
    omega
  have hafter : (script.wordsAfter stableMs window).filter
        (fun w => decide (w.endMs ≤ script.stableThrough window)) =
      (script.wordsBy (max stableMs (script.stableThrough window))).filter
        fun w => !decide (w.endMs ≤ stableMs) := by
    rw [SpeechScript.wordsAfter, SpeechScript.wordsBy, List.filter_filter, List.filter_filter]
    apply List.filter_congr
    intro w hmem
    have hplaced := h.placed w hmem
    simp only [DeterministicSpeechRuntime.active, ← Bool.decide_and, ← decide_not,
      decide_eq_decide]
    omega
  rw [hafter]
  nth_rewrite 1 [hby]
  exact List.filter_append_perm _ _

/-- What a window leaves open is what ends after the new stable point. -/
theorem wordsAfter_filter (stableMs : ℤ) :
    (script.wordsAfter stableMs window).filter
        (fun w => !decide (w.endMs ≤ script.stableThrough window)) =
      script.wordsAfter (max stableMs (script.stableThrough window)) window := by
  rw [SpeechScript.wordsAfter, SpeechScript.wordsAfter, List.filter_filter]
  apply List.filter_congr
  intro w _
  simp only [DeterministicSpeechRuntime.active, ← Bool.decide_and, ← decide_not, decide_eq_decide]
  omega

end SpeechScript.Playable

namespace SpeechAssembler

variable {a : SpeechAssembler} {script : SpeechScript} {window : AudioWindow}

theorem utterance_token {word : ScriptedWord} {token : WordToken}
    (h : a.token word.hypothesis = .ok token) : token.utterance = word.utterance := by
  obtain ⟨interval, hi, h⟩ := Except.bind_eq_ok.1 h
  obtain ⟨confidence, -, h⟩ := Except.bind_eq_ok.1 h
  obtain ⟨hstart, hstop, -⟩ := Interval.of_eq_ok hi
  unfold WordToken.of at h
  split_ifs at h
  cases h
  exact congrArg (Prod.mk word.text) (Prod.ext hstart hstop)

theorem exists_token (h : script.Playable a) {word : ScriptedWord} (hword : word ∈ script.words) :
    ∃ token, a.token word.hypothesis = .ok token := by
  obtain ⟨h0, hlt⟩ := h.placed word hword
  obtain ⟨q, hq, hq0, hq1⟩ := h.scored word hword
  obtain ⟨interval, hinterval⟩ := Interval.of_isOk h0 hlt.le
  obtain ⟨confidence, hconfidence⟩ := (a.calibrator.calibrate_isOk_iff "word" word.score).2
    (hq ▸ h.calibrates "word" q hq0 hq1)
  have hspoken := h.said word hword
  refine ⟨⟨deriveTokenId a.digest a.runId word.startMs word.text, word.text, interval, confidence,
    .provisional, hspoken⟩, ?_⟩
  exact Except.bind_eq_ok.2 ⟨interval, hinterval, Except.bind_eq_ok.2
    ⟨confidence, hconfidence, dif_pos hspoken⟩⟩

/-- The runtime reports its prosody over the window, with scores in the unit interval. -/
theorem exists_prosody (hscript : script.Playable a) (hwindow : window.Placed)
    {hypothesis : ProsodyHypothesis}
    (h : hypothesis ∈ script.prosody window.sessionPositionMs window.endMs)
    (provenance : Provenance) : ∃ reading, a.prosody hypothesis provenance = .ok reading := by
  have hspan : window.sessionPositionMs ≤ window.endMs :=
    le_add_of_nonneg_right hwindow.duration
  obtain ⟨interval, hinterval⟩ := Interval.of_isOk hwindow.position hspan
  have hshape : hypothesis.startMs = window.sessionPositionMs ∧
      hypothesis.endMs = window.endMs ∧ ∃ q : ℚ, hypothesis.score = .fin q ∧ 0 ≤ q ∧ q ≤ 1 := by
    simp only [SpeechScript.prosody, List.mem_cons, List.not_mem_nil, or_false] at h
    rcases h with rfl | rfl | rfl
    · exact ⟨rfl, rfl, 9 / 10, rfl, by norm_num, by norm_num⟩
    · refine ⟨rfl, rfl, _, rfl, ?_⟩
      split_ifs <;> norm_num
    · exact ⟨rfl, rfl, 19 / 20, rfl, by norm_num, by norm_num⟩
  obtain ⟨hstart, hend, q, hq, hq0, hq1⟩ := hshape
  obtain ⟨confidence, hconfidence⟩ :=
    (a.calibrator.calibrate_isOk_iff hypothesis.indicator.value hypothesis.score).2
      (hq ▸ hscript.calibrates hypothesis.indicator.value q hq0 hq1)
  unfold prosody
  rw [hstart, hend, hinterval]
  cases hypothesis.value with
  | none => exact ⟨_, rfl⟩
  | some value =>
      exact ⟨.measured hypothesis.indicator interval value confidence provenance,
        Except.bind_eq_ok.2 ⟨interval, rfl, Except.bind_eq_ok.2 ⟨confidence, hconfidence, rfl⟩⟩⟩

theorem utterances_of_mapM {words : List ScriptedWord} {tokens : List WordToken}
    (h : (words.map ScriptedWord.hypothesis).mapM a.token = .ok tokens) :
    tokens.map WordToken.utterance = words.map ScriptedWord.utterance := by
  induction words generalizing tokens with
  | nil =>
      cases h
      rfl
  | cons word words ih =>
      rw [List.map_cons, List.mapM_cons] at h
      obtain ⟨token, htoken, h⟩ := Except.bind_eq_ok.1 h
      obtain ⟨rest, hrest, h⟩ := Except.bind_eq_ok.1 h
      cases h
      rw [List.map_cons, List.map_cons, utterance_token htoken, ih hrest]

theorem exists_assemble (h : script.Playable a) (hwindow : window.Placed) (stableMs : ℤ) :
    ∃ assembled,
      a.assemble (DeterministicSpeechRuntime.emitted script stableMs window) = .ok assembled ∧
      assembled.tokens.map WordToken.utterance =
        (script.wordsAfter stableMs window).map ScriptedWord.utterance ∧
      assembled.stableThroughMs = script.stableThrough window := by
  obtain ⟨tokens, htokens⟩ : ∃ tokens, ((script.wordsAfter stableMs window).map
      ScriptedWord.hypothesis).mapM a.token = .ok tokens := by
    apply Except.mapM_isOk
    intro hypothesis hmem
    obtain ⟨word, hword, rfl⟩ := List.mem_map.1 hmem
    exact exists_token h (List.mem_filter.1 hword).1
  let provenance := a.provenance (DeterministicSpeechRuntime.emitted script stableMs window)
  obtain ⟨events, hevents⟩ : ∃ events, (DeterministicSpeechRuntime.emitted script stableMs
      window).events.mapM (a.event · provenance) = .ok events := by
    apply Except.mapM_isOk
    intro hypothesis hmem
    obtain ⟨event, hevent, rfl⟩ := List.mem_map.1 hmem
    exact h.accepted event (List.mem_filter.1 hevent).1 _ rfl
  obtain ⟨prosody, hprosody⟩ : ∃ prosody, (DeterministicSpeechRuntime.emitted script stableMs
      window).prosody.mapM (a.prosody · provenance) = .ok prosody :=
    Except.mapM_isOk fun hypothesis hmem => exists_prosody h hwindow hmem provenance
  refine ⟨⟨tokens, events, prosody, script.stableThrough window⟩, ?_, ?_, rfl⟩
  · exact Except.bind_eq_ok.2 ⟨tokens, htokens, Except.bind_eq_ok.2 ⟨events, hevents,
      Except.bind_eq_ok.2 ⟨prosody, hprosody, rfl⟩⟩⟩
  · exact utterances_of_mapM htokens

end SpeechAssembler

namespace Transcript

/-- The transcript after a hypothesis, and after its stable point if that lies ahead. -/
def reconciledThrough (t : Transcript) (ms : ℤ) : Transcript :=
  if t.finalizedFrontier.ms < ms then t.promoted ms else t

theorem utterance_finalize (w : WordToken) : w.finalize.utterance = w.utterance := by
  unfold WordToken.finalize
  split_ifs <;> rfl

theorem finalTokens_promoted (t : Transcript) (ms : ℤ) :
    (t.promoted ms).finalTokens.map WordToken.utterance =
      (t.tokens.filter fun token => token.isFinal || decide (token.interval.stop.ms ≤ ms)).map
        WordToken.utterance := map_finalTokens_promoted utterance_finalize t ms

theorem provisionalTokens_promoted (t : Transcript) (ms : ℤ) :
    (t.promoted ms).provisionalTokens.map WordToken.utterance =
      (t.tokens.filter fun token => !(token.isFinal || decide (token.interval.stop.ms ≤ ms))).map
        WordToken.utterance := map_provisionalTokens_promoted utterance_finalize t ms

variable {t t' : Transcript} {fresh : List WordToken}

/-- The final tokens are the words that end by the stable point, each once. -/
structure Transcribes (t : Transcript) (script : SpeechScript) (stableMs : ℤ) : Prop where
  ordered : t.tokens.Pairwise WordToken.orderingLe
  final : (t.finalTokens.map WordToken.utterance).Perm
    ((script.wordsBy stableMs).map ScriptedWord.utterance)

/-- The provisional tokens are the words the window reached after the stable point. -/
def Pending (t : Transcript) (script : SpeechScript) (stableMs : ℤ) (window : AudioWindow) :
    Prop :=
  (t.provisionalTokens.map WordToken.utterance).Perm
    ((script.wordsAfter stableMs window).map ScriptedWord.utterance)

section Step

variable {script : SpeechScript} {a : SpeechAssembler} {stableMs : ℤ} {window : AudioWindow}

theorem Transcribes.exists_word (h : t.Transcribes script stableMs) {token : WordToken}
    (htoken : token ∈ t.finalTokens) :
    ∃ w ∈ script.words, w.endMs ≤ stableMs ∧ w.utterance = token.utterance := by
  have hmem := h.final.mem_iff.1 (List.mem_map_of_mem htoken)
  obtain ⟨w, hw, hsame⟩ := List.mem_map.1 hmem
  obtain ⟨hscript, hend⟩ := List.mem_filter.1 hw
  exact ⟨w, hscript, of_decide_eq_true hend, hsame⟩

theorem Transcribes.frontier_le (h : t.Transcribes script stableMs) (hscript : script.Playable a)
    {w : ScriptedWord} (hw : w ∈ script.words) (hend : stableMs < w.endMs) :
    t.finalizedFrontier.ms ≤ w.startMs := by
  refine frontier_le_iff.2 ⟨(hscript.placed w hw).1, fun token htoken => ?_⟩
  obtain ⟨v, hv, hvend, hsame⟩ := h.exists_word htoken
  have hstop : v.endMs = token.interval.stop.ms := congrArg (fun u => u.2.2) hsame
  have hne : v ≠ w := fun heq => by subst heq; omega
  have hapart := hscript.apart_of_ne hv hw hne
  have hplaced := hscript.placed v hv
  unfold ScriptedWord.Apart at hapart
  omega

theorem Transcribes.frontier_le_stable (h : t.Transcribes script stableMs) (h0 : 0 ≤ stableMs) :
    t.finalizedFrontier.ms ≤ stableMs := by
  refine frontier_le_iff.2 ⟨h0, fun token htoken => ?_⟩
  obtain ⟨v, -, hvend, hsame⟩ := h.exists_word htoken
  have hstop : v.endMs = token.interval.stop.ms := congrArg (fun u => u.2.2) hsame
  omega

/-- No word the runtime emits lies behind the frontier, so the hypothesis is taken. -/
theorem Transcribes.exists_withProvisional (h : t.Transcribes script stableMs)
    (hscript : script.Playable a)
    (hfresh : fresh.map WordToken.utterance =
      (script.wordsAfter stableMs window).map ScriptedWord.utterance) :
    ∃ t', t.withProvisional fresh = .ok t' := by
  refine exists_withProvisional_iff.2 fun token htoken => ?_
  have hmem : token.utterance ∈ (script.wordsAfter stableMs window).map ScriptedWord.utterance :=
    hfresh ▸ List.mem_map_of_mem htoken
  obtain ⟨w, hw, hsame⟩ := List.mem_map.1 hmem
  obtain ⟨hword, hactive⟩ := List.mem_filter.1 hw
  have hafter : stableMs < w.endMs := by
    simp only [DeterministicSpeechRuntime.active, Bool.and_eq_true, decide_eq_true_eq] at hactive
    exact hactive.1
  have hstart : w.startMs = token.interval.start.ms := congrArg (fun u => u.2.1) hsame
  have hle := h.frontier_le hscript hword hafter
  omega

theorem map_filter_utterance {words : List ScriptedWord} (p : ℤ → Bool)
    (h : fresh.map WordToken.utterance = words.map ScriptedWord.utterance) :
    (fresh.filter fun token => p token.interval.stop.ms).map WordToken.utterance =
      (words.filter fun w => p w.endMs).map ScriptedWord.utterance := by
  have hfilter := congrArg (List.filter fun u : String × ℤ × ℤ => p u.2.2) h
  rw [List.filter_map, List.filter_map] at hfilter
  exact hfilter

/-- Where the stable point lies behind the frontier, no emitted word ends by it. -/
theorem Transcribes.open_of_behind (h : t.Transcribes script stableMs) (h0 : 0 ≤ stableMs)
    {ms : ℤ} (hbehind : ms ≤ t.finalizedFrontier.ms)
    (hfresh : fresh.map WordToken.utterance =
      (script.wordsAfter stableMs window).map ScriptedWord.utterance)
    {token : WordToken} (htoken : token ∈ fresh) : ms < token.interval.stop.ms := by
  have hmem : token.utterance ∈ (script.wordsAfter stableMs window).map ScriptedWord.utterance :=
    hfresh ▸ List.mem_map_of_mem htoken
  obtain ⟨w, hw, hsame⟩ := List.mem_map.1 hmem
  have hactive := (List.mem_filter.1 hw).2
  simp only [DeterministicSpeechRuntime.active, Bool.and_eq_true, decide_eq_true_eq] at hactive
  have hstop : w.endMs = token.interval.stop.ms := congrArg (fun u => u.2.2) hsame
  have hfrontier := h.frontier_le_stable h0
  omega

/-- A stable point settles the emitted words that end by it and leaves the others open. -/
theorem reconciled_perm {t' : Transcript} {ms : ℤ}
    (hprovisional : ∀ w ∈ fresh, w.isFinal = false) (ht' : t.withProvisional fresh = .ok t')
    (hopen : ms ≤ t'.finalizedFrontier.ms → ∀ token ∈ fresh, ms < token.interval.stop.ms) :
    ((t'.reconciledThrough ms).finalTokens.map WordToken.utterance).Perm
        ((t.finalTokens ++ fresh.filter fun token => token.interval.stop.ms ≤ ms).map
          WordToken.utterance) ∧
      ((t'.reconciledThrough ms).provisionalTokens.map WordToken.utterance).Perm
        ((fresh.filter fun token => !decide (token.interval.stop.ms ≤ ms)).map
          WordToken.utterance) := by
  obtain ⟨hfinal, hrest⟩ := filter_perm_withProvisional ht' hprovisional
    fun token => token.interval.stop.ms ≤ ms
  unfold reconciledThrough
  split_ifs with hahead
  · rw [finalTokens_promoted, provisionalTokens_promoted]
    exact ⟨hfinal.map _, hrest.map _⟩
  · have hsame : ∀ w ∈ t'.tokens,
        (w.isFinal || decide (w.interval.stop.ms ≤ ms)) = w.isFinal := by
      intro w hw
      rcases List.mem_append.1 ((tokens_perm_withProvisional ht').mem_iff.1 hw) with hold | hnew
      · simp [(List.mem_filter.1 hold).2]
      · have hlate := hopen (not_lt.1 hahead) w hnew
        simp [hprovisional w hnew, hlate]
    rw [List.filter_congr hsame] at hfinal
    rw [List.filter_congr fun w hw => congrArg (!·) (hsame w hw)] at hrest
    exact ⟨hfinal.map _, hrest.map _⟩

theorem ordered_reconciledThrough {t : Transcript} (h : t.tokens.Pairwise WordToken.orderingLe)
    (ms : ℤ) : (t.reconciledThrough ms).tokens.Pairwise WordToken.orderingLe := by
  unfold reconciledThrough
  split_ifs
  · exact ordered_promoted h ms
  · exact h

theorem Transcribes.step {t' : Transcript} (h : t.Transcribes script stableMs)
    (h0 : 0 ≤ stableMs) (hscript : script.Playable a) (hwindow : window.Placed)
    (hprovisional : ∀ w ∈ fresh, w.isFinal = false)
    (hfresh : fresh.map WordToken.utterance =
      (script.wordsAfter stableMs window).map ScriptedWord.utterance)
    (ht' : t.withProvisional fresh = .ok t') :
    (t'.reconciledThrough (script.stableThrough window)).Transcribes script
        (max stableMs (script.stableThrough window)) ∧
      (t'.reconciledThrough (script.stableThrough window)).Pending script
        (max stableMs (script.stableThrough window)) window := by
  have hfrontier : t'.finalizedFrontier.ms = t.finalizedFrontier.ms := by
    change t'.frontierMs = t.frontierMs
    rw [frontierMs, frontierMs, finalTokens_withProvisional h.ordered hprovisional ht']
  have hopen : script.stableThrough window ≤ t'.finalizedFrontier.ms →
      ∀ token ∈ fresh, script.stableThrough window < token.interval.stop.ms :=
    fun hbehind token htoken => h.open_of_behind h0 (hfrontier ▸ hbehind) hfresh htoken
  obtain ⟨hfinal, hrest⟩ := reconciled_perm hprovisional ht' hopen
  refine ⟨⟨ordered_reconciledThrough (pairwise_withProvisional ht') _, ?_⟩, ?_⟩
  · have hwords := map_filter_utterance (fun ms => ms ≤ script.stableThrough window) hfresh
    rw [List.map_append, hwords] at hfinal
    refine hfinal.trans ((h.final.append_right _).trans ?_)
    rw [← List.map_append]
    exact (hscript.wordsBy_perm hwindow stableMs).map _
  · have hwords := map_filter_utterance
      (fun ms => !decide (ms ≤ script.stableThrough window)) hfresh
    rw [hwords, SpeechScript.Playable.wordsAfter_filter] at hrest
    exact hrest

theorem Transcribes.inOrder (h : t.Transcribes script stableMs) (hscript : script.Playable a) :
    t.finalTokens.Pairwise fun v w => v.interval.stop.ms ≤ w.interval.start.ms := by
  let apart : String × ℤ × ℤ → String × ℤ × ℤ → Prop :=
    fun u v => u.2.2 ≤ v.2.1 ∨ v.2.2 ≤ u.2.1
  have hwords : ((script.wordsBy stableMs).map ScriptedWord.utterance).Pairwise apart :=
    List.pairwise_map.2 (hscript.apart.sublist List.filter_sublist)
  have htokens : (t.finalTokens.map WordToken.utterance).Pairwise apart :=
    (h.final.pairwise_iff fun hapart => hapart.symm).2 hwords
  have hordered : t.finalTokens.Pairwise WordToken.orderingLe :=
    h.ordered.sublist List.filter_sublist
  refine (hordered.and (List.pairwise_map.1 htokens)).imp_of_mem fun {v w} hv hw hboth => ?_
  obtain ⟨word, hword, -, hsame⟩ := h.exists_word hw
  obtain ⟨hle, hapart⟩ := hboth
  have hstart := WordToken.start_le_of_orderingLe hle
  have hplaced := (hscript.placed word hword).2
  have hwordstart : word.startMs = w.interval.start.ms := congrArg (fun u => u.2.1) hsame
  have hwordstop : word.endMs = w.interval.stop.ms := congrArg (fun u => u.2.2) hsame
  rcases hapart with hbefore | hafter
  · exact hbefore
  · change w.interval.stop.ms ≤ v.interval.start.ms at hafter
    omega

end Step

end Transcript

namespace Coordinator

open Stateful DeterministicSpeechRuntime

variable (c : Coordinator) {script : SpeechScript}

theorem exists_detectedPauses (h : 0 < c.configuration.silenceThresholdMs) (s : StreamingState)
    (stableThroughMs : ℤ) : ∃ pauses, detectedPauses c s stableThroughMs = .ok pauses := by
  unfold detectedPauses
  dsimp only
  split_ifs
  · exact ⟨[], rfl⟩
  cases hprovenance : speechProvenance (promotedState s stableThroughMs)
      (newlyFinal stableThroughMs s.speechEvents.entries) with
  | none => exact ⟨[], rfl⟩
  | some provenance =>
      have hapart : ∀ gap ∈ gaps c.configuration.silenceThresholdMs
          ((promotedState s stableThroughMs).transcript.finalTokens.insertionSort
            fun s t => s.interval.start.ms ≤ t.interval.start.ms),
          gap.1.interval.stop.ms ≤ gap.2.interval.start.ms := by
        intro gap hgap
        have hfar := of_decide_eq_true (List.mem_filter.1 hgap).2
        omega
      obtain ⟨pauses, hpauses, -⟩ := pausesBetween_of_apart c.digest s.runId
        (heard_of_speechProvenance hprovenance) hapart
      exact ⟨pauses, hpauses⟩

theorem delivers_reliable (log messages : List OutboundEvent) :
    Delivers .reliable log messages := by
  induction messages generalizing log with
  | nil => trivial
  | cons message messages ih => exact ⟨rfl, ih _⟩

/-- An audio call over a channel that delivers everything. -/
def listening (chunk : ℤ × AudioWindow) : Arrival where
  call := .audio chunk.1 chunk.2
  channel := .reliable
  evenhanded _ _ _ := rfl

theorem transcript_exec_absorbSpeech (ports : StreamPorts) (hports : ports.channel = .reliable)
    {t : Stream} {result : SpeechResult} {assembled : AssembledSpeech} {transcript : Transcript}
    (ha : c.speechAssembler.assemble result = .ok assembled)
    (ht : t.state.transcript.withProvisional assembled.tokens = .ok transcript) :
    (exec (absorbSpeech c ports result) t).2.state.transcript =
      transcript.reconciledThrough assembled.stableThroughMs := by
  have hdelivers : Delivers ports.channel t.published
      (speechMessages (withSpeech t transcript assembled).state assembled.events false) := by
    rw [hports]
    exact delivers_reliable _ _
  rw [state_exec_absorbSpeech_of_ok c ports ha ht, Transcript.reconciledThrough]
  simp only [ReachesReconciliation, hdelivers, true_and]
  split_ifs
  · cases detectedPauses c (withSpeech t transcript assembled).state
      assembled.stableThroughMs <;> rfl
  · rfl

/-- What an audio call finds besides the transcript. -/
def standing (t : Stream) : List AudioWindow × ChunkLedger × ℤ :=
  (t.heard, t.state.audioChunks, t.state.inFlight)

theorem blindToSpeech_standing : BlindToSpeech standing :=
  ⟨fun _ _ => rfl, fun _ _ => rfl, fun _ _ _ _ => rfl⟩

/-- The stream that some chunks of a script leave behind. -/
structure Hears (script : SpeechScript) (chunks : List (ℤ × AudioWindow)) (t : Stream) :
    Prop where
  heard : t.heard = chunks.map Prod.snd
  accepted : ∀ sequence ∈ t.state.audioChunks.acceptedSet, sequence ∈ chunks.map Prod.fst
  idle : t.state.inFlight = 0
  transcribes : t.state.transcript.Transcribes script (stablePoint script (chunks.map Prod.snd))

theorem hears_fresh (script : SpeechScript) (runId : RunId) (sessionId : SessionId)
    (hplaced : ∀ w ∈ script.words, 0 ≤ w.startMs ∧ w.startMs < w.endMs) :
    Hears script [] (.fresh runId sessionId) where
  heard := rfl
  accepted _ h := absurd h (Finset.notMem_empty _)
  idle := rfl
  transcribes := by
    have hnone : script.wordsBy (stablePoint script []) = [] := by
      apply List.filter_eq_nil_iff.2
      intro w hw
      obtain ⟨h0, hlt⟩ := hplaced w hw
      simp only [stablePoint, List.map_nil, List.foldl_nil, decide_eq_true_eq]
      omega
    exact ⟨List.Pairwise.nil, by rw [List.map_nil, hnone]; exact .nil⟩

section Run

variable {c} (vision : List (List VisualFrame) → List VisualFrame → Except Failure VisualResult)
  (hscript : script.Playable c.speechAssembler) (hdepth : 0 < c.maxQueueDepth)
  (hthreshold : 0 < c.configuration.silenceThresholdMs)
include hscript hdepth hthreshold

theorem Hears.step {chunks : List (ℤ × AudioWindow)} {chunk : ℤ × AudioWindow} {t : Stream}
    (h : Hears script chunks t) (hnew : chunk.1 ∉ chunks.map Prod.fst) (h0 : 0 ≤ chunk.1)
    (hplaced : chunk.2.Placed) :
    Returns (serve c ⟨portsAt ⟨process script, vision⟩ t .reliable, (listening chunk).call⟩) t ∧
      Hears script (chunks ++ [chunk]) (c.arrive ⟨process script, vision⟩ t (listening chunk)) ∧
      (c.arrive ⟨process script, vision⟩ t (listening chunk)).state.transcript.Pending script
        (stablePoint script ((chunks ++ [chunk]).map Prod.snd)) chunk.2 := by
  obtain ⟨sequence, window⟩ := chunk
  let ports := portsAt ⟨process script, vision⟩ t .reliable
  have hroom : HasRoom c t := by
    unfold HasRoom
    rw [h.idle]
    exact hdepth
  have hnovel : Novel t .audio sequence := ⟨h0, fun hmem => hnew (h.accepted sequence hmem)⟩
  obtain ⟨v, l, -, hv, hl, ho⟩ := exists_offer_of_novel hnovel
  have hanswer : ports.speech window =
      .ok (emitted script (stablePoint script (chunks.map Prod.snd)) window) := by
    change process script t.heard window = _
    rw [h.heard, process_eq hscript.unfailing]
  obtain ⟨assembled, ha, hfresh, hstable⟩ := SpeechAssembler.exists_assemble hscript hplaced
    (stablePoint script (chunks.map Prod.snd))
  obtain ⟨transcript, ht⟩ := h.transcribes.exists_withProvisional hscript hfresh
  have hafter : c.arrive ⟨process script, vision⟩ t (listening (sequence, window)) =
      (exec (absorbSpeech c ports (emitted script (stablePoint script (chunks.map Prod.snd))
        window)) (withCall (withChunks t .audio l) (.transcribe window))).2 :=
    congrArg Prod.snd (exec_ingest_of_result c ports (.transcribe window) (ports.speech window)
      (absorbSpeech c ports) hanswer ho hv hroom)
  have hstanding : standing (c.arrive ⟨process script, vision⟩ t (listening (sequence, window))) =
      standing (withCall (withChunks t .audio l) (.transcribe window)) := by
    rw [hafter]
    exact blindToSpeech_standing.keeps_absorbSpeech c ports _ _
  have htranscript : (c.arrive ⟨process script, vision⟩ t
      (listening (sequence, window))).state.transcript =
        transcript.reconciledThrough (script.stableThrough window) := by
    rw [hafter, ← hstable]
    exact transcript_exec_absorbSpeech c ports rfl ha ht
  have hpoint : stablePoint script ((chunks ++ [(sequence, window)]).map Prod.snd) =
      max (stablePoint script (chunks.map Prod.snd)) (script.stableThrough window) := by
    rw [List.map_append, List.map_singleton, stablePoint_concat]
  obtain ⟨htranscribes, hpending⟩ := h.transcribes.step (stablePoint_nonneg _) hscript hplaced
    (fun w hw => SpeechAssembler.provisional_of_mem_tokens ha hw) hfresh ht
  refine ⟨?_, ⟨?_, ?_, ?_, ?_⟩, ?_⟩
  · refine (returns_serve_iff hnovel).2 ⟨hroom, ?_⟩
    obtain ⟨pauses, hpauses⟩ := exists_detectedPauses c hthreshold
      (withSpeech t transcript assembled).state assembled.stableThroughMs
    change Handled ports t .audio (SpeechAbsorbed c ports t) (ports.speech window)
    rw [hanswer]
    exact ⟨assembled, transcript, ha, ht, delivers_reliable _ _,
      fun _ => ⟨pauses, hpauses, delivers_reliable _ _⟩⟩
  · have hheard : (c.arrive ⟨process script, vision⟩ t (listening (sequence, window))).heard =
        t.heard ++ [window] := by
      apply (congrArg Prod.fst hstanding).trans
      change (t.runtimeCalls ++ [_]).filterMap _ = _
      rw [List.filterMap_append]
      rfl
    rw [hheard, h.heard, List.map_append, List.map_singleton]
  · intro n hn
    have hchunks := congrArg (fun s => s.2.1.acceptedSet) hstanding
    change _ = l.acceptedSet at hchunks
    change n ∈ (standing _).2.1.acceptedSet at hn
    rw [hchunks, hl, Finset.mem_insert] at hn
    rw [List.map_append, List.map_singleton, List.mem_append, List.mem_singleton]
    exact hn.symm.imp (h.accepted n) id
  · exact (congrArg (fun s => s.2.2) hstanding).trans h.idle
  · rw [htranscript, hpoint]
    exact htranscribes
  · rw [htranscript, hpoint]
    exact hpending

variable {chunks : List (ℤ × AudioWindow)} (hdistinct : (chunks.map Prod.fst).Nodup)
  (hplaced : ∀ chunk ∈ chunks, 0 ≤ chunk.1 ∧ chunk.2.Placed) (runId : RunId)
  (sessionId : SessionId)
include hdistinct hplaced

theorem hears_runArrivals : Hears script chunks (c.runArrivals ⟨process script, vision⟩
    (.fresh runId sessionId) (chunks.map listening)) := by
  induction chunks using List.reverseRecOn with
  | nil => exact hears_fresh script runId sessionId hscript.placed
  | append_singleton chunks chunk ih =>
      rw [List.map_append, List.nodup_append] at hdistinct
      obtain ⟨hnodup, -, hnew⟩ := hdistinct
      have hbefore := ih hnodup fun chunk' h => hplaced chunk' (List.mem_append_left _ h)
      obtain ⟨h0, hwindow⟩ := hplaced chunk (List.mem_append_right _ List.mem_cons_self)
      have hfresh : chunk.1 ∉ chunks.map Prod.fst :=
        fun hmem => hnew _ hmem _ List.mem_cons_self rfl
      rw [runArrivals, List.map_append, List.foldl_append]
      exact (hbefore.step vision hscript hdepth hthreshold hfresh h0 hwindow).2.1

/-- Window after window every call returns, what ends by the stable point is final, once and in
order, and what the last window reached beyond it is provisional. -/
theorem verbatim_runArrivals :
    let stream := fun fed => c.runArrivals ⟨process script, vision⟩ (.fresh runId sessionId)
      (List.map listening fed)
    let stableMs := stablePoint script (chunks.map Prod.snd)
    (∀ fed chunk rest, chunks = fed ++ chunk :: rest →
      Returns (serve c ⟨portsAt ⟨process script, vision⟩ (stream fed) .reliable,
        .audio chunk.1 chunk.2⟩) (stream fed)) ∧
      ((stream chunks).state.transcript.finalTokens.map WordToken.utterance).Perm
        ((script.wordsBy stableMs).map ScriptedWord.utterance) ∧
      ((stream chunks).state.transcript.finalTokens.Pairwise fun v w =>
        v.interval.stop.ms ≤ w.interval.start.ms) ∧
      ∀ fed last, chunks = fed ++ [last] →
        ((stream chunks).state.transcript.provisionalTokens.map WordToken.utterance).Perm
          ((script.wordsAfter stableMs last.2).map ScriptedWord.utterance) := by
  intro stream stableMs
  have hall := hears_runArrivals vision hscript hdepth hthreshold hdistinct hplaced runId sessionId
  have hstep : ∀ fed chunk rest, chunks = fed ++ chunk :: rest →
      Hears script fed (stream fed) ∧ chunk.1 ∉ fed.map Prod.fst ∧ 0 ≤ chunk.1 ∧
        chunk.2.Placed := by
    rintro fed chunk rest rfl
    rw [List.map_append, List.nodup_append] at hdistinct
    obtain ⟨hnodup, -, hnew⟩ := hdistinct
    refine ⟨hears_runArrivals vision hscript hdepth hthreshold hnodup (fun chunk' h =>
      hplaced chunk' (List.mem_append_left _ h)) runId sessionId, ?_, ?_⟩
    · exact fun hmem => hnew _ hmem _ List.mem_cons_self rfl
    · exact hplaced chunk (List.mem_append_right _ List.mem_cons_self)
  refine ⟨fun fed chunk rest h => ?_, hall.transcribes.final,
    hall.transcribes.inOrder hscript, fun fed last h => ?_⟩
  · obtain ⟨hfed, hnew, h0, hwindow⟩ := hstep fed chunk rest h
    exact (hfed.step vision hscript hdepth hthreshold hnew h0 hwindow).1
  · obtain ⟨hfed, hnew, h0, hwindow⟩ := hstep fed last [] h
    have hpending := (hfed.step vision hscript hdepth hthreshold hnew h0 hwindow).2.2
    subst h
    have hrun : stream (fed ++ [last]) =
        c.arrive ⟨process script, vision⟩ (stream fed) (listening last) := by
      simp only [stream, runArrivals, List.map_append, List.foldl_append, List.map_singleton,
        List.foldl_cons, List.foldl_nil]
    rw [hrun]
    exact hpending

end Run

def goodEvening : SpeechScript where
  words := [⟨"good", 0, 400, .fin 1⟩, ⟨"evening", 500, 900, .fin 0⟩]
  events := []
  modelVersion := sampleModel
  instabilityTailMs := 300
  failAfterWindow := none

/-- The second window arrives first, and the first one is flagged as the last. -/
def lateStart : List (ℤ × AudioWindow) :=
  [(1, ⟨400, 600, 16000, [], false⟩), (0, ⟨0, 600, 16000, [], true⟩)]

theorem playable_goodEvening {a : SpeechAssembler} (ha : a.calibrator = .unfitted) :
    goodEvening.Playable a where
  said := by decide
  placed := by decide
  apart := List.pairwise_pair.2 (Or.inl (by decide))
  scored w hw := by
    simp only [goodEvening, List.mem_cons, List.not_mem_nil, or_false] at hw
    rcases hw with rfl | rfl
    · exact ⟨1, rfl, zero_le_one, le_rfl⟩
    · exact ⟨0, rfl, le_rfl, zero_le_one⟩
  calibrates classIdentifier q _ _ := by
    rw [ha]
    exact PyFloat.noConfusion
  accepted e he := absurd he List.not_mem_nil
  unfailing := rfl
  tail := by decide

theorem placed_lateStart : ∀ chunk ∈ lateStart, 0 ≤ chunk.1 ∧ chunk.2.Placed := by
  intro chunk hchunk
  simp only [lateStart, List.mem_cons, List.not_mem_nil, or_false] at hchunk
  rcases hchunk with rfl | rfl
  · exact ⟨zero_le_one, by decide, by decide⟩
  · exact ⟨le_rfl, le_rfl, by decide⟩

theorem verbatim_lateStart :
    let stream := (sample id).runArrivals
      ⟨process goodEvening, fun _ _ => .ok ⟨sampleModel, [], []⟩⟩ sampleStream
      (lateStart.map listening)
    stream.state.transcript.finalTokens.map WordToken.utterance = [("good", 0, 400)] ∧
      stream.state.transcript.provisionalTokens.map WordToken.utterance =
        [("evening", 500, 900)] := by
  have hrun := verbatim_runArrivals (c := sample id)
    (fun _ _ => .ok ⟨sampleModel, [], []⟩) (playable_goodEvening rfl) (by decide) (by decide)
    (by decide) placed_lateStart sampleRunId sampleSessionId
  exact ⟨List.perm_singleton.1 hrun.2.1, List.perm_singleton.1 (hrun.2.2.2 [_] _ rfl)⟩

end Coordinator

end OratoriaEngine
