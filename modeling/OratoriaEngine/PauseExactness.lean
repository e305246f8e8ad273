import OratoriaEngine.Lib.Gaps
import OratoriaEngine.SilentPauses

/-!
# Silent pauses and silences

A silence is a maximal interval between two words in which there is no word. Pause derivation
compares each word with the one that starts next, so it finds the silences exactly when no
earlier word goes on after the word that a pause is measured from.
-/

namespace OratoriaEngine

def WordToken.startMs (w : WordToken) : ℤ := w.interval.start.ms

def WordToken.endMs (w : WordToken) : ℤ := w.interval.stop.ms

theorem WordToken.startMs_le_endMs (w : WordToken) : w.startMs ≤ w.endMs := w.interval.ordered

/-- A maximal interval without words that lies between two words. -/
def IsSilence (words : List WordToken) (startMs stopMs : ℤ) : Prop :=
  Gaps.IsGap WordToken.startMs WordToken.endMs words startMs stopMs

def LastsAtLeast (thresholdMs startMs stopMs : ℤ) : Prop := thresholdMs ≤ stopMs - startMs

instance (thresholdMs startMs stopMs : ℤ) : Decidable (LastsAtLeast thresholdMs startMs stopMs) :=
  inferInstanceAs (Decidable (_ ≤ _))

def SpeechEvent.span (e : SpeechEvent) : ℤ × ℤ := (e.interval.start.ms, e.interval.stop.ms)

/-- The words in the order pause derivation takes them. -/
def byStart (words : List WordToken) : List WordToken :=
  words.insertionSort fun s t => s.interval.start.ms ≤ t.interval.start.ms

/-- One pause for each silence that lasts long enough, and no other. -/
structure ExactPauses (thresholdMs : ℤ) (words : List WordToken) (pauses : List SpeechEvent) :
    Prop where
  silent : ∀ e ∈ pauses, e.type = .silentPause
  once : (pauses.map SpeechEvent.span).Nodup
  exact : ∀ startMs stopMs, (startMs, stopMs) ∈ pauses.map SpeechEvent.span ↔
    IsSilence words startMs stopMs ∧ LastsAtLeast thresholdMs startMs stopMs
  clear : ∀ e ∈ pauses, ∀ w ∈ words, e.interval.overlaps w.interval = false

/-- Wherever the next word starts late enough for a pause, no earlier word ends after the word
before the pause. -/
def NoneSpeaksOn (thresholdMs : ℤ) (words : List WordToken) : Prop :=
  Gaps.NoneOutlasts WordToken.startMs WordToken.endMs (LastsAtLeast thresholdMs) (byStart words)

section

variable {thresholdMs : ℤ} {words : List WordToken}

theorem mem_byStart {w : WordToken} : w ∈ byStart words ↔ w ∈ words := List.mem_insertionSort _

theorem byStart_sorted :
    (byStart words).Pairwise fun s t => s.interval.start.ms ≤ t.interval.start.ms := by
  have total : Std.Total fun s t : WordToken => s.interval.start.ms ≤ t.interval.start.ms :=
    ⟨fun s t => le_total _ _⟩
  have trans : IsTrans WordToken fun s t => s.interval.start.ms ≤ t.interval.start.ms :=
    ⟨fun _ _ _ => le_trans⟩
  exact List.pairwise_insertionSort _ _

theorem isSilence_byStart {startMs stopMs : ℤ} :
    IsSilence (byStart words) startMs stopMs ↔ IsSilence words startMs stopMs :=
  Gaps.isGap_congr fun _ => mem_byStart

theorem LastsAtLeast.lt (hthreshold : 0 < thresholdMs) {startMs stopMs : ℤ}
    (h : LastsAtLeast thresholdMs startMs stopMs) : startMs < stopMs := by
  unfold LastsAtLeast at h
  omega

theorem LastsAtLeast.mono {startMs startMs' stopMs : ℤ} (hle : startMs' ≤ startMs)
    (h : LastsAtLeast thresholdMs startMs stopMs) : LastsAtLeast thresholdMs startMs' stopMs := by
  unfold LastsAtLeast at h ⊢
  omega

def gapSpan (gap : WordToken × WordToken) : ℤ × ℤ :=
  (gap.1.interval.stop.ms, gap.2.interval.start.ms)

theorem mem_gapSpans_iff {startMs stopMs : ℤ} :
    (startMs, stopMs) ∈ (gaps thresholdMs words).map gapSpan ↔
      ∃ p ∈ Spans.neighbours words, LastsAtLeast thresholdMs p.1.endMs p.2.startMs ∧
        p.1.endMs = startMs ∧ p.2.startMs = stopMs := by
  simp only [gaps, gapSpan, List.mem_map, List.mem_filter, decide_eq_true_eq, Prod.mk.injEq,
    and_assoc]
  rfl

/-- The gaps of sorted words are the silences that last long enough exactly when no earlier word
goes on. -/
theorem gapSpans_iff (hthreshold : 0 < thresholdMs) :
    (∀ startMs stopMs, (startMs, stopMs) ∈ (gaps thresholdMs (byStart words)).map gapSpan ↔
      IsSilence words startMs stopMs ∧ LastsAtLeast thresholdMs startMs stopMs) ↔
        NoneSpeaksOn thresholdMs words := by
  have hsilence : ∀ startMs stopMs, IsSilence words startMs stopMs ↔
      IsSilence (byStart words) startMs stopMs := fun _ _ => isSilence_byStart.symm
  simp only [mem_gapSpans_iff, hsilence]
  exact Gaps.neighbours_iff_isGap (fun _ _ => LastsAtLeast.lt hthreshold)
    (fun _ _ _ => LastsAtLeast.mono) (fun w _ => w.startMs_le_endMs) byStart_sorted

theorem nodup_gapSpans (hthreshold : 0 < thresholdMs) {words : List WordToken}
    (hsorted : words.Pairwise fun s t => s.interval.start.ms ≤ t.interval.start.ms) :
    ((gaps thresholdMs words).map gapSpan).Nodup := by
  have hpairwise := Gaps.pairwise_neighbours (R := LastsAtLeast thresholdMs)
    (fun _ _ => LastsAtLeast.lt hthreshold) (fun w _ => w.startMs_le_endMs) hsorted
  refine List.pairwise_map.2 (hpairwise.imp fun {p q} hlt heq => ?_)
  exact absurd (congrArg Prod.snd heq) hlt.ne

variable (digest : String → String) (runId : RunId)

theorem silentPauses_forall₂ (hthreshold : 0 < thresholdMs) {provenance : Provenance}
    (heard : provenance.modality = .audio) (words : List WordToken) :
    ∃ pauses, silentPauses digest words thresholdMs provenance runId = .ok pauses ∧
      List.Forall₂ (fun e gap => IsPauseAt digest runId e (gapSpan gap).1 (gapSpan gap).2) pauses
        (gaps thresholdMs (byStart words)) := by
  apply pausesBetween_forall₂ digest runId heard
  intro gap hgap
  have hlasts : LastsAtLeast thresholdMs _ _ := of_decide_eq_true (List.mem_filter.1 hgap).2
  exact (hlasts.lt hthreshold).le

theorem spans_of_forall₂ {pauses : List SpeechEvent} {found : List (WordToken × WordToken)}
    (h : List.Forall₂ (fun e gap => IsPauseAt digest runId e (gapSpan gap).1 (gapSpan gap).2)
      pauses found) : pauses.map SpeechEvent.span = found.map gapSpan := by
  induction h with
  | nil => rfl
  | cons hpause _ ih => rw [List.map_cons, List.map_cons, ih, SpeechEvent.span, hpause.start,
      hpause.stop]

end

/-- Silent pauses are exactly the silences that last long enough, exactly when no earlier word
goes on after a word that a pause is measured from. -/
theorem silentPauses_exact_iff (digest : String → String) (runId : RunId) {thresholdMs : ℤ}
    (hthreshold : 0 < thresholdMs) {provenance : Provenance}
    (heard : provenance.modality = .audio) (words : List WordToken) :
    (∃ pauses, silentPauses digest words thresholdMs provenance runId = .ok pauses ∧
      ExactPauses thresholdMs words pauses) ↔ NoneSpeaksOn thresholdMs words := by
  obtain ⟨pauses, hpauses, hforall⟩ :=
    silentPauses_forall₂ digest runId hthreshold heard words
  have hspans := spans_of_forall₂ digest runId hforall
  rw [← gapSpans_iff hthreshold, ← hspans]
  constructor
  · rintro ⟨_, heq, hexact⟩
    cases hpauses.symm.trans heq
    exact hexact.exact
  · intro hexact
    refine ⟨pauses, hpauses, ⟨fun e he => ?_, ?_, hexact, fun e he w hw => ?_⟩⟩
    · obtain ⟨gap, -, hpause⟩ := Except.exists_mem_of_forall₂ hforall.flip he
      exact hpause.silent
    · rw [hspans]
      exact nodup_gapSpans hthreshold byStart_sorted
    · obtain ⟨hsilence, -⟩ := (hexact e.interval.start.ms e.interval.stop.ms).1
        (List.mem_map_of_mem he)
      have hfree := hsilence.free.2 w hw
      rw [Bool.eq_false_iff, ne_eq, Interval.overlaps_iff, and_comm]
      exact hfree

/-- A word over the span, with the given position of its end. -/
def spokenOver (start stop : MonotonicTime) (ordered : start.ms ≤ stop.ms) : WordToken where
  id := ⟨⟨"tok-spoken", by decide⟩⟩
  rawText := "eh"
  interval := ⟨start, stop, Interval.defaultToleranceMs, ordered,
    Interval.defaultToleranceMs_nonneg⟩
  confidence := .certain
  status := .final
  spoken := by decide

def turnMs : MonotonicTime := ⟨1310, by decide⟩

def shortTurnMs : MonotonicTime := ⟨230, by decide⟩

def innerMs : MonotonicTime := ⟨120, by decide⟩

def resumedMs : MonotonicTime := ⟨2150, by decide⟩

def finishedMs : MonotonicTime := ⟨2300, by decide⟩

def wordsApart : List WordToken :=
  [spokenOver .zero shortTurnMs shortTurnMs.nonneg, spokenOver resumedMs finishedMs (by decide)]

theorem silentPauses_exact_wordsApart :
    ∃ pauses, silentPauses id wordsApart 400
        ((Coordinator.sample id).speechAssembler.provenance (Coordinator.nothingHeard 0))
        Coordinator.sampleRunId = .ok pauses ∧ ExactPauses 400 wordsApart pauses := by
  apply (silentPauses_exact_iff _ _ (by decide) rfl _).2
  apply Gaps.noneOutlasts_of_isChain fun w _ => w.startMs_le_endMs
  decide

/-- A long word, a short one inside it, and after both a third. -/
def wordsNested : List WordToken :=
  [spokenOver .zero turnMs turnMs.nonneg, spokenOver innerMs shortTurnMs (by decide),
    spokenOver resumedMs finishedMs (by decide)]

/-- The pause is measured from the end of the short word, while the long one is spoken. -/
theorem not_exact_wordsNested :
    (∀ w ∈ wordsNested, w.startMs < w.endMs) ∧
      ¬∃ pauses, silentPauses id wordsNested 400
          ((Coordinator.sample id).speechAssembler.provenance (Coordinator.nothingHeard 0))
          Coordinator.sampleRunId = .ok pauses ∧ ExactPauses 400 wordsNested pauses := by
  refine ⟨by decide, ?_⟩
  rintro ⟨pauses, h, hexact⟩
  cases h
  have hclear := hexact.clear _ List.mem_cons_self _ List.mem_cons_self
  exact absurd hclear (by decide)

end OratoriaEngine
