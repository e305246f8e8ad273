import OratoriaEngine.IncrementalPauses
import OratoriaEngine.RuntimeOutput

/-!
# The identifiers of the tokens of one decode

A token is named after its text and the bucket its first point lies in. Two words share a name
exactly when they share both, however short they are and wherever they end: a word that is repeated
within one bucket is named like the word before.
-/

namespace OratoriaEngine

theorem toList_tokenMaterial (runId : RunId) (startMs : ℤ) (rawText : String) :
    s!"{runId.value}|{bucket startMs}|{rawText}".toList = runId.value.toList ++ '|' ::
      ((toString (bucket startMs)).toList ++ '|' :: rawText.toList) := by
  change (((runId.value ++ "|") ++ toString (bucket startMs)) ++ "|" ++ rawText).toList = _
  simp only [String.toList_append, List.append_assoc]
  rfl

theorem deriveTokenId_eq_iff {digest : String → String} (hdigest : Function.Injective digest)
    {runId : RunId} {startMs startMs' : ℤ} {rawText rawText' : String} :
    deriveTokenId digest runId startMs rawText = deriveTokenId digest runId startMs' rawText' ↔
      bucket startMs = bucket startMs' ∧ rawText = rawText' := by
  constructor
  · intro h
    have hvalue := congrArg (fun id : TokenId => id.value) h
    have hmaterial := hdigest ((String.append_right_inj _).1 hvalue)
    have hlist := congrArg String.toList hmaterial
    rw [toList_tokenMaterial, toList_tokenMaterial, List.append_cancel_left_eq] at hlist
    have hparts := (List.cons_eq_cons.1 hlist).2
    rw [Delimited.append_cons_inj_of_not_mem_left (bar_notMem_toString _)
      (bar_notMem_toString _)] at hparts
    obtain ⟨hbucket, htext⟩ := hparts
    exact ⟨Delimited.repr_injective (String.toList_injective hbucket),
      String.toList_injective htext⟩
  · rintro ⟨hbucket, rfl⟩
    simp only [deriveTokenId, hbucket]

namespace SpeechAssembler

variable {a : SpeechAssembler} {result : SpeechResult} {assembled : AssembledSpeech}

theorem map_id_tokens (h : a.assemble result = .ok assembled) :
    (assembled.tokens.map fun t => t.id) =
      result.words.map fun w => deriveTokenId a.digest a.runId w.startMs w.rawText := by
  have htokens := Except.mapM_eq_ok (assemble_eq_ok h).1
  generalize assembled.tokens = tokens at htokens ⊢
  generalize result.words = words at htokens ⊢
  induction htokens with
  | nil => rfl
  | cons htoken _ ih => rw [List.map_cons, List.map_cons, (token_eq_ok htoken).2.1, ih]

/-- The tokens of a decode have different identifiers exactly if no two words of one text start in
one bucket. -/
theorem tokenIds_nodup_iff (hdigest : Function.Injective a.digest)
    (h : a.assemble result = .ok assembled) :
    (assembled.tokens.map fun t => t.id).Nodup ↔
      result.words.Pairwise fun v w =>
        ¬(bucket v.startMs = bucket w.startMs ∧ v.rawText = w.rawText) := by
  rw [map_id_tokens h, List.Nodup, List.pairwise_map]
  simp only [ne_eq, deriveTokenId_eq_iff hdigest]

def Disjoint (words : List WordHypothesis) : Prop :=
  (∀ w ∈ words, w.startMs < w.endMs) ∧
    words.Pairwise fun v w => v.endMs ≤ w.startMs ∨ w.endMs ≤ v.startMs

/-- `y` is said in the first forty milliseconds, and again from the given moment on. -/
def repeated (againMs : ℤ) : SpeechResult where
  modelVersion := Coordinator.sampleModel
  words := [⟨"y", 0, 40, .fin 1⟩, ⟨"y", againMs, againMs + 40, .fin 1⟩]
  events := []
  prosody := []
  stableThroughMs := 0

theorem exists_assembled_repeated {againMs : ℤ} (h : 0 ≤ againMs) :
    ∃ assembled, (Coordinator.sample id).speechAssembler.assemble (repeated againMs) =
      .ok assembled := by
  have hscores : (Coordinator.sample id).speechAssembler.calibrator.Scores "word" (.fin 1) :=
    PyFloat.noConfusion
  apply assemble_isOk_iff.2
  simp [repeated, SoundWord, IsSpan, hscores, h]

theorem tokenIds_nodup_repeated :
    ∃ assembled, (Coordinator.sample id).speechAssembler.assemble (repeated 120) = .ok assembled ∧
      (assembled.tokens.map fun t => t.id).Nodup := by
  obtain ⟨assembled, h⟩ := exists_assembled_repeated (show (0 : ℤ) ≤ 120 by omega)
  refine ⟨assembled, h, (tokenIds_nodup_iff Function.injective_id h).2 ?_⟩
  simp [repeated, bucket, positionBucketMs]

/-- Both tokens of a stutter have one identifier. -/
theorem not_tokenIds_nodup_repeated :
    Disjoint (repeated 50).words ∧
      ∃ assembled, (Coordinator.sample id).speechAssembler.assemble (repeated 50) = .ok assembled ∧
        ¬(assembled.tokens.map fun t => t.id).Nodup := by
  refine ⟨by simp [Disjoint, repeated], ?_⟩
  obtain ⟨assembled, h⟩ := exists_assembled_repeated (show (0 : ℤ) ≤ 50 by omega)
  refine ⟨assembled, h, ?_⟩
  rw [map_id_tokens h]
  have hbucket : bucket 50 = bucket 0 := rfl
  simp [repeated, deriveTokenId, hbucket]

end SpeechAssembler

end OratoriaEngine
