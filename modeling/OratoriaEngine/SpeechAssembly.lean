import OratoriaEngine.Calibration
import OratoriaEngine.Configuration
import OratoriaEngine.EventIdentity
import OratoriaEngine.Lib.Except
import OratoriaEngine.Runtimes
import OratoriaEngine.SpeechEvents
import OratoriaEngine.Transcript

/-!
# From speech hypotheses to speech evidence

Assembly is a pure function of one runtime result. It fails when a hypothesis
cannot be turned into a well-formed token, event or reading. Silent pauses are
computed from the gaps between words rather than asked of the runtime.
-/

namespace OratoriaEngine

structure AssembledSpeech where
  tokens : List WordToken
  events : List SpeechEvent
  prosody : List ProsodyReading
  stableThroughMs : ℤ

structure SpeechAssembler where
  runId : RunId
  configuration : ConfigurationSnapshot
  calibrator : Calibrator .double
  digest : String → String

namespace SpeechAssembler

variable (a : SpeechAssembler)

def provenance (result : SpeechResult) : Provenance where
  modality := .audio
  modelVersion := result.modelVersion
  taxonomyVersion := a.configuration.taxonomyVersion
  configuration := a.configuration.id
  evidenceRef := ⟨⟨"audio:" ++ a.runId.value, isBlank_append_of_head (by decide) _⟩⟩

def token (word : WordHypothesis) : Except Failure WordToken := do
  let interval ← Interval.of word.startMs word.endMs
  let confidence ← a.calibrator.calibrate "word" word.score
  WordToken.of (deriveTokenId a.digest a.runId word.startMs word.rawText) word.rawText interval
    confidence

/-- A lexical class without a decided role is uncertain; other classes have none. -/
def roleFor (hypothesis : SpeechEventHypothesis) : Option ContextualRole :=
  if hypothesis.type.lexical then hypothesis.contextRole.or (some .uncertain) else none

def event (hypothesis : SpeechEventHypothesis) (provenance : Provenance) :
    Except Failure SpeechEvent := do
  let id := deriveEventId a.digest a.runId hypothesis.type.value hypothesis.startMs
    hypothesis.rawText
  let interval ← Interval.of hypothesis.startMs hypothesis.endMs
  let confidence ← a.calibrator.calibrate hypothesis.type.value hypothesis.score
  SpeechEvent.of id hypothesis.type interval confidence provenance hypothesis.rawText
    (roleFor hypothesis)

def prosody (hypothesis : ProsodyHypothesis) (provenance : Provenance) :
    Except Failure ProsodyReading := do
  let window ← Interval.of hypothesis.startMs hypothesis.endMs
  match hypothesis.value with
  | none =>
      let detail := s!"the runtime could not measure {hypothesis.indicator.value} " ++
        s!"over [{hypothesis.startMs}, {hypothesis.endMs}) ms"
      return .unavailable hypothesis.indicator window ⟨.insufficientObservation, detail⟩ provenance
  | some value =>
      let confidence ← a.calibrator.calibrate hypothesis.indicator.value hypothesis.score
      return .measured hypothesis.indicator window value confidence provenance

def assemble (result : SpeechResult) : Except Failure AssembledSpeech := do
  let provenance := a.provenance result
  let tokens ← result.words.mapM a.token
  let events ← result.events.mapM (a.event · provenance)
  let prosody ← result.prosody.mapM (a.prosody · provenance)
  return ⟨tokens, events, prosody, result.stableThroughMs⟩

variable {a}

theorem token_eq_ok {word : WordHypothesis} {t : WordToken} (h : a.token word = .ok t) :
    t.isFinal = false ∧ t.id = deriveTokenId a.digest a.runId word.startMs word.rawText ∧
      t.interval.start.ms = word.startMs := by
  obtain ⟨interval, hi, h⟩ := Except.bind_eq_ok.1 h
  obtain ⟨confidence, -, h⟩ := Except.bind_eq_ok.1 h
  unfold WordToken.of at h
  split_ifs at h
  cases h
  exact ⟨rfl, rfl, (Interval.of_eq_ok hi).1⟩

theorem event_eq_ok {hypothesis : SpeechEventHypothesis} {provenance : Provenance}
    {e : SpeechEvent} (h : a.event hypothesis provenance = .ok e) :
    e.isFinal = false ∧
      e.id = deriveEventId a.digest a.runId hypothesis.type.value hypothesis.startMs
        hypothesis.rawText := by
  obtain ⟨interval, -, h⟩ := Except.bind_eq_ok.1 h
  obtain ⟨confidence, -, h⟩ := Except.bind_eq_ok.1 h
  have hfields := SpeechEvent.of_eq_ok h
  exact ⟨hfields.2.2.2.2.2.2.2, hfields.1⟩

theorem assemble_eq_ok {result : SpeechResult} {assembled : AssembledSpeech}
    (h : a.assemble result = .ok assembled) :
    result.words.mapM a.token = .ok assembled.tokens ∧
      result.events.mapM (a.event · (a.provenance result)) = .ok assembled.events ∧
      assembled.stableThroughMs = result.stableThroughMs := by
  obtain ⟨tokens, ht, h⟩ := Except.bind_eq_ok.1 h
  obtain ⟨events, he, h⟩ := Except.bind_eq_ok.1 h
  obtain ⟨prosody, -, h⟩ := Except.bind_eq_ok.1 h
  cases h
  exact ⟨ht, he, rfl⟩

theorem provisional_of_mem_tokens {result : SpeechResult} {assembled : AssembledSpeech}
    (h : a.assemble result = .ok assembled) {t : WordToken} (ht : t ∈ assembled.tokens) :
    t.isFinal = false := by
  obtain ⟨word, -, hw⟩ := Except.mem_of_mapM_eq_ok (assemble_eq_ok h).1 ht
  exact (token_eq_ok hw).1

theorem provisional_of_mem_events {result : SpeechResult} {assembled : AssembledSpeech}
    (h : a.assemble result = .ok assembled) {e : SpeechEvent} (he : e ∈ assembled.events) :
    e.isFinal = false := by
  obtain ⟨hypothesis, -, hh⟩ := Except.mem_of_mapM_eq_ok (assemble_eq_ok h).2.1 he
  exact (event_eq_ok hh).1

end SpeechAssembler

/-- The interior gaps of at least `thresholdMs` between consecutive words. -/
def pausesBetween (digest : String → String) (thresholdMs : ℤ) (provenance : Provenance)
    (runId : RunId) : List WordToken → Except Failure (List SpeechEvent)
  | previous :: following :: rest => do
      let gapMs := following.interval.start.ms - previous.interval.stop.ms
      if gapMs < thresholdMs then
        pausesBetween digest thresholdMs provenance runId (following :: rest)
      else
        let startMs := previous.interval.stop.ms
        let interval ← Interval.of startMs following.interval.start.ms
        let pause ← SpeechEvent.of
          (deriveEventId digest runId SpeechEventType.silentPause.value startMs "") .silentPause
          interval .certain provenance "" none
        let pauses ← pausesBetween digest thresholdMs provenance runId (following :: rest)
        return pause :: pauses
  | _ => return []

def silentPauses (digest : String → String) (tokens : List WordToken) (thresholdMs : ℤ)
    (provenance : Provenance) (runId : RunId) : Except Failure (List SpeechEvent) :=
  pausesBetween digest thresholdMs provenance runId
    (tokens.insertionSort fun s t => s.interval.start.ms ≤ t.interval.start.ms)

end OratoriaEngine
