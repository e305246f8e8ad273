import OratoriaEngine.Adapters
import OratoriaEngine.Streaming

/-!
# Assembling the evidence of a completed session

The part of completion that runs between its first and its second store. The only
constructor in it that can refuse is the provenance manifest.
-/

namespace OratoriaEngine

/-- Fraction of expected chunks that never arrived; how it is rounded is left out. -/
def lossRatio (missing highestSeen : ℤ) : PyFloat :=
  let expected := highestSeen + 1
  if expected ≤ 0 then .fin 0 else .fin (missing / expected)

def chunkLoss (modality : Modality) (window : Interval) (l : ChunkLedger) : QualityAssessment where
  modality := modality
  metric := .chunkLossRatio
  window := window
  value := .measured ⟨lossRatio l.missingCount l.highestSeen, .certain, "ratio"⟩

/-- Confirm the gaps of both chunk ledgers and fold them into the quality report. -/
def withTransportQuality (state : StreamingState) (session : AnalysisSession) (wallMs : ℤ) :
    Except Failure (QualityReport × StreamingState) := do
  let captured ← Interval.of 0 (max (session.capturedMs wallMs) 0)
  let closed := { state with
    audioChunks := state.audioChunks.finalize
    videoChunks := state.videoChunks.finalize }
  let heard := chunkLoss .audio captured closed.audioChunks
  let assessments := if 0 ≤ closed.videoChunks.highestSeen then
    [heard, chunkLoss .video captured closed.videoChunks] else [heard]
  return (closed.quality.extended assessments [], closed)

def assembleEvidence (state : StreamingState) (session : AnalysisSession)
    (configuration : ConfigurationSnapshot) (tenant : TenantId) (sessionId : SessionId)
    (wallMs : ℤ) : Except Failure (EvidenceBundle × EvidenceDocument) := do
  let (quality, state) ← withTransportQuality state session wallMs
  let speechEvents := state.speechEvents.values.map (·.finalize)
  let visualEvents := state.visualEvents.values.map (·.finalize)
  let cooccurrences ← fuse speechEvents visualEvents configuration.fusionWindow
  let bundle : EvidenceBundle := {
    runId := state.runId
    sessionId := sessionId
    tenant := tenant
    transcript := state.transcript
    quality := quality
    speechEvents := speechEvents
    visualEvents := visualEvents
    prosody := state.prosody
    cooccurrences := cooccurrences }
  let manifest ← ProvenanceManifest.of configuration.pipelineVersion configuration.schemaVersion
    configuration.taxonomyVersion configuration.id (modelsUsed speechEvents visualEvents)
  let document : EvidenceDocument := {
    sessionId := sessionId
    runId := state.runId
    manifest := manifest
    transcript := bundle.transcript
    quality := bundle.quality
    speechEvents := bundle.speechEvents
    visualEvents := bundle.visualEvents
    prosody := bundle.prosody
    cooccurrences := bundle.cooccurrences }
  assertCarriesNoRanking (rankingPayload speechEvents visualEvents)
  return (bundle, document)

theorem withTransportQuality_isOk (state : StreamingState) (session : AnalysisSession)
    (wallMs : ℤ) :
    ∃ quality, withTransportQuality state session wallMs = .ok (quality, { state with
      audioChunks := state.audioChunks.finalize
      videoChunks := state.videoChunks.finalize }) := by
  obtain ⟨captured, hcaptured⟩ := Interval.of_isOk (le_refl 0)
    (le_max_right (session.capturedMs wallMs) 0)
  exact ⟨_, by rw [withTransportQuality, hcaptured]; rfl⟩

/-- Where the stored bundle and the published document come from. -/
structure Assembled (state : StreamingState) (configuration : ConfigurationSnapshot)
    (tenant : TenantId) (sessionId : SessionId) (bundle : EvidenceBundle)
    (document : EvidenceDocument) : Prop where
  stored : bundle.sessionId = sessionId ∧ bundle.tenant = tenant ∧ bundle.runId = state.runId
  published : document.sessionId = sessionId ∧ document.runId = state.runId
  manifest : document.manifest.configuration = configuration.id
  current : configuration.taxonomyVersion = taxonomyVersion
  transcript : document.transcript = state.transcript
  speechEvents : document.speechEvents = state.speechEvents.values.map (·.finalize)
  visualEvents : document.visualEvents = state.visualEvents.values.map (·.finalize)

theorem assembleEvidence_eq_ok {state : StreamingState} {session : AnalysisSession}
    {configuration : ConfigurationSnapshot} {tenant : TenantId} {sessionId : SessionId} {wallMs : ℤ}
    {bundle : EvidenceBundle} {document : EvidenceDocument}
    (h : assembleEvidence state session configuration tenant sessionId wallMs =
      .ok (bundle, document)) :
    Assembled state configuration tenant sessionId bundle document := by
  obtain ⟨quality, hquality⟩ := withTransportQuality_isOk state session wallMs
  obtain ⟨⟨_, closed⟩, hclosed, h⟩ := Except.bind_eq_ok.1 h
  cases hquality.symm.trans hclosed
  obtain ⟨pairs, -, h⟩ := Except.bind_eq_ok.1 h
  obtain ⟨manifest, hmanifest, h⟩ := Except.bind_eq_ok.1 h
  obtain ⟨_, -, h⟩ := Except.bind_eq_ok.1 h
  cases h
  unfold ProvenanceManifest.of at hmanifest
  split_ifs at hmanifest with hcurrent
  cases hmanifest
  exact ⟨⟨rfl, rfl, rfl⟩, ⟨rfl, rfl⟩, rfl, hcurrent, rfl, rfl, rfl⟩

theorem assembleEvidence_isOk_iff (state : StreamingState) (session : AnalysisSession)
    (configuration : ConfigurationSnapshot) (tenant : TenantId) (sessionId : SessionId)
    (wallMs : ℤ) :
    (∃ r, assembleEvidence state session configuration tenant sessionId wallMs = .ok r) ↔
      configuration.taxonomyVersion = taxonomyVersion := by
  constructor
  · rintro ⟨⟨bundle, document⟩, h⟩
    exact (assembleEvidence_eq_ok h).current
  · intro hcurrent
    obtain ⟨quality, hquality⟩ := withTransportQuality_isOk state session wallMs
    obtain ⟨pairs, hpairs⟩ := fuse_isOk (state.speechEvents.values.map (·.finalize))
      (state.visualEvents.values.map (·.finalize)) configuration.fusionWindow
    have hguard := assertCarriesNoRanking_rankingPayload
      (state.speechEvents.values.map (·.finalize)) (state.visualEvents.values.map (·.finalize))
    unfold assembleEvidence
    rw [hquality]
    simp only [bind, Except.bind, hpairs, ProvenanceManifest.of, dif_pos hcurrent, hguard]
    exact ⟨_, rfl⟩

end OratoriaEngine
