import OratoriaEngine.EvidenceLedger
import OratoriaEngine.Lib.Stateful
import OratoriaEngine.Outbound
import OratoriaEngine.Sequencing
import OratoriaEngine.SpeechAssembly
import OratoriaEngine.VisualAssembly

/-!
# The streaming coordinator

Chunks in, partial and final evidence out. The coordinator is an action on the
stream it owns: an exception ends a call and leaves behind what the call had
already assigned, recorded and published.
-/

namespace OratoriaEngine

/-- Everything accumulated for one live session. -/
structure StreamingState where
  runId : RunId
  sessionId : SessionId
  transcript : Transcript
  audioChunks : ChunkLedger
  videoChunks : ChunkLedger
  speechEvents : Dict String SpeechEvent
  visualEvents : Dict String VisualEvent
  prosody : List ProsodyReading
  quality : QualityReport
  inFlight : ℤ
  degradedModalities : Finset Modality

namespace StreamingState

def fresh (runId : RunId) (sessionId : SessionId) : StreamingState :=
  ⟨runId, sessionId, .empty, .empty, .empty, .empty, .empty, [], .empty, 0, ∅⟩

def ledgerFor (s : StreamingState) (modality : Modality) : ChunkLedger :=
  if modality = .audio then s.audioChunks else s.videoChunks

def setLedgerFor (s : StreamingState) (modality : Modality) (l : ChunkLedger) : StreamingState :=
  if modality = .audio then { s with audioChunks := l } else { s with videoChunks := l }

section

variable (s : StreamingState) (modality : Modality) (l : ChunkLedger)

@[simp] theorem setLedgerFor_runId : (s.setLedgerFor modality l).runId = s.runId := by
  unfold setLedgerFor
  split_ifs <;> rfl

@[simp] theorem setLedgerFor_sessionId :
    (s.setLedgerFor modality l).sessionId = s.sessionId := by
  unfold setLedgerFor
  split_ifs <;> rfl

@[simp] theorem setLedgerFor_degradedModalities :
    (s.setLedgerFor modality l).degradedModalities = s.degradedModalities := by
  unfold setLedgerFor
  split_ifs <;> rfl

@[simp] theorem setLedgerFor_transcript :
    (s.setLedgerFor modality l).transcript = s.transcript := by
  unfold setLedgerFor
  split_ifs <;> rfl

@[simp] theorem setLedgerFor_speechEvents :
    (s.setLedgerFor modality l).speechEvents = s.speechEvents := by
  unfold setLedgerFor
  split_ifs <;> rfl

@[simp] theorem setLedgerFor_quality : (s.setLedgerFor modality l).quality = s.quality := by
  unfold setLedgerFor
  split_ifs <;> rfl

@[simp] theorem setLedgerFor_inFlight : (s.setLedgerFor modality l).inFlight = s.inFlight := by
  unfold setLedgerFor
  split_ifs <;> rfl

@[simp] theorem ledgerFor_setLedgerFor : (s.setLedgerFor modality l).ledgerFor modality = l := by
  unfold setLedgerFor ledgerFor
  split_ifs <;> rfl

end

end StreamingState

inductive RuntimeCall
  | transcribe (window : AudioWindow)
  | observe (frames : List VisualFrame)
  deriving DecidableEq

/-- The coordinator's state, its evidence ledger, and what it sent to its ports. -/
structure Stream where
  state : StreamingState
  ledger : EvidenceLedger
  published : List OutboundEvent
  backpressure : List (SessionId × ℤ)
  runtimeCalls : List RuntimeCall

def Stream.fresh (runId : RunId) (sessionId : SessionId) : Stream :=
  ⟨.fresh runId sessionId, .empty runId, [], [], []⟩

def defaultMaxQueueDepth : ℤ := 8

structure Coordinator where
  configuration : ConfigurationSnapshot
  speechAssembler : SpeechAssembler
  visualAssembler : VisualAssembler
  digest : String → String
  maxQueueDepth : ℤ

/-- The ports one call meets: two runtimes and a channel. -/
structure StreamPorts where
  speech : SpeechRuntime
  vision : VisionRuntime
  channel : EventChannel

abbrev StreamAction := Stateful Stream Failure

namespace Coordinator

variable (c : Coordinator) (ports : StreamPorts)

def modifyState (f : StreamingState → StreamingState) : StreamAction Unit :=
  modify fun t => { t with state := f t.state }

def publish (event : OutboundEvent) : StreamAction Unit := do
  let t ← get
  Stateful.raiseIf (ports.channel.publish t.published event)
  modify fun t => { t with published := t.published ++ [event] }

def publishTranscript (isFinal : Bool) : StreamAction Unit := do
  let t ← get
  let tokens := if isFinal then t.state.transcript.finalTokens
    else t.state.transcript.provisionalTokens
  match tokens.getLast? with
  | none => return ()
  | some last => publish ports {
      type := if isFinal then .transcriptFinal else .transcriptPartial
      sessionId := t.state.sessionId
      monotonicTimeMs := last.interval.stop.ms
      payload := .tokens (tokens.map tokenPayload) }

def publishSpeech (events : List SpeechEvent) (isFinal : Bool) : StreamAction Unit := do
  let t ← get
  match (events.map (·.interval.stop.ms)).max? with
  | none => return ()
  | some latest => publish ports {
      type := if isFinal then .speechEventFinal else .speechEventPartial
      sessionId := t.state.sessionId
      monotonicTimeMs := latest
      payload := .events (events.map speechPayload) }

def publishQualityWarnings (availability : List ModalityAvailability) : StreamAction Unit := do
  let unusable := availability.filter fun record => !record.isUsable
  if unusable.isEmpty then
    return ()
  let t ← get
  publish ports {
    type := .qualityWarning
    sessionId := t.state.sessionId
    monotonicTimeMs := t.state.transcript.finalizedFrontier.ms
    payload := .windows (unusable.map windowPayload) }

def offer (modality : Modality) (sequence : ℤ) : StreamAction ChunkVerdict := do
  let t ← get
  let offered ← Stateful.ofExcept ((t.state.ledgerFor modality).offer sequence)
  modifyState (·.setLedgerFor modality offered.2)
  return offered.1

/-- Refuse work once the bounded queue is full. -/
def admitWindow : StreamAction Unit := do
  let t ← get
  let depth := t.state.inFlight
  if depth < c.maxQueueDepth then
    return ()
  Stateful.raiseIf (ports.channel.requestBackpressure t.state.sessionId depth)
  modify fun t => { t with backpressure := t.backpressure ++ [(t.state.sessionId, depth)] }
  throw (.backpressureRequired s!"{depth} windows already in flight; slow down" depth)

/-- Mark a modality down; the client is told the first time only. -/
def degrade (modality : Modality) (failure : Failure) : StreamAction Unit := do
  let t ← get
  let firstTime := modality ∉ t.state.degradedModalities
  modifyState fun s => { s with degradedModalities := insert modality s.degradedModalities }
  if firstTime then
    publish ports {
      type := .processingDegraded
      sessionId := t.state.sessionId
      monotonicTimeMs := t.state.transcript.finalizedFrontier.ms
      payload := .degradation modality.value failure.typeName
        (s!"{modality.value} processing failed; its indicators will be reported " ++
          "as unavailable for the affected windows") }

/-- Ask a runtime with one more window in flight; its failure degrades the modality. -/
def attemptRuntime {α : Type} (modality : Modality) (call : RuntimeCall)
    (answer : Except Failure α) : StreamAction (Option α) := do
  modifyState fun s => { s with inFlight := s.inFlight + 1 }
  Stateful.finallyDo (do
    modify fun t => { t with runtimeCalls := t.runtimeCalls ++ [call] }
    match answer with
    | .ok result => return some result
    | .error failure =>
        degrade ports modality failure
        return none)
    fun t => { t with state := { t.state with inFlight := t.state.inFlight - 1 } }

end Coordinator

end OratoriaEngine
