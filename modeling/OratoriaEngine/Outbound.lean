import OratoriaEngine.Quality
import OratoriaEngine.SpeechEvents
import OratoriaEngine.Transcript

/-!
# Messages to the client

The wire shapes of what the coordinator publishes, and the channel it publishes
them on. A channel may refuse a message by raising; a refused message is not
delivered.
-/

namespace OratoriaEngine

inductive ServerMessageType
  | sessionAccepted
  | qualityWarning
  | transcriptPartial
  | transcriptFinal
  | speechEventPartial
  | speechEventFinal
  | visualEventFinal
  | cooccurrenceFinal
  | backpressureRequested
  | processingDegraded
  | sessionCompleted
  | error
  deriving DecidableEq, Repr

structure TokenPayload where
  id : String
  rawText : String
  startMs : ℤ
  endMs : ℤ
  toleranceMs : ℤ
  confidence : ℚ
  calibration : String
  deriving DecidableEq

def tokenPayload (token : WordToken) : TokenPayload where
  id := token.id.value
  rawText := token.rawText
  startMs := token.interval.start.ms
  endMs := token.interval.stop.ms
  toleranceMs := token.interval.toleranceMs
  confidence := token.confidence.value
  calibration := token.confidence.state.value

structure SpeechPayload where
  id : String
  type : String
  startMs : ℤ
  endMs : ℤ
  toleranceMs : ℤ
  confidence : ℚ
  calibration : String
  rawText : String
  contextRole : Option String
  modality : String
  modelVersion : String
  taxonomyVersion : String
  evidenceRef : String
  deriving DecidableEq

def speechPayload (event : SpeechEvent) : SpeechPayload where
  id := event.id.value
  type := event.type.value
  startMs := event.interval.start.ms
  endMs := event.interval.stop.ms
  toleranceMs := event.interval.toleranceMs
  confidence := event.confidence.value
  calibration := event.confidence.state.value
  rawText := event.rawText
  contextRole := event.contextRole.map ContextualRole.value
  modality := event.provenance.modality.value
  modelVersion := event.provenance.modelVersion.value
  taxonomyVersion := toString event.provenance.taxonomyVersion
  evidenceRef := event.provenance.evidenceRef.value

structure WindowPayload where
  modality : String
  reason : String
  detail : String
  startMs : ℤ
  endMs : ℤ
  deriving DecidableEq

def windowPayload (record : ModalityAvailability) : WindowPayload where
  modality := record.modality.value
  reason := (record.reason.map UnavailabilityReason.value).getD ""
  detail := record.detail
  startMs := record.window.start.ms
  endMs := record.window.stop.ms

inductive OutboundPayload
  | degradation (modality reason detail : String)
  | tokens (tokens : List TokenPayload)
  | events (events : List SpeechPayload)
  | windows (windows : List WindowPayload)
  deriving DecidableEq

structure OutboundEvent where
  type : ServerMessageType
  sessionId : SessionId
  monotonicTimeMs : ℤ
  payload : OutboundPayload
  deriving DecidableEq

/-- What a channel raises on a message, given the messages it has delivered. -/
structure EventChannel where
  publish : List OutboundEvent → OutboundEvent → Option Failure
  requestBackpressure : SessionId → ℤ → Option Failure

def EventChannel.reliable : EventChannel := ⟨fun _ _ => none, fun _ _ => none⟩

end OratoriaEngine
