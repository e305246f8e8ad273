import OratoriaEngine.Conversions
import OratoriaEngine.Lib.Dict
import OratoriaEngine.Lib.Enumeration
import OratoriaEngine.Lib.Except

/-!
# The streaming protocol

A client message is a JSON object with an envelope. Unknown types are tolerated; a message that
cannot be parsed at all is a protocol error, which costs the client that message and not the
socket. The conversions of the media fields raise errors of other classes, and accept positions
and durations below zero.
-/

namespace OratoriaEngine.Protocol

open Json

/-- What the parser takes from the language's library: how values are shown and refused, and the
strict decoder of samples and pixels. -/
structure Library extends Texts where
  b64decode : String → Option (List UInt8)

inductive ClientMessageType
  | sessionConfigure
  | audioChunk
  | videoFrame
  | visualFeatures
  | capturePause
  | captureResume
  | sessionComplete
  | clientHeartbeat
  deriving DecidableEq, Repr

def ClientMessageType.value : ClientMessageType → String
  | .sessionConfigure => "session.configure"
  | .audioChunk => "audio.chunk"
  | .videoFrame => "video.frame"
  | .visualFeatures => "visual.features"
  | .capturePause => "capture.pause"
  | .captureResume => "capture.resume"
  | .sessionComplete => "session.complete"
  | .clientHeartbeat => "client.heartbeat"

def ClientMessageType.enumeration : Enumeration ClientMessageType where
  typeName := "ClientMessageType"
  members := [.sessionConfigure, .audioChunk, .videoFrame, .visualFeatures, .capturePause,
    .captureResume, .sessionComplete, .clientHeartbeat]
  value := ClientMessageType.value
  stated a := by cases a <;> decide
  told a := by cases a <;> decide

structure Envelope where
  schemaVersion : String
  sessionId : String
  messageId : String
  monotonicTimeMs : ℤ
  chunkSeq : Option ℤ
  eventSeq : Option ℤ

structure AudioChunk where
  envelope : Envelope
  sequence : ℤ
  samples : List UInt8
  sampleRateHz : ℤ
  durationMs : ℤ
  isFinal : Bool

structure VideoFramePayload where
  envelope : Envelope
  sequence : ℤ
  sessionPositionMs : ℤ
  pixels : Option (List UInt8)
  landmarks : List PyFloat

structure ControlMessage where
  envelope : Envelope
  type : ClientMessageType
  body : Dict String Json

structure UnknownMessage where
  rawType : String
  envelope : Option Envelope
  reason : String

inductive ClientMessage
  | audioChunk (chunk : AudioChunk)
  | videoFrame (frame : VideoFramePayload)
  | control (message : ControlMessage)
  | unknown (message : UnknownMessage)

def requiredKeys : List String :=
  ["schema_version", "session_id", "message_id", "monotonic_time_ms"]

def envelopeKeys : List String := requiredKeys ++ ["chunk_seq", "event_seq"]

variable (lib : Library) (raw : Dict String Json)

/-- `raw.get(key, default)`. -/
def field (key : String) (default : Json) : Json := (raw.get? key).getD default

/-- `isinstance(value, int)` and not below zero. -/
def nonNegative (key : String) (v : Json) : Except Failure ℤ :=
  let refused := .error (.protocolError s!"{key} must be a non-negative integer, got {lib.repr v}")
  match v.asInt? with
  | some n => if n < 0 then refused else .ok n
  | none => refused

def optionalInt (key : String) : Except Failure (Option ℤ) :=
  match raw.get? key with
  | none | some .null => .ok none
  | some v => some <$> nonNegative lib key v

def shown (keys : List String) : String :=
  "[" ++ ", ".intercalate (keys.map fun key => s!"'{key}'") ++ "]"

def missing : List String := requiredKeys.filter fun key => !raw.contains key

def parseEnvelope : Except Failure Envelope :=
  if missing raw ≠ [] then
    .error (.protocolError s!"message is missing required envelope fields: {shown (missing raw)}")
  else do
    let monotonic ← nonNegative lib "monotonic_time_ms" (field raw "monotonic_time_ms" .null)
    let chunkSeq ← optionalInt lib raw "chunk_seq"
    let eventSeq ← optionalInt lib raw "event_seq"
    return {
      schemaVersion := (field raw "schema_version" .null).text lib.toTexts
      sessionId := (field raw "session_id" .null).text lib.toTexts
      messageId := (field raw "message_id" .null).text lib.toTexts
      monotonicTimeMs := monotonic
      chunkSeq := chunkSeq
      eventSeq := eventSeq }

/-- The bytes of a field, or the message its refusal carries. -/
def decoded (key message : String) : Except Failure (List UInt8) :=
  match lib.b64decode ((field raw key (.str "")).text lib.toTexts) with
  | some bytes => .ok bytes
  | none => .error (.protocolError message)

def parseAudio (envelope : Envelope) : Except Failure AudioChunk :=
  match envelope.chunkSeq with
  | none => .error (.protocolError ("audio.chunk requires chunk_seq; without it FR-008 cannot " ++
      "tell a lost packet from a pause the speaker actually took"))
  | some sequence => do
      let samples ← decoded lib raw "samples" "audio.chunk samples are not valid base64"
      let sampleRateHz ← (field raw "sample_rate_hz" (.int 16000)).toInt lib.toTexts
      let durationMs ← (field raw "duration_ms" (.int 0)).toInt lib.toTexts
      return {
        envelope := envelope
        sequence := sequence
        samples := samples
        sampleRateHz := sampleRateHz
        durationMs := durationMs
        isFinal := (field raw "is_final" (.bool false)).truthy }

def parsePixels (type : ClientMessageType) : Except Failure (Option (List UInt8)) :=
  if type = .videoFrame then
    some <$> decoded lib raw "pixels" "video.frame pixels are not valid base64"
  else .ok none

def parseVideo (envelope : Envelope) (type : ClientMessageType) :
    Except Failure VideoFramePayload :=
  match envelope.chunkSeq with
  | none => .error (.protocolError s!"{type.value} requires chunk_seq")
  | some sequence => do
      let pixels ← parsePixels lib raw type
      match field raw "landmarks" (.arr []) with
      | .arr landmarks => do
          let sessionPositionMs ←
            (field raw "session_position_ms" (.int envelope.monotonicTimeMs)).toInt lib.toTexts
          let landmarks ← landmarks.mapM (toFloat lib.toTexts)
          return {
            envelope := envelope
            sequence := sequence
            sessionPositionMs := sessionPositionMs
            pixels := pixels
            landmarks := landmarks }
      | _ => .error (.protocolError "landmarks must be a flat list of numbers")

/-- The type a message names, the empty text if it names none. -/
def rawType : String := (field raw "type" (.str "")).text lib.toTexts

def parseBody (envelope : Envelope) : Except Failure ClientMessage :=
  match ClientMessageType.enumeration.read? (rawType lib raw) with
  | none => .ok (.unknown {
      rawType := rawType lib raw
      envelope := some envelope
      reason := "unrecognized message type for this schema version" })
  | some .audioChunk => .audioChunk <$> parseAudio lib raw envelope
  | some .videoFrame => .videoFrame <$> parseVideo lib raw envelope .videoFrame
  | some .visualFeatures => .videoFrame <$> parseVideo lib raw envelope .visualFeatures
  | some type => .ok (.control {
      envelope := envelope
      type := type
      body := raw.filter fun key _ => !envelopeKeys.contains key && key != "type" })

def parseClientMessage : Except Failure ClientMessage := do
  let envelope ← parseEnvelope lib raw
  parseBody lib raw envelope

end OratoriaEngine.Protocol
