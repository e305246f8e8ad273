import OratoriaEngine.Lib.Monitor
import OratoriaEngine.Protocol
import OratoriaEngine.SocketHandler

/-!
# The streaming endpoint

The handler of one socket from the handshake to the release of the lease. Everything it awaits
is a call: the socket, the lease, the use cases, the client's messages and the analysis of a
window. What a call of the analysis does to the coordinator follows from the runtimes and the
channel it meets.
-/

namespace OratoriaEngine

inductive StreamOp
  | acceptSocket
  | acquireLease (sessionId : SessionId) (ttlSeconds : ℤ)
  | releaseLease (sessionId : SessionId)
  | wire (o : Wire)
  | receiveJson
  | ingest (call : Coordinator.IngestCall)

/-- A message comes with the clock readings its handling will meet. -/
abbrev StreamOp.Answer : StreamOp → Type
  | .acquireLease _ _ => Bool
  | .wire o => o.Answer
  | .receiveJson => Dict String Json × Reading
  | .ingest _ => StreamPorts
  | _ => Unit

abbrev StreamProgram (α : Type) := Program StreamOp StreamOp.Answer Failure α

structure StreamEngine extends Engine where
  verify : String → ℤ → Except Failure (Option StreamGrant)
  protocol : Protocol.Library
  streamLeaseTtlSeconds : ℤ

/-- A request for a stream, with the identifier and the clock readings it will use, and how many
messages the client sends at most before it leaves. -/
structure StreamRequest where
  sessionId : String
  token : String
  runId : RunId
  verifiedMs : ℤ
  wallMs : ℤ
  epochMs : ℤ
  disconnectedMs : ℤ
  messages : ℕ

def Failure.isRuntimeError (failure : Failure) : Bool :=
  failure.typeName ∈ ["RuntimeError", "NotImplementedError", "RecursionError"]

def Failure.isWebSocketDisconnect (failure : Failure) : Bool :=
  failure.typeName = "WebSocketDisconnect"

def webSocketDisconnect : Failure := .foreign "WebSocketDisconnect" ""

def closeNormal : ℤ := 1000

namespace StreamHandler

def onWire {α : Type} (p : WireProgram α) : StreamProgram α := p.via StreamOp.wire

abbrev sendError (code message : String) : StreamProgram Unit :=
  Program.port (StreamOp.wire (.sendError code message))

abbrev close (code : ℤ) : StreamProgram Unit := Program.port (StreamOp.wire (.close code))

abbrev acquireLease (sessionId : SessionId) (ttlSeconds : ℤ) : StreamProgram Bool :=
  Program.port (StreamOp.acquireLease sessionId ttlSeconds)

abbrev releaseLease (sessionId : SessionId) : StreamProgram Unit :=
  Program.port (StreamOp.releaseLease sessionId)

/-- The two `_ingest` functions: a refusal for want of room has been told to the client already. -/
def ingest (conn : Connection) (call : Coordinator.IngestCall) : StreamProgram Connection := do
  let ports ← (Program.port (StreamOp.ingest call) : StreamProgram StreamPorts)
  match Stateful.exec (conn.coordinator.serve ⟨ports, call⟩) conn.stream with
  | (.ok _, stream) | (.error (.backpressureRequired _ _), stream) =>
      return { conn with stream := stream }
  | (.error failure, _) => Program.raise failure

def audioCall (chunk : Protocol.AudioChunk) : Coordinator.IngestCall :=
  .audio chunk.sequence ⟨chunk.envelope.monotonicTimeMs, chunk.durationMs, chunk.sampleRateHz,
    chunk.samples, chunk.isFinal⟩

def videoCall (frame : Protocol.VideoFramePayload) : Coordinator.IngestCall :=
  .video frame.sequence [⟨frame.sessionPositionMs, frame.pixels, frame.landmarks⟩]

/-- The control messages the handler knows; every other type is met with silence. -/
def controlType : Protocol.ClientMessageType → ControlType
  | .clientHeartbeat => .clientHeartbeat
  | .capturePause => .capturePause
  | .captureResume => .captureResume
  | .sessionComplete => .sessionComplete
  | _ => .sessionConfigure

variable (engine : StreamEngine)

/-- Handle one message: whether the socket stays open, and what the handler holds then. -/
def dispatch (conn : Connection) (raw : Dict String Json) (now : Reading) :
    StreamProgram (Bool × Connection) :=
  match Protocol.parseClientMessage engine.protocol raw with
  | .error (.protocolError message) => do
      sendError "protocol_error" message
      return (true, conn)
  | .error failure => Program.raise failure
  | .ok (.unknown _) => return (true, conn)
  | .ok (.audioChunk chunk) => do
      let conn ← ingest conn (audioCall chunk)
      return (true, conn)
  | .ok (.videoFrame frame) => do
      let conn ← ingest conn (videoCall frame)
      return (true, conn)
  | .ok (.control message) => do
      let keepOpen ← onWire (SocketHandler.control conn (controlType message.type) now)
      return (keepOpen, conn)

/-- One message after the other, until one closes the socket or the client leaves. -/
def listen (conn : Connection) : ℕ → StreamProgram Unit
  | 0 => Program.raise webSocketDisconnect
  | messages + 1 => do
      let (raw, now) ←
        (Program.port StreamOp.receiveJson : StreamProgram (Dict String Json × Reading))
      let (keepOpen, conn) ← dispatch engine conn raw now
      if keepOpen then
        listen conn messages
      else
        return ()

/-- A dropped connection is not a failed session; its run is closed as failed. -/
def disconnected (runId : RunId) (disconnectedMs : ℤ) (failure : Failure) :
    Option (StreamProgram Unit) :=
  if failure.isWebSocketDisconnect then
    some (onWire (SocketHandler.lift (CloseProcessingRun.execute runId false disconnectedMs)))
  else none

def closeSuppressed : StreamProgram Unit :=
  (close closeNormal).rescue fun failure => if failure.isRuntimeError then some (pure ()) else none

/-- Serve an accepted stream to its end. -/
def serve (request : StreamRequest) (conn : Connection) : StreamProgram Unit :=
  ((listen engine conn request.messages).rescue
    (disconnected conn.stream.state.runId request.disconnectedMs)).ensuring closeSuppressed

/-- The identity a grant stands for. -/
def callerFrom (grant : StreamGrant) : AuthenticatedCaller where
  application := grant.application
  tenant := grant.tenant
  keyId := grant.keyId
  scopes := grant.scopes
  traceId := s!"ws_{grant.sessionId.value}"

def opening (request : StreamRequest) (grant : StreamGrant) : Opening where
  caller := callerFrom grant
  sessionId := grant.sessionId
  runId := request.runId
  wallMs := request.wallMs
  epochMs := request.epochMs

def run (request : StreamRequest) (grant : StreamGrant) : StreamProgram Unit := do
  match ← onWire (SocketHandler.accept engine.toEngine (opening request grant)) with
  | none => return ()
  | some conn => serve engine request conn

def refuseToken (request : StreamRequest) : StreamProgram Unit := do
  let _ ← (Program.ofExcept (SessionId.of request.sessionId) : StreamProgram SessionId)
  sendError "invalid_stream_token" "the stream token is not valid"
  close closePolicyViolation

/-- Take the lease, serve the stream and release the lease; or find the session busy. -/
def admitted (request : StreamRequest) (grant : StreamGrant) : StreamProgram Unit := do
  let acquired ← acquireLease grant.sessionId engine.streamLeaseTtlSeconds
  if acquired then
    (run engine request grant).ensuring (releaseLease grant.sessionId)
  else
    sendError "session_busy" "another connection is already processing this session"
    close closePolicyViolation

def stream (request : StreamRequest) : StreamProgram Unit := do
  (Program.port StreamOp.acceptSocket : StreamProgram Unit)
  let verified ← (Program.ofExcept (engine.verify request.token request.verifiedMs) :
    StreamProgram (Option StreamGrant))
  match verified with
  | none => refuseToken request
  | some grant =>
      if grant.sessionId.value = request.sessionId then admitted engine request grant
      else refuseToken request

end StreamHandler

end OratoriaEngine
