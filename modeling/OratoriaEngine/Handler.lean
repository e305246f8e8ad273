import OratoriaEngine.Commands
import OratoriaEngine.Ingest
import OratoriaEngine.Lib.Interleaving

/-!
# The socket handler and the deployment around it

A connection opens a run, then handles one message after the other: media goes to
its coordinator, control messages become use cases. Around it other requests are
served on the same adapters, and snapshots are published, between any two port calls.
-/

namespace OratoriaEngine

inductive ControlType
  | clientHeartbeat
  | capturePause
  | captureResume
  | sessionComplete
  | sessionConfigure
  deriving DecidableEq, Repr

/-- A message of the client once it is parsed, or the news that it could not be. -/
inductive ClientMessage
  | audioChunk (sequence monotonicTimeMs durationMs sampleRateHz : ℤ) (samples : List UInt8)
      (isFinal : Bool)
  | videoFrame (sequence sessionPositionMs : ℤ) (pixels : Option (List UInt8))
      (landmarks : List PyFloat)
  | control (type : ControlType)
  | unknown
  | malformed
  deriving DecidableEq

/-- What the deployment gives every connection. -/
structure Engine where
  calibrator : Calibrator .double
  digest : String → String
  maxQueueDepth : ℤ
  pipelineVersion : SemanticVersion

/-- What the handler holds between two messages. -/
structure Connection where
  caller : AuthenticatedCaller
  sessionId : SessionId
  configuration : ConfigurationSnapshot
  coordinator : Coordinator
  stream : Stream

/-- A request to open a stream, with the identifier and the clock readings it will use. -/
structure Opening where
  caller : AuthenticatedCaller
  sessionId : SessionId
  runId : RunId
  wallMs : ℤ
  epochMs : ℤ

/-- The clock readings a control message meets. -/
structure Reading where
  wallMs : ℤ
  epochMs : ℤ
  closedMs : ℤ

namespace Handler

open Command

/-- The connection under the snapshot that was current when it was opened. -/
def connection (engine : Engine) (o : Opening) (configuration : ConfigurationSnapshot)
    (runId : RunId) : Connection where
  caller := o.caller
  sessionId := o.sessionId
  configuration := configuration
  coordinator := .forRun runId configuration engine.calibrator engine.digest engine.maxQueueDepth
  stream := .fresh runId o.sessionId

/-- From the accepted socket to the first message. -/
def start (engine : Engine) (o : Opening) : Command Connection := do
  let configuration ← configurationCurrent o.caller.tenant
  let _ ← CaptureControl.begin o.caller o.sessionId o.wallMs
  let run ← OpenProcessingRun.execute o.caller o.sessionId o.runId engine.pipelineVersion o.epochMs
  return connection engine o configuration run.id

def ingestCall : ClientMessage → Option Coordinator.IngestCall
  | .audioChunk sequence monotonicTimeMs durationMs sampleRateHz samples isFinal =>
      some (.audio sequence ⟨monotonicTimeMs, durationMs, sampleRateHz, samples, isFinal⟩)
  | .videoFrame sequence sessionPositionMs pixels landmarks =>
      some (.video sequence [⟨sessionPositionMs, pixels, landmarks⟩])
  | _ => none

/-- What a control message asks of the use cases; the result says whether the socket stays open. -/
def control (conn : Connection) (type : ControlType) (now : Reading) : Command Bool := do
  match type with
  | .clientHeartbeat | .sessionConfigure => return true
  | .capturePause =>
      let _ ← CaptureControl.pause conn.caller conn.sessionId now.wallMs
      return true
  | .captureResume =>
      let _ ← CaptureControl.resume conn.caller conn.sessionId now.wallMs
      return true
  | .sessionComplete =>
      let _ ← CompleteSession.execute conn.caller conn.sessionId conn.stream.state
        conn.configuration now.wallMs now.epochMs
      CloseProcessingRun.execute conn.stream.state.runId true now.closedMs
      return false

def disconnected (conn : Connection) (now : Reading) : Command Bool := do
  CloseProcessingRun.execute conn.stream.state.runId false now.closedMs
  return false

end Handler

inductive Socket
  | closed
  | opening (caller : AuthenticatedCaller) (sessionId : SessionId) (rest : Command Connection)
  | listening (conn : Connection)
  | controlling (conn : Connection) (rest : Command Bool)

namespace Socket

def ofOpening (caller : AuthenticatedCaller) (sessionId : SessionId) :
    Command Connection → Socket
  | .done (.ok conn) => listening conn
  | .done (.error _) => closed
  | .call o next => opening caller sessionId (.call o next)

def ofControl (conn : Connection) : Command Bool → Socket
  | .done (.ok true) => listening conn
  | .done (.ok false) | .done (.error _) => closed
  | .call o next => controlling conn (.call o next)

/-- The handler swallows a refusal for want of room, and closes the run when the socket is gone;
any other exception ends the connection. -/
def ofIngest (conn : Connection) (now : Reading) : Except Failure ChunkVerdict × Stream → Socket
  | (.ok _, stream) | (.error (.backpressureRequired _ _), stream) =>
      listening { conn with stream := stream }
  | (.error failure, stream) =>
      if failure.typeName = "WebSocketDisconnect" then
        ofControl { conn with stream := stream } (Handler.disconnected conn now)
      else closed

end Socket

/-- The adapters, the requests being served on them and the sockets. -/
structure Deployment (ι κ : Type) where
  shared : Interleaving.Config Port Port.Answer Failure Unit World ι
  sockets : κ → Socket

inductive Happening (ι κ : Type)
  | request (choice : Interleaving.Choice Failure ι)
  | publish (snapshot : ConfigurationSnapshot) (tenant : Option TenantId)
  | connect (k : κ) (o : Opening)
  | receive (k : κ) (message : ClientMessage) (ports : StreamPorts) (now : Reading)
  | proceed (k : κ) (fault : Option Failure)
  | disconnect (k : κ) (now : Reading)
  | drop (k : κ)

namespace Deployment

variable {ι κ : Type} [DecidableEq ι] [DecidableEq κ] (engine : Engine)

def world (d : Deployment ι κ) : World := d.shared.world

def setWorld (d : Deployment ι κ) (w : World) : Deployment ι κ :=
  { d with shared := { d.shared with world := w } }

def setSocket (d : Deployment ι κ) (k : κ) (socket : Socket) : Deployment ι κ :=
  { d with sockets := Function.update d.sockets k socket }

def handle (conn : Connection) (message : ClientMessage) (ports : StreamPorts) (now : Reading) :
    Socket :=
  match Handler.ingestCall message, message with
  | some media, _ =>
      .ofIngest conn now (Stateful.exec (conn.coordinator.serve ⟨ports, media⟩) conn.stream)
  | none, .control type => .ofControl conn (Handler.control conn type now)
  | none, _ => .listening conn

def step (d : Deployment ι κ) : Happening ι κ → Deployment ι κ
  | .request choice => { d with shared := Interleaving.step inMemory d.shared choice }
  | .publish snapshot tenant => d.setWorld (d.world.publish snapshot tenant).2
  | .connect k o =>
      match d.sockets k with
      | .closed => d.setSocket k (.ofOpening o.caller o.sessionId (Handler.start engine o))
      | _ => d
  | .receive k message ports now =>
      match d.sockets k with
      | .listening conn => d.setSocket k (handle conn message ports now)
      | _ => d
  | .proceed k fault =>
      match d.sockets k with
      | .opening caller sessionId (.call o next) =>
          let answer := Program.attempt inMemory fault o d.world
          (d.setWorld answer.2).setSocket k (.ofOpening caller sessionId (next answer.1))
      | .controlling conn (.call o next) =>
          let answer := Program.attempt inMemory fault o d.world
          (d.setWorld answer.2).setSocket k (.ofControl conn (next answer.1))
      | _ => d
  | .disconnect k now =>
      match d.sockets k with
      | .listening conn => d.setSocket k (.ofControl conn (Handler.disconnected conn now))
      | _ => d
  | .drop k => d.setSocket k .closed

def run (d : Deployment ι κ) (happenings : List (Happening ι κ)) : Deployment ι κ :=
  happenings.foldl (step engine) d

@[simp] theorem run_nil (d : Deployment ι κ) : d.run engine [] = d := rfl

@[simp] theorem run_cons (d : Deployment ι κ) (h : Happening ι κ) (hs : List (Happening ι κ)) :
    d.run engine (h :: hs) = (d.step engine h).run engine hs := rfl

/-- Every step of the run meets `P` where it is taken. -/
def EveryStep (P : Deployment ι κ → Happening ι κ → Prop) :
    Deployment ι κ → List (Happening ι κ) → Prop
  | _, [] => True
  | d, h :: hs => P d h ∧ EveryStep P (d.step engine h) hs

theorem everyStep_append {P : Deployment ι κ → Happening ι κ → Prop} (d : Deployment ι κ)
    (hs hs' : List (Happening ι κ)) :
    EveryStep engine P d (hs ++ hs') ↔
      EveryStep engine P d hs ∧ EveryStep engine P (d.run engine hs) hs' := by
  induction hs generalizing d with
  | nil => simp [EveryStep]
  | cons h hs ih => simp only [List.cons_append, EveryStep, ih, run_cons, and_assoc]

theorem everyStep_congr {P Q : Deployment ι κ → Happening ι κ → Prop} (h : ∀ d e, P d e ↔ Q d e)
    (d : Deployment ι κ) (hs : List (Happening ι κ)) :
    EveryStep engine P d hs ↔ EveryStep engine Q d hs := by
  induction hs generalizing d with
  | nil => exact Iff.rfl
  | cons e hs ih => exact and_congr (h d e) (ih _)

def sampleEngine : Engine := ⟨.unfitted, id, defaultMaxQueueDepth, pipelineVersion⟩

end Deployment

end OratoriaEngine
