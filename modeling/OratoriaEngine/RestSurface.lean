import OratoriaEngine.ApiKeys
import OratoriaEngine.Queries
import OratoriaEngine.Rendering
import OratoriaEngine.SocketHandler
import OratoriaEngine.Lib.Monitor

/-!
# The REST surface

A request is authenticated by the key in its header, its route calls one use case, and what the
use case returns or raises becomes the response. The framework has read the path and the body:
what fails that is refused with 422 before a route is entered.
-/

namespace OratoriaEngine

structure NegotiatedCapabilitiesBody where
  schemaVersion : String
  audioCodec : String
  sampleRateHz : ℤ
  locale : String
  videoFormat : Option String
  frameRateFps : Option ℤ
  lossyAudioWarning : Bool

structure CreatedSessionBody where
  schemaVersion : String
  sessionId : String
  state : String
  mode : String
  capabilities : NegotiatedCapabilitiesBody
  configurationId : String
  streamToken : String
  streamTokenExpiresAtMs : ℤ

structure SessionStatusBody where
  schemaVersion : String
  sessionId : String
  state : String
  mode : String
  locale : String
  createdAtMs : ℤ
  completedAtMs : Option ℤ
  capturedMs : ℤ
  consentActive : Bool

structure DeletionReceiptBody where
  schemaVersion : String
  sessionId : String
  mediaObjectsDeleted : ℤ
  evidenceRecordsDeleted : ℤ
  alreadyDeleted : Bool

structure CapabilitiesBody where
  schemaVersion : String
  taxonomyVersion : String
  audioCodecs : List String
  sampleRatesHz : List ℤ
  videoFormats : List String
  frameRateRangeFps : ℤ × ℤ
  locales : List String
  speechEventTypes : List String
  visualEventTypes : List String
  rankingAuthority : String

structure ErrorBody where
  schemaVersion : String
  code : String
  message : String
  traceId : Option String
  retryAfterSeconds : Option ℤ

inductive RestPayload
  | created (body : CreatedSessionBody)
  | status (body : SessionStatusBody)
  | document (body : Json)
  | deleted (body : DeletionReceiptBody)
  | capabilities (body : CapabilitiesBody)
  | error (body : ErrorBody)
  /-- What the framework writes for an `HTTPException`. -/
  | detail (text : String)

structure HttpResponse where
  status : ℕ
  payload : RestPayload
  headers : List (String × String)

def Failure.isDomainError : Failure → Bool
  | .invalidIdentifier _ | .invalidInterval _ | .invalidConfidence _ |
    .illegalSessionTransition _ | .evidenceLedgerViolation _ | .consentViolation _ |
    .unsupportedCapability _ | .transcriptViolation _ | .speechEventViolation _ |
    .visualEventViolation _ _ | .prosodyViolation _ | .qualityViolation _ | .fusionViolation _ |
    .resultViolation _ => true
  | _ => false

/-- `str(error)`, given how a float is written. -/
def Failure.text (floatText : PyFloat → String) : Failure → String
  | .invalidConfidence got => "confidence must lie in [0, 1], got " ++ floatText got
  | .visualEventViolation message got => message ++ (got.map floatText).getD ""
  | .invalidIdentifier message | .invalidInterval message | .illegalSessionTransition message |
    .evidenceLedgerViolation message | .consentViolation message | .unsupportedCapability message |
    .transcriptViolation message | .speechEventViolation message | .prosodyViolation message |
    .qualityViolation message | .fusionViolation message | .resultViolation message |
    .notAuthorized message | .sessionNotFound message | .resultNotReady message |
    .quotaExceeded message _ | .sessionBusy message | .backpressureRequired message _ |
    .configurationError message | .protocolError message | .valueError message |
    .foreign _ message => message

/-- `getattr(error, "retry_after_seconds", None)`. -/
def Failure.retryAfterSeconds : Failure → Option ℤ
  | .quotaExceeded _ retryAfterSeconds => some retryAfterSeconds
  | _ => none

namespace Rest

/-- `_MAPPING`: an exception class, its status and its code. -/
def mapping : List (String × ℕ × String) := [
  ("NotAuthenticated", 401, "not_authenticated"),
  ("NotAuthorized", 403, "insufficient_scope"),
  ("SessionNotFound", 404, "session_not_found"),
  ("ResultNotReady", 409, "result_not_ready"),
  ("SessionBusy", 409, "session_busy"),
  ("QuotaExceeded", 429, "quota_exceeded"),
  ("BackpressureRequired", 429, "backpressure_required"),
  ("UnsupportedCapability", 422, "unsupported_capability"),
  ("ConsentViolation", 403, "consent_required"),
  ("IllegalSessionTransition", 409, "illegal_transition"),
  ("ProhibitedLabel", 500, "prohibited_label")]

/-- No class of the table has a subclass: the pass by `isinstance` finds what the pass by type
found. -/
def resolve (failure : Failure) : ℕ × String :=
  match mapping.lookup failure.typeName with
  | some found => found
  | none =>
      if failure.isApplicationError then (400, "invalid_request")
      else if failure.isDomainError then (500, "domain_invariant_violated")
      else (500, "internal_error")

/-- Only the engine's own errors carry a message the caller should see. -/
def messageOf (floatText : PyFloat → String) (failure : Failure) : String :=
  if failure.isApplicationError || failure.isDomainError then failure.text floatText
  else "the request could not be completed"

end Rest

structure CreateSessionBody where
  mode : String
  capabilities : CapabilityRequest
  consentPolicyVersion : String
  retainRawMedia : Bool
  rawMediaTtlSeconds : ℤ
  retainDerivedAggregates : Bool

inductive Route
  | createSession (body : CreateSessionBody)
  | readSession (sessionId : String)
  | readResult (sessionId : String)
  | deleteEvidence (sessionId : String)
  | readCapabilities

/-- A request, with the identifiers and the clock readings its handling will use. -/
structure HttpRequest where
  authorization : Option String
  traceHeader : Option String
  idempotencyKey : Option String
  route : Route
  uuid : String
  sessionId : SessionId
  epochMs : ℕ → ℤ
  wallMs : ℤ

structure RestEngine where
  mint : StreamGrant → String
  schemaVersion : SemanticVersion
  floatText : PyFloat → String

/-- What a request awaits, and what an administrator does to the keys. -/
inductive RestOp
  | authenticate (presentedSecret traceId : String)
  | port (o : Port)
  | query (o : QueryPort)
  | key (call : KeyCall)

abbrev RestOp.Answer : RestOp → Type
  | .authenticate _ _ => Option AuthenticatedCaller
  | .port o => o.Answer
  | .query o => o.Answer
  | .key _ => Unit

abbrev RestProgram (α : Type) := Program RestOp RestOp.Answer Failure α

namespace Rest

variable (engine : RestEngine) (request : HttpRequest)

/-- `get_trace_id`: the caller's trace, or a new one. -/
def traceId : String :=
  match request.traceHeader with
  | some incoming => if incoming = "" then "tr_" ++ request.uuid else incoming
  | none => "tr_" ++ request.uuid

/-- The secret of a bearer header; the scheme is compared without regard to case. -/
def presentedSecret : Option String :=
  match request.authorization with
  | none => none
  | some header =>
      if "bearer ".toList <+: (lower header).toList then
        some (String.ofList (strip (header.toList.drop "bearer ".length)))
      else none

def unauthorized (detail : String) : HttpResponse where
  status := 401
  payload := .detail detail
  headers := [("WWW-Authenticate", "Bearer")]

def schemaText : String := toString engine.schemaVersion

def renderCapabilities (capabilities : NegotiatedCapabilities) : NegotiatedCapabilitiesBody where
  schemaVersion := schemaText engine
  audioCodec := AudioCodec.enumeration.value capabilities.audioCodec
  sampleRateHz := capabilities.sampleRateHz
  locale := capabilities.locale
  videoFormat := capabilities.videoFormat.map (·.value)
  frameRateFps := capabilities.frameRateFps
  lossyAudioWarning := capabilities.audioCodec ∈ [AudioCodec.opus, .aac]

def renderCreated (created : CreatedSession) : CreatedSessionBody where
  schemaVersion := schemaText engine
  sessionId := created.session.id.value
  state := created.session.state.value
  mode := created.session.mode.value
  capabilities := renderCapabilities engine created.session.capabilities
  configurationId := created.session.configuration.value
  streamToken := created.streamToken
  streamTokenExpiresAtMs := created.streamTokenExpiresAtMs

/-- A replayed idempotency key is answered with 200: nothing was created this time. -/
def createSession (body : CreateSessionBody) (caller : AuthenticatedCaller) :
    RestProgram HttpResponse := do
  let policyVersion ← (Program.ofExcept (SemanticVersion.parse body.consentPolicyVersion) :
    RestProgram SemanticVersion)
  let mode ← (Program.ofExcept (parseMember SessionMode.enumeration body.mode) :
    RestProgram SessionMode)
  let retention ← (Program.ofExcept (RetentionPolicy.make policyVersion body.retainRawMedia
    body.rawMediaTtlSeconds body.retainDerivedAggregates) : RestProgram RetentionPolicy)
  let command : CreateSessionCommand :=
    ⟨mode, body.capabilities, policyVersion, retention, request.idempotencyKey⟩
  let created ← (CreateSession.execute engine.mint caller command request.sessionId
    request.epochMs).via RestOp.port
  return ⟨if created.wasExisting then 200 else 201, .created (renderCreated engine created), []⟩

def readSession (sessionId : String) (caller : AuthenticatedCaller) :
    RestProgram HttpResponse := do
  let sessionId ← (Program.ofExcept (SessionId.of sessionId) : RestProgram SessionId)
  let session ← (ReadSession.execute caller sessionId).via RestOp.query
  return ⟨200, .status {
    schemaVersion := schemaText engine
    sessionId := session.id.value
    state := session.state.value
    mode := session.mode.value
    locale := session.locale
    createdAtMs := session.createdAtMs
    completedAtMs := session.completedAtMs
    capturedMs := session.capturedMs request.wallMs
    consentActive := session.consent.any (·.isActive) }, []⟩

def readResult (sessionId : String) (caller : AuthenticatedCaller) : RestProgram HttpResponse := do
  let sessionId ← (Program.ofExcept (SessionId.of sessionId) : RestProgram SessionId)
  let document ← (ReadResult.execute caller sessionId).via RestOp.query
  return ⟨200, .document (renderDocument document (schemaText engine)), []⟩

def deleteEvidence (sessionId : String) (caller : AuthenticatedCaller) :
    RestProgram HttpResponse := do
  let sessionId ← (Program.ofExcept (SessionId.of sessionId) : RestProgram SessionId)
  let receipt ← (DeleteEvidence.execute caller sessionId (request.epochMs 0)).via RestOp.port
  return ⟨200, .deleted ⟨schemaText engine, receipt.sessionId.value, receipt.mediaObjectsDeleted,
    receipt.evidenceRecordsDeleted, receipt.wasAlreadyDeleted⟩, []⟩

def sortedValues {α : Type} (e : Enumeration α) : List String :=
  (e.members.map e.value).insertionSort (· ≤ ·)

/-- Authenticated but unscoped: any valid key may ask what the engine accepts. -/
def readCapabilities : HttpResponse where
  status := 200
  payload := .capabilities {
    schemaVersion := schemaText engine
    taxonomyVersion := toString taxonomyVersion
    audioCodecs := sortedValues AudioCodec.enumeration
    sampleRatesHz := supportedSampleRatesHz.insertionSort (· ≤ ·)
    videoFormats := sortedValues VideoFormat.enumeration
    frameRateRangeFps := (minFrameRateFps, maxFrameRateFps)
    locales := supportedLocales.insertionSort (· ≤ ·)
    speechEventTypes := sortedValues SpeechEventType.enumeration
    visualEventTypes := sortedValues VisualEventType.enumeration
    rankingAuthority := "none" }
  headers := []

def serveRoute (caller : AuthenticatedCaller) : RestProgram HttpResponse :=
  match request.route with
  | .createSession body => createSession engine request body caller
  | .readSession sessionId => readSession engine request sessionId caller
  | .readResult sessionId => readResult engine sessionId caller
  | .deleteEvidence sessionId => deleteEvidence engine request sessionId caller
  | .readCapabilities => return readCapabilities engine

/-- `get_caller`, and the route under the caller it finds. -/
def asCaller : RestProgram HttpResponse :=
  match presentedSecret request with
  | none => return unauthorized "missing or malformed Authorization header"
  | some secret => do
      match ← (Program.port (RestOp.authenticate secret (traceId request)) :
          RestProgram (Option AuthenticatedCaller)) with
      | none => return unauthorized "invalid credentials"
      | some caller => serveRoute engine request caller

/-- `_handle`: the response to what a request raised. -/
def handle (failure : Failure) : HttpResponse :=
  let retryAfter := failure.retryAfterSeconds.filter (· ≠ 0)
  { status := (resolve failure).1
    payload := .error {
      schemaVersion := schemaText engine
      code := (resolve failure).2
      message := messageOf engine.floatText failure
      traceId := request.traceHeader
      retryAfterSeconds := retryAfter }
    headers := retryAfter.toList.map fun seconds => ("Retry-After", toString seconds) }

/-- A request is always answered. -/
def serve : RestProgram HttpResponse :=
  (asCaller engine request).rescue fun failure => some (pure (handle engine request failure))

end Rest

end OratoriaEngine
