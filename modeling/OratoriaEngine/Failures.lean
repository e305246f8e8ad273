import OratoriaEngine.Floats

/-!
# Failures

One constructor for each exception class the engine raises, with the text of the
exception and the attributes callers read. What a runtime, a channel or a broken
port raises is foreign: the engine only ever looks at the name of its type.
-/

namespace OratoriaEngine

inductive Failure
  | invalidIdentifier (message : String)
  | invalidInterval (message : String)
  /-- `confidence must lie in [0, 1], got …` -/
  | invalidConfidence (got : PyFloat)
  | illegalSessionTransition (message : String)
  | evidenceLedgerViolation (message : String)
  | consentViolation (message : String)
  | unsupportedCapability (message : String)
  | transcriptViolation (message : String)
  | speechEventViolation (message : String)
  /-- The gate on optional classes ends its text with the confidence it got. -/
  | visualEventViolation (message : String) (got : Option PyFloat)
  | prosodyViolation (message : String)
  | qualityViolation (message : String)
  | fusionViolation (message : String)
  | resultViolation (message : String)
  | notAuthorized (message : String)
  | sessionNotFound (message : String)
  | resultNotReady (message : String)
  | quotaExceeded (message : String) (retryAfterSeconds : ℤ)
  | sessionBusy (message : String)
  | backpressureRequired (message : String) (queueDepth : ℤ)
  | configurationError (message : String)
  | protocolError (message : String)
  | valueError (message : String)
  | foreign (typeName : String) (message : String)
  deriving DecidableEq, Repr

def Failure.typeName : Failure → String
  | .invalidIdentifier _ => "InvalidIdentifier"
  | .invalidInterval _ => "InvalidInterval"
  | .invalidConfidence _ => "InvalidConfidence"
  | .illegalSessionTransition _ => "IllegalSessionTransition"
  | .evidenceLedgerViolation _ => "EvidenceLedgerViolation"
  | .consentViolation _ => "ConsentViolation"
  | .unsupportedCapability _ => "UnsupportedCapability"
  | .transcriptViolation _ => "TranscriptViolation"
  | .speechEventViolation _ => "SpeechEventViolation"
  | .visualEventViolation _ _ => "VisualEventViolation"
  | .prosodyViolation _ => "ProsodyViolation"
  | .qualityViolation _ => "QualityViolation"
  | .fusionViolation _ => "FusionViolation"
  | .resultViolation _ => "ResultViolation"
  | .notAuthorized _ => "NotAuthorized"
  | .sessionNotFound _ => "SessionNotFound"
  | .resultNotReady _ => "ResultNotReady"
  | .quotaExceeded _ _ => "QuotaExceeded"
  | .sessionBusy _ => "SessionBusy"
  | .backpressureRequired _ _ => "BackpressureRequired"
  | .configurationError _ => "ConfigurationError"
  | .protocolError _ => "ProtocolError"
  | .valueError _ => "ValueError"
  | .foreign typeName _ => typeName

end OratoriaEngine
