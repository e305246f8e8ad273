import OratoriaEngine.Failures
import Mathlib.Tactic.SplitIfs

/-!
# Capability negotiation

A request that cannot be processed is refused before anything is created.
-/

namespace OratoriaEngine

inductive AudioCodec
  | pcm16
  | flac
  | opus
  | aac
  deriving DecidableEq, Repr

def AudioCodec.ofValue? : String → Option AudioCodec
  | "pcm16" => some .pcm16
  | "flac" => some .flac
  | "opus" => some .opus
  | "aac" => some .aac
  | _ => none

inductive VideoFormat
  | jpegFrames
  | pngFrames
  | landmarks
  deriving DecidableEq, Repr

def VideoFormat.value : VideoFormat → String
  | .jpegFrames => "jpeg_frames"
  | .pngFrames => "png_frames"
  | .landmarks => "landmarks"

def VideoFormat.ofValue? : String → Option VideoFormat
  | "jpeg_frames" => some .jpegFrames
  | "png_frames" => some .pngFrames
  | "landmarks" => some .landmarks
  | _ => none

structure CapabilityRequest where
  audioCodec : String
  sampleRateHz : ℤ
  locale : String
  videoFormat : Option String
  frameRateFps : Option ℤ
  deriving DecidableEq

structure NegotiatedCapabilities where
  audioCodec : AudioCodec
  sampleRateHz : ℤ
  locale : String
  videoFormat : Option VideoFormat
  frameRateFps : Option ℤ
  deriving DecidableEq

def supportedSampleRatesHz : List ℤ := [16000, 22050, 24000, 44100, 48000]

def minFrameRateFps : ℤ := 5

def maxFrameRateFps : ℤ := 60

def supportedLocales : List String := ["es-PE"]

def resolveCodec (requested : String) : Except Failure AudioCodec :=
  match AudioCodec.ofValue? requested with
  | some codec => .ok codec
  | none => .error (.unsupportedCapability
      (s!"audio codec '{requested}' is not supported; " ++
        "accepted: ['aac', 'flac', 'opus', 'pcm16']"))

/-- The visual channel is optional; when present it needs a rate within bounds. -/
def resolveVideo (request : CapabilityRequest) :
    Except Failure (Option VideoFormat × Option ℤ) :=
  match request.videoFormat with
  | none =>
      if request.frameRateFps = none then .ok (none, none)
      else .error (.unsupportedCapability "a frame rate was requested without a video format")
  | some requested =>
      match VideoFormat.ofValue? requested with
      | none => .error (.unsupportedCapability
          (s!"video format '{requested}' is not supported; " ++
            "accepted: ['jpeg_frames', 'landmarks', 'png_frames']"))
      | some videoFormat =>
          match request.frameRateFps with
          | none => .error (.unsupportedCapability
              (s!"video format '{videoFormat.value}' requires a frame rate: " ++
                "the periodicity indicators of FR-021 cannot be estimated without one"))
          | some frameRate =>
              if minFrameRateFps ≤ frameRate ∧ frameRate ≤ maxFrameRateFps then
                .ok (some videoFormat, some frameRate)
              else .error (.unsupportedCapability
                (s!"frame rate {frameRate} fps is outside the supported range " ++
                  s!"[{minFrameRateFps}, {maxFrameRateFps}]"))

def negotiate (request : CapabilityRequest) : Except Failure NegotiatedCapabilities := do
  let codec ← resolveCodec request.audioCodec
  if request.sampleRateHz ∉ supportedSampleRatesHz then
    throw (.unsupportedCapability
      (s!"sample rate {request.sampleRateHz} Hz is not supported; " ++
        "accepted: [16000, 22050, 24000, 44100, 48000]"))
  if request.locale ∉ supportedLocales then
    throw (.unsupportedCapability
      (s!"locale '{request.locale}' has no validated corpus; " ++ "accepted: ['es-PE']"))
  let video ← resolveVideo request
  return ⟨codec, request.sampleRateHz, request.locale, video.1, video.2⟩

end OratoriaEngine
