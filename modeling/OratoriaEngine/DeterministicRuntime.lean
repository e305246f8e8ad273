import OratoriaEngine.Lib.Stateful
import OratoriaEngine.Runtimes
import Mathlib.Data.List.Induction

/-!
# The deterministic runtimes

The runtimes replay a script. On every window the speech runtime emits its whole active
region, from the last point it declared stable up to the end of the window, and it moves
that point on. The vision runtime reports what starts within a batch of frames. Either
fails from a scripted call on.
-/

namespace OratoriaEngine

structure ScriptedWord where
  text : String
  startMs : ℤ
  endMs : ℤ
  score : PyFloat
  deriving DecidableEq

structure ScriptedSpeechEvent where
  type : SpeechEventType
  startMs : ℤ
  endMs : ℤ
  score : PyFloat
  rawText : String
  contextRole : Option ContextualRole
  deriving DecidableEq

structure SpeechScript where
  words : List ScriptedWord
  events : List ScriptedSpeechEvent
  modelVersion : ModelVersionId
  instabilityTailMs : ℤ
  failAfterWindow : Option ℤ
  deriving DecidableEq

def AudioWindow.endMs (window : AudioWindow) : ℤ := window.sessionPositionMs + window.durationMs

def ScriptedWord.hypothesis (word : ScriptedWord) : WordHypothesis :=
  ⟨word.text, word.startMs, word.endMs, word.score⟩

def ScriptedSpeechEvent.hypothesis (event : ScriptedSpeechEvent) : SpeechEventHypothesis :=
  ⟨event.type, event.startMs, event.endMs, event.score, event.rawText, event.contextRole⟩

/-- Everything up to the instability tail, or all of it on the last window. -/
def SpeechScript.stableThrough (script : SpeechScript) (window : AudioWindow) : ℤ :=
  if window.isFinalWindow then window.endMs
  else max 0 (window.endMs - script.instabilityTailMs)

/-- Two measured indicators and one that cannot be measured where nothing is scripted. -/
def SpeechScript.prosody (script : SpeechScript) (startMs endMs : ℤ) : List ProsodyHypothesis :=
  let hasSpeech := script.words.any fun word => startMs ≤ word.startMs && word.startMs < endMs
  [⟨.meanIntensityDb, startMs, endMs, some (.fin (if hasSpeech then -45 / 2 else -60)),
      .fin (9 / 10)⟩,
    ⟨.pitchMeanHz, startMs, endMs, if hasSpeech then some (.fin 132) else none,
      .fin (if hasSpeech then 4 / 5 else 0)⟩,
    ⟨.voicedRatio, startMs, endMs, some (.fin (if hasSpeech then 37 / 50 else 0)),
      .fin (19 / 20)⟩]

structure DeterministicSpeechRuntime where
  script : SpeechScript
  windowsSeen : ℤ
  stableMs : ℤ
  deriving DecidableEq

namespace DeterministicSpeechRuntime

open Stateful

def fresh (script : SpeechScript) : DeterministicSpeechRuntime := ⟨script, 0, 0⟩

/-- Everything after the stable point that starts before the window ends. -/
def active (stableMs : ℤ) (window : AudioWindow) (startMs endMs : ℤ) : Bool :=
  stableMs < endMs && startMs < window.endMs

def transcribe (window : AudioWindow) :
    Stateful DeterministicSpeechRuntime Failure SpeechResult := do
  modify fun r => { r with windowsSeen := r.windowsSeen + 1 }
  let r ← get
  if r.script.failAfterWindow.any (· < r.windowsSeen) then
    throw (.foreign "RuntimeError" "scripted speech runtime failure")
  let words := r.script.words.filter fun word =>
    active r.stableMs window word.startMs word.endMs
  let events := r.script.events.filter fun event =>
    active r.stableMs window event.startMs event.endMs
  let stableThroughMs := r.script.stableThrough window
  modify fun r => { r with stableMs := max r.stableMs stableThroughMs }
  return {
    modelVersion := r.script.modelVersion
    words := words.map ScriptedWord.hypothesis
    events := events.map ScriptedSpeechEvent.hypothesis
    prosody := r.script.prosody window.sessionPositionMs window.endMs
    stableThroughMs := stableThroughMs }

/-- The runtime after a window, transcribed or failed on. -/
def after (r : DeterministicSpeechRuntime) (window : AudioWindow) : DeterministicSpeechRuntime :=
  (exec (transcribe window) r).2

/-- What a fresh runtime answers to a window after these windows. -/
def process (script : SpeechScript) (heard : List AudioWindow) (window : AudioWindow) :
    Except Failure SpeechResult := (exec (transcribe window) (heard.foldl after (fresh script))).1

def emitted (script : SpeechScript) (stableMs : ℤ) (window : AudioWindow) : SpeechResult where
  modelVersion := script.modelVersion
  words := (script.words.filter fun word =>
    active stableMs window word.startMs word.endMs).map ScriptedWord.hypothesis
  events := (script.events.filter fun event =>
    active stableMs window event.startMs event.endMs).map ScriptedSpeechEvent.hypothesis
  prosody := script.prosody window.sessionPositionMs window.endMs
  stableThroughMs := script.stableThrough window

/-- The largest stable point reported over some windows, zero before the first. -/
def stablePoint (script : SpeechScript) (heard : List AudioWindow) : ℤ :=
  (heard.map script.stableThrough).foldl max 0

variable {script : SpeechScript}

theorem stablePoint_concat (heard : List AudioWindow) (window : AudioWindow) :
    stablePoint script (heard ++ [window]) =
      max (stablePoint script heard) (script.stableThrough window) := by
  simp [stablePoint, List.foldl_append]

theorem stablePoint_nonneg (heard : List AudioWindow) : 0 ≤ stablePoint script heard := by
  induction heard using List.reverseRecOn with
  | nil => exact le_rfl
  | append_singleton heard window ih =>
      rw [stablePoint_concat]
      exact ih.trans (le_max_left _ _)

/-- The next window is past the scripted failure. -/
def failing (r : DeterministicSpeechRuntime) : Prop :=
  r.script.failAfterWindow.any (· < r.windowsSeen + 1)

instance (r : DeterministicSpeechRuntime) : Decidable r.failing :=
  inferInstanceAs (Decidable (_ = true))

theorem exec_transcribe_of_failing {r : DeterministicSpeechRuntime} (h : r.failing)
    (window : AudioWindow) :
    exec (transcribe window) r =
      (.error (.foreign "RuntimeError" "scripted speech runtime failure"),
        { r with windowsSeen := r.windowsSeen + 1 }) := by
  unfold failing at h
  simp only [transcribe, exec_modify_bind, exec_get_bind, h, if_true]
  rfl

theorem exec_transcribe_of_not_failing {r : DeterministicSpeechRuntime} (h : ¬r.failing)
    (window : AudioWindow) :
    exec (transcribe window) r = (.ok (emitted r.script r.stableMs window), { r with
      windowsSeen := r.windowsSeen + 1
      stableMs := max r.stableMs (r.script.stableThrough window) }) := by
  unfold failing at h
  simp only [transcribe, exec_modify_bind, exec_get_bind, if_neg h]
  rfl

/-- A runtime without a scripted failure emits its active region and advances. -/
theorem exec_transcribe (hfail : script.failAfterWindow = none) (seen stableMs : ℤ)
    (window : AudioWindow) :
    exec (transcribe window) ⟨script, seen, stableMs⟩ = (.ok (emitted script stableMs window),
      ⟨script, seen + 1, max stableMs (script.stableThrough window)⟩) := by
  refine exec_transcribe_of_not_failing (fun h => ?_) window
  unfold failing at h
  rw [hfail] at h
  cases h

theorem foldl_after (hfail : script.failAfterWindow = none) (heard : List AudioWindow) :
    heard.foldl after (fresh script) = ⟨script, heard.length, stablePoint script heard⟩ := by
  induction heard using List.reverseRecOn with
  | nil => rfl
  | append_singleton heard window ih =>
      rw [List.foldl_append, ih, List.foldl_cons, List.foldl_nil, after,
        exec_transcribe hfail, stablePoint_concat, List.length_append]
      simp

/-- The answers of the runtime depend on the past through the stable point alone. -/
theorem process_eq (hfail : script.failAfterWindow = none) (heard : List AudioWindow)
    (window : AudioWindow) :
    process script heard window = .ok (emitted script (stablePoint script heard) window) := by
  rw [process, foldl_after hfail, exec_transcribe hfail]

end DeterministicSpeechRuntime

structure ScriptedVisualEvent where
  type : VisualEventType
  startMs : ℤ
  endMs : ℤ
  score : PyFloat
  direction : Option GazeDirection
  magnitude : Option PyFloat
  deriving DecidableEq

structure VisualScript where
  events : List ScriptedVisualEvent
  modelVersion : ModelVersionId
  faceVisibility : PyFloat
  meanLuminance : PyFloat
  framingCoverage : PyFloat
  landmarkConfidence : PyFloat
  failAfterBatch : Option ℤ
  deriving DecidableEq

def ScriptedVisualEvent.hypothesis (event : ScriptedVisualEvent) : VisualEventHypothesis :=
  ⟨event.type, event.startMs, event.endMs, event.score, event.direction, event.magnitude⟩

/-- What is reported of the time the frames span, if there are any. -/
def VisualScript.report (script : VisualScript) (frames : List VisualFrame) : VisualResult :=
  let positions := frames.map (·.sessionPositionMs)
  match positions.min?, positions.max? with
  | some startMs, some latestMs =>
      let endMs := latestMs + 1
      { modelVersion := script.modelVersion
        events := (script.events.filter fun event =>
          startMs ≤ event.startMs && event.startMs < endMs).map ScriptedVisualEvent.hypothesis
        quality := [⟨startMs, endMs, script.faceVisibility, script.meanLuminance,
          script.framingCoverage, script.landmarkConfidence⟩] }
  | _, _ => ⟨script.modelVersion, [], []⟩

structure DeterministicVisionRuntime where
  script : VisualScript
  batchesSeen : ℤ
  deriving DecidableEq

namespace DeterministicVisionRuntime

open Stateful

def fresh (script : VisualScript) : DeterministicVisionRuntime := ⟨script, 0⟩

def observe (frames : List VisualFrame) :
    Stateful DeterministicVisionRuntime Failure VisualResult := do
  modify fun r => { r with batchesSeen := r.batchesSeen + 1 }
  let r ← get
  if r.script.failAfterBatch.any (· < r.batchesSeen) then
    throw (.foreign "RuntimeError" "scripted vision runtime failure")
  return r.script.report frames

/-- The next batch is past the scripted failure. -/
def failing (r : DeterministicVisionRuntime) : Prop :=
  r.script.failAfterBatch.any (· < r.batchesSeen + 1)

instance (r : DeterministicVisionRuntime) : Decidable r.failing :=
  inferInstanceAs (Decidable (_ = true))

theorem exec_observe (r : DeterministicVisionRuntime) (frames : List VisualFrame) :
    exec (observe frames) r =
      (if r.failing then .error (.foreign "RuntimeError" "scripted vision runtime failure")
      else .ok (r.script.report frames), { r with batchesSeen := r.batchesSeen + 1 }) := by
  by_cases h : r.failing
  · rw [if_pos h]
    unfold failing at h
    simp only [observe, exec_modify_bind, exec_get_bind, h, if_true]
    rfl
  · rw [if_neg h]
    unfold failing at h
    simp only [observe, exec_modify_bind, exec_get_bind, if_neg h]
    rfl

end DeterministicVisionRuntime

end OratoriaEngine
