import OratoriaEngine.Measurement
import OratoriaEngine.Taxonomy
import OratoriaEngine.Timeline

/-!
# Speech events and prosodic readings

A speech event comes from audio, and carries its word and the role of that word
exactly when its class is decided from a recognized word. Both rules are fields
of the structure; the constructor reports which of them a candidate breaks.
-/

namespace OratoriaEngine

structure SpeechEvent where
  id : EventId
  type : SpeechEventType
  interval : Interval
  confidence : Confidence
  provenance : Provenance
  rawText : String
  contextRole : Option ContextualRole
  isFinal : Bool
  heard : provenance.modality = .audio
  worded : type.lexical = true → isBlank rawText = false ∧ contextRole ≠ none
  roleless : type.lexical = false → contextRole = none
  deriving DecidableEq

namespace SpeechEvent

/-- The constructor's checks, in the order the constructor makes them. -/
def of (id : EventId) (type : SpeechEventType) (interval : Interval) (confidence : Confidence)
    (provenance : Provenance) (rawText : String) (contextRole : Option ContextualRole) :
    Except Failure SpeechEvent :=
  if ha : provenance.modality = .audio then
    if hl : type.lexical = true then
      if ht : isBlank rawText = false then
        if hc : contextRole ≠ none then
          .ok ⟨id, type, interval, confidence, provenance, rawText, contextRole, false, ha,
            fun _ => ⟨ht, hc⟩, fun h => by rw [hl] at h; cases h⟩
        else .error (.speechEventViolation
          (s!"'{type.value}' requires a contextual role (FR-013); " ++
            "use 'uncertain' when the context does not decide it"))
      else .error (.speechEventViolation
        (s!"'{type.value}' is decided from a recognized word, so raw_text is " ++
          "required; FR-017 keeps the raw expression regardless of its role"))
    else if hc : contextRole = none then
      .ok ⟨id, type, interval, confidence, provenance, rawText, contextRole, false, ha,
        fun h => absurd h hl, fun _ => hc⟩
    else .error (.speechEventViolation
      (s!"'{type.value}' is decided from {type.basis.value} evidence and has no lexical role to " ++
        "assign; setting one would assert a distinction the detector never made"))
  else .error (.speechEventViolation
    (s!"speech event {id.value} claims modality " ++
      s!"'{provenance.modality.value}'; speech evidence comes from audio"))

variable {id : EventId} {type : SpeechEventType} {interval : Interval} {confidence : Confidence}
  {provenance : Provenance} {rawText : String} {contextRole : Option ContextualRole}

theorem of_eq_ok {e : SpeechEvent}
    (h : of id type interval confidence provenance rawText contextRole = .ok e) :
    e.id = id ∧ e.type = type ∧ e.interval = interval ∧ e.confidence = confidence ∧
      e.provenance = provenance ∧ e.rawText = rawText ∧ e.contextRole = contextRole ∧
      e.isFinal = false := by
  unfold of at h
  split_ifs at h <;> cases h <;> exact ⟨rfl, rfl, rfl, rfl, rfl, rfl, rfl, rfl⟩

/-- A class that is not decided from a word needs nothing but an audio provenance. -/
theorem of_isOk (ha : provenance.modality = .audio) (hl : type.lexical = false) :
    ∃ e, of id type interval confidence provenance rawText none = .ok e := by
  simp [of, ha, hl]

def finalize (e : SpeechEvent) : SpeechEvent := if e.isFinal then e else { e with isFinal := true }

variable (e : SpeechEvent)

@[simp] theorem finalize_isFinal : e.finalize.isFinal = true := by
  unfold finalize
  split_ifs with h
  · exact h
  · rfl

@[simp] theorem finalize_id : e.finalize.id = e.id := by
  unfold finalize
  split_ifs <;> rfl

@[simp] theorem finalize_type : e.finalize.type = e.type := by
  unfold finalize
  split_ifs <;> rfl

@[simp] theorem finalize_interval : e.finalize.interval = e.interval := by
  unfold finalize
  split_ifs <;> rfl

end SpeechEvent

/-- The unit each indicator is reported in. -/
def ProsodicIndicator.unit : ProsodicIndicator → String
  | .meanIntensityDb => "dBFS"
  | .pitchMeanHz => "Hz"
  | .pitchStability => "ratio"
  | .speakingRateWpm => "wpm"
  | .articulationRateSps => "syllables_per_second"
  | .meanPauseDurationMs => "ms"
  | .voicedRatio => "ratio"

structure ProsodyReading where
  indicator : ProsodicIndicator
  window : Interval
  value : Indicator
  provenance : Provenance
  inUnit : ∀ m, value = .measured m → m.unit = indicator.unit

namespace ProsodyReading

def measured (indicator : ProsodicIndicator) (window : Interval) (value : PyFloat)
    (confidence : Confidence) (provenance : Provenance) : ProsodyReading where
  indicator := indicator
  window := window
  value := .measured ⟨value, confidence, indicator.unit⟩
  provenance := provenance
  inUnit := by
    intro m hm
    cases hm
    rfl

def unavailable (indicator : ProsodicIndicator) (window : Interval) (u : Unavailable)
    (provenance : Provenance) : ProsodyReading where
  indicator := indicator
  window := window
  value := .unavailable u
  provenance := provenance
  inUnit := by
    intro m hm
    cases hm

end ProsodyReading

end OratoriaEngine
