import OratoriaEngine.Identifiers

/-!
# Stable event identifiers

The identifier of an event is derived from its run, class, position bucket and
discriminator, so a detector arrives at the same one each time it sees the same
evidence. `digest` stands for the first 32 hexadecimal digits of the SHA-256 of
its argument; every result below holds whatever it is.
-/

namespace OratoriaEngine

def positionBucketMs : ℤ := 100

/-- Positions are bucketed, rounding towards minus infinity. -/
def bucket (startMs : ℤ) : ℤ := Int.fdiv startMs positionBucketMs

def eventMaterial (runId : RunId) (eventType : String) (startMs : ℤ) (discriminator : String) :
    String :=
  s!"{runId.value}|{eventType}|{bucket startMs}|{discriminator}"

def deriveEventId (digest : String → String) (runId : RunId) (eventType : String) (startMs : ℤ)
    (discriminator : String) : EventId :=
  ⟨⟨"ev_" ++ digest (eventMaterial runId eventType startMs discriminator),
    isBlank_append_of_head (by decide) _⟩⟩

def deriveTokenId (digest : String → String) (runId : RunId) (startMs : ℤ) (rawText : String) :
    TokenId :=
  ⟨⟨"tok_" ++ digest s!"{runId.value}|{bucket startMs}|{rawText}",
    isBlank_append_of_head (by decide) _⟩⟩

end OratoriaEngine
