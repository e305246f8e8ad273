import OratoriaEngine.Streaming

/-!
# Ingesting audio windows and video frames

The two entry points of the coordinator. The chunk ledger advances first, then
admission, the runtime, assembly, and the publication of what was assembled;
audio ends with the reconciliation of everything up to the stable point.
-/

namespace OratoriaEngine.Coordinator

variable (c : Coordinator) (ports : StreamPorts)

/-- Enter a finalized event into the ledger. -/
def record (event : SpeechEvent) : StreamAction Unit := do
  let t ← get
  let ledger ← Stateful.ofExcept
    (if t.ledger.contains event.id then t.ledger.finalize event.id
    else t.ledger.append event.id event.interval event.provenance true
      [("type", event.type.value), ("raw_text", event.rawText)])
  modify fun t => { t with ledger := ledger }

/-- Store a finalized event under its key and record it. -/
def settle (key : String) (event : SpeechEvent) : StreamAction Unit := do
  modifyState fun s => { s with speechEvents := s.speechEvents.set key event }
  record event

/-- Promote the provisional events that end by the stable point, in order. -/
def promote (stableThroughMs : ℤ) : List (String × SpeechEvent) → StreamAction (List SpeechEvent)
  | [] => return []
  | (key, event) :: rest =>
      if event.isFinal || stableThroughMs < event.interval.stop.ms then
        promote stableThroughMs rest
      else do
        settle key event.finalize
        let others ← promote stableThroughMs rest
        return event.finalize :: others

def speechProvenance (state : StreamingState) (events : List SpeechEvent) : Option Provenance :=
  ((events ++ state.speechEvents.values).head?).map (·.provenance)

def addPauses : List SpeechEvent → StreamAction (List SpeechEvent)
  | [] => return []
  | pause :: rest => do
      let t ← get
      if t.state.speechEvents.contains pause.id.value then
        addPauses rest
      else
        settle pause.id.value pause.finalize
        let others ← addPauses rest
        return pause.finalize :: others

def derivePauses (newlyFinal : List SpeechEvent) : StreamAction (List SpeechEvent) := do
  let t ← get
  let finalTokens := t.state.transcript.finalTokens
  if finalTokens.length < 2 then
    return []
  match speechProvenance t.state newlyFinal with
  | none => return []
  | some provenance =>
      let pauses ← Stateful.ofExcept (silentPauses c.digest finalTokens
        c.configuration.silenceThresholdMs provenance t.state.runId)
      addPauses pauses

/-- Freeze everything the runtime considers settled. -/
def finalizeThrough (stableThroughMs : ℤ) : StreamAction Unit := do
  let t ← get
  if stableThroughMs ≤ t.state.transcript.finalizedFrontier.ms then
    return ()
  let boundary ← Stateful.ofExcept (MonotonicTime.of stableThroughMs)
  let transcript ← Stateful.ofExcept (t.state.transcript.finalizeThrough boundary)
  modifyState fun s => { s with transcript := transcript }
  let newlyFinal ← promote stableThroughMs t.state.speechEvents.entries
  let pauses ← derivePauses c newlyFinal
  publishTranscript ports true
  publishSpeech ports (newlyFinal ++ pauses) true

def absorbSpeech (result : SpeechResult) : StreamAction Unit := do
  let assembled ← Stateful.ofExcept (c.speechAssembler.assemble result)
  let t ← get
  let transcript ← Stateful.ofExcept (t.state.transcript.withProvisional assembled.tokens)
  modifyState fun s => { s with
    transcript := transcript
    speechEvents := s.speechEvents.setAll (assembled.events.map fun e => (e.id.value, e))
    prosody := s.prosody ++ assembled.prosody }
  publishSpeech ports assembled.events false
  finalizeThrough c ports assembled.stableThroughMs

def absorbVisual (result : VisualResult) : StreamAction Unit := do
  let assembled ← Stateful.ofExcept (c.visualAssembler.assemble result)
  modifyState fun s => { s with
    visualEvents := s.visualEvents.setAll (assembled.events.map fun e => (e.id.value, e))
    quality := s.quality.extended assembled.assessments assembled.availability }
  publishQualityWarnings ports assembled.availability

/-- The course both entry points take: the chunk ledger, admission, the runtime,
and the absorption of what the runtime returned. -/
def ingest {α : Type} (modality : Modality) (call : RuntimeCall) (answer : Except Failure α)
    (absorb : α → StreamAction Unit) (sequence : ℤ) : StreamAction ChunkVerdict := do
  let verdict ← offer modality sequence
  if verdict = .duplicate then
    return verdict
  admitWindow c ports
  let outcome ← attemptRuntime ports modality call answer
  match outcome with
  | none => return .accepted
  | some result =>
      absorb result
      return verdict

def ingestAudio (sequence : ℤ) (window : AudioWindow) : StreamAction ChunkVerdict :=
  ingest c ports .audio (.transcribe window) (ports.speech window) (absorbSpeech c ports) sequence

def ingestVideo (sequence : ℤ) (frames : List VisualFrame) : StreamAction ChunkVerdict :=
  ingest c ports .video (.observe frames) (ports.vision frames) (absorbVisual c ports) sequence

/-- The coordinator a connection builds for its run. -/
def forRun (runId : RunId) (configuration : ConfigurationSnapshot) (calibrator : Calibrator .double)
    (digest : String → String) (maxQueueDepth : ℤ) : Coordinator where
  configuration := configuration
  speechAssembler := ⟨runId, configuration, calibrator, digest⟩
  visualAssembler := ⟨runId, configuration, calibrator, digest⟩
  digest := digest
  maxQueueDepth := maxQueueDepth

inductive IngestCall
  | audio (sequence : ℤ) (window : AudioWindow)
  | video (sequence : ℤ) (frames : List VisualFrame)
  deriving DecidableEq

def IngestCall.modality : IngestCall → Modality
  | .audio _ _ => .audio
  | .video _ _ => .video

def IngestCall.sequence : IngestCall → ℤ
  | .audio sequence _ => sequence
  | .video sequence _ => sequence

/-- One call together with the ports it meets. -/
structure Request where
  ports : StreamPorts
  call : IngestCall

def serve (r : Request) : StreamAction ChunkVerdict :=
  match r.call with
  | .audio sequence window => ingestAudio c r.ports sequence window
  | .video sequence frames => ingestVideo c r.ports sequence frames

/-- The stream after one call, however the call ended. -/
def after (t : Stream) (r : Request) : Stream := (Stateful.exec (serve c r) t).2

/-- The stream after any number of calls, each awaited before the next. -/
def runCalls (t : Stream) (requests : List Request) : Stream := requests.foldl (after c) t

@[simp] theorem runCalls_nil (t : Stream) : c.runCalls t [] = t := rfl

@[simp] theorem runCalls_cons (t : Stream) (r : Request) (rs : List Request) :
    c.runCalls t (r :: rs) = c.runCalls (c.after t r) rs := rfl

theorem runCalls_append (t : Stream) (rs rs' : List Request) :
    c.runCalls t (rs ++ rs') = c.runCalls (c.runCalls t rs) rs' := List.foldl_append

/-- Every call of the run meets `P` in the state it is made in. -/
def EveryCall (P : Stream → Request → Prop) : Stream → List Request → Prop
  | _, [] => True
  | t, r :: rs => P t r ∧ EveryCall P (c.after t r) rs

theorem everyCall_append {P : Stream → Request → Prop} {t : Stream} {rs rs' : List Request} :
    c.EveryCall P t (rs ++ rs') ↔ c.EveryCall P t rs ∧ c.EveryCall P (c.runCalls t rs) rs' := by
  induction rs generalizing t with
  | nil => simp [EveryCall]
  | cons r rs ih => simp only [List.cons_append, EveryCall, ih, runCalls_cons, and_assoc]

theorem runCalls_induction {P : Stream → Request → Prop} {I : Stream → Prop}
    (hstep : ∀ t r, I t → P t r → I (c.after t r)) {t : Stream} {rs : List Request} (ht : I t)
    (hrs : c.EveryCall P t rs) : I (c.runCalls t rs) := by
  induction rs generalizing t with
  | nil => exact ht
  | cons r rs ih => exact ih (hstep t r ht hrs.1) hrs.2

def sampleRunId : RunId := ⟨⟨"run-1", by decide⟩⟩

def sampleSessionId : SessionId := ⟨⟨"sample-session", by decide⟩⟩

def sampleModel : ModelVersionId := ⟨⟨"model-1", by decide⟩⟩

def sample (digest : String → String) : Coordinator :=
  forRun sampleRunId defaultConfiguration .unfitted digest defaultMaxQueueDepth

def sampleStream : Stream := .fresh sampleRunId sampleSessionId

def sampleWindow : AudioWindow := ⟨0, 1000, 16000, [], false⟩

def nothingHeard (stableThroughMs : ℤ) : SpeechResult := ⟨sampleModel, [], [], [], stableThroughMs⟩

/-- An audio call answered by the given outcome of the speech runtime. -/
def hearing (sequence : ℤ) (answer : Except Failure SpeechResult) : Request where
  ports := ⟨fun _ => answer, fun _ => .ok ⟨sampleModel, [], []⟩, .reliable⟩
  call := .audio sequence sampleWindow

end OratoriaEngine.Coordinator
