import OratoriaEngine.IngestFrames
import OratoriaEngine.Lib.Coroutine

/-!
# Concurrent ingest calls

The entry points of the coordinator as coroutines: any number of calls share one stream, and
a call gives way only while one of its runtime or channel calls is pending. A call run alone
is the call of the sequential model. However the calls are interleaved, answered or
cancelled, the windows in flight are the calls that hold a slot, and never exceed the depth
of the queue.
-/

namespace OratoriaEngine.Coordinator.Concurrent

open Coroutine Allotment

/-- What a call awaits: one of the two runtimes, or the channel. -/
inductive PortCall
  | transcribe (window : AudioWindow)
  | observe (frames : List VisualFrame)
  | publish (event : OutboundEvent)
  | requestBackpressure (sessionId : SessionId) (depth : ℤ)

abbrev PortCall.Answer : PortCall → Type
  | .transcribe _ => SpeechResult
  | .observe _ => VisualResult
  | .publish _ => Unit
  | .requestBackpressure _ _ => Unit

/-- A cancelled task raises what `except Exception` does not catch. -/
inductive Raised
  | exception (failure : Failure)
  | cancelled

abbrev IngestTask := Coroutine PortCall PortCall.Answer Stream Raised

variable (c : Coordinator)

def publish (event : OutboundEvent) : IngestTask Unit := do
  call (PortCall.publish event)
  update fun t => { t with published := t.published ++ [event] }

def publishTranscript (isFinal : Bool) : IngestTask Unit := do
  let t ← look
  let tokens := if isFinal then t.state.transcript.finalTokens
    else t.state.transcript.provisionalTokens
  match tokens.getLast? with
  | none => return ()
  | some last => publish {
      type := if isFinal then .transcriptFinal else .transcriptPartial
      sessionId := t.state.sessionId
      monotonicTimeMs := last.interval.stop.ms
      payload := .tokens (tokens.map tokenPayload) }

def publishSpeech (events : List SpeechEvent) (isFinal : Bool) : IngestTask Unit := do
  let t ← look
  match (events.map (·.interval.stop.ms)).max? with
  | none => return ()
  | some latest => publish {
      type := if isFinal then .speechEventFinal else .speechEventPartial
      sessionId := t.state.sessionId
      monotonicTimeMs := latest
      payload := .events (events.map speechPayload) }

def publishQualityWarnings (availability : List ModalityAvailability) : IngestTask Unit := do
  let unusable := availability.filter fun record => !record.isUsable
  if unusable.isEmpty then
    return ()
  let t ← look
  publish {
    type := .qualityWarning
    sessionId := t.state.sessionId
    monotonicTimeMs := t.state.transcript.finalizedFrontier.ms
    payload := .windows (unusable.map windowPayload) }

/-- Refuse work once the bounded queue is full; the depth reported is the one found after the
client was told. -/
def admitWindow : IngestTask Unit := do
  let t ← look
  if t.state.inFlight < c.maxQueueDepth then
    return ()
  call (PortCall.requestBackpressure t.state.sessionId t.state.inFlight)
  update fun u =>
    { u with backpressure := u.backpressure ++ [(t.state.sessionId, t.state.inFlight)] }
  let u ← look
  raise (.exception (.backpressureRequired
    s!"{u.state.inFlight} windows already in flight; slow down" u.state.inFlight))

/-- Mark a modality down; the client is told the first time only. -/
def degrade (modality : Modality) (failure : Failure) : IngestTask Unit := do
  let t ← look
  update (withDegraded · modality)
  if modality ∈ t.state.degradedModalities then
    return ()
  publish (degradationEvent t modality failure)

/-- Await a runtime with one more window in flight. Its exception degrades the modality, its
cancellation is passed on, and the window leaves the queue in either case. -/
def attemptRuntime {α : Type} (modality : Modality) (ask : IngestTask α) :
    IngestTask (Option α) := do
  update fun t => { t with state := { t.state with inFlight := t.state.inFlight + 1 } }
  finallyDo (ask.andThen fun answer =>
    match answer with
    | .ok result => return some result
    | .error (.exception failure) => do
        degrade modality failure
        return none
    | .error .cancelled => raise .cancelled)
    fun t => { t with state := { t.state with inFlight := t.state.inFlight - 1 } }

def transcribe (window : AudioWindow) : IngestTask SpeechResult := do
  update fun t => { t with runtimeCalls := t.runtimeCalls ++ [.transcribe window] }
  call (PortCall.transcribe window)

def observe (frames : List VisualFrame) : IngestTask VisualResult := do
  update fun t => { t with runtimeCalls := t.runtimeCalls ++ [.observe frames] }
  call (PortCall.observe frames)

/-- Freeze everything the runtime considers settled; the evidence is promoted and recorded
before the first message is sent. -/
def finalizeThrough (stableThroughMs : ℤ) : IngestTask Unit := do
  let t ← look
  if stableThroughMs ≤ t.state.transcript.finalizedFrontier.ms then
    return ()
  let boundary ← act .exception (Stateful.ofExcept (MonotonicTime.of stableThroughMs))
  let transcript ← act .exception (Stateful.ofExcept (t.state.transcript.finalizeThrough boundary))
  update fun t => { t with state := { t.state with transcript := transcript } }
  let newlyFinal ← act .exception (promote stableThroughMs t.state.speechEvents.entries)
  let pauses ← act .exception (derivePauses c newlyFinal)
  publishTranscript true
  publishSpeech (newlyFinal ++ pauses) true

def absorbSpeech (result : SpeechResult) : IngestTask Unit := do
  let assembled ← act .exception (Stateful.ofExcept (c.speechAssembler.assemble result))
  let t ← look
  let transcript ← act .exception
    (Stateful.ofExcept (t.state.transcript.withProvisional assembled.tokens))
  update fun t => { t with state := { t.state with
    transcript := transcript
    speechEvents := t.state.speechEvents.setAll (assembled.events.map fun e => (e.id.value, e))
    prosody := t.state.prosody ++ assembled.prosody } }
  publishSpeech assembled.events false
  finalizeThrough c assembled.stableThroughMs

def absorbVisual (result : VisualResult) : IngestTask Unit := do
  let assembled ← act .exception (Stateful.ofExcept (c.visualAssembler.assemble result))
  update fun t => { t with state := { t.state with
    visualEvents := t.state.visualEvents.setAll (assembled.events.map fun e => (e.id.value, e))
    quality := t.state.quality.extended assembled.assessments assembled.availability } }
  publishQualityWarnings assembled.availability

def ingest {α : Type} (modality : Modality) (ask : IngestTask α) (absorb : α → IngestTask Unit)
    (sequence : ℤ) : IngestTask ChunkVerdict := do
  let verdict ← act .exception (offer modality sequence)
  if verdict = .duplicate then
    return verdict
  admitWindow c
  let outcome ← attemptRuntime modality ask
  match outcome with
  | none => return .accepted
  | some result =>
      absorb result
      return verdict

def ingestAudio (sequence : ℤ) (window : AudioWindow) : IngestTask ChunkVerdict :=
  ingest c .audio (transcribe window) (absorbSpeech c) sequence

def ingestVideo (sequence : ℤ) (frames : List VisualFrame) : IngestTask ChunkVerdict :=
  ingest c .video (observe frames) (absorbVisual c) sequence

def serve : IngestCall → IngestTask ChunkVerdict
  | .audio sequence window => ingestAudio c sequence window
  | .video sequence frames => ingestVideo c sequence frames

/-- The answers of the ports of the sequential model. -/
def answers (ports : StreamPorts) : (o : PortCall) → Stream → Except Raised o.Answer
  | .transcribe window, _ => (ports.speech window).mapError .exception
  | .observe frames, _ => (ports.vision frames).mapError .exception
  | .publish event, t =>
      match ports.channel.publish t.published event with
      | none => .ok ()
      | some failure => .error (.exception failure)
  | .requestBackpressure sessionId depth, _ =>
      match ports.channel.requestBackpressure sessionId depth with
      | none => .ok ()
      | some failure => .error (.exception failure)

section Alone

variable {ports : StreamPorts}

theorem mirrors_publish (event : OutboundEvent) :
    Mirrors (answers ports) .exception (publish event) (Coordinator.publish ports event) := by
  intro t
  rw [exec_publish]
  change (Coroutine.bind _ _).runAlone _ t = _
  cases h : ports.channel.publish t.published event <;>
    simp [Coroutine.bind, call, andThen, runAlone, answers, h, update, Except.mapError]

theorem mirrors_publishSpeech (events : List SpeechEvent) (isFinal : Bool) :
    Mirrors (answers ports) .exception (publishSpeech events isFinal)
      (Coordinator.publishSpeech ports events isFinal) := by
  apply mirrors_look_bind
  intro t
  cases (events.map (·.interval.stop.ms)).max? with
  | none => exact mirrors_pure _
  | some latest => exact mirrors_publish _

theorem mirrors_publishTranscript (isFinal : Bool) :
    Mirrors (answers ports) .exception (publishTranscript isFinal)
      (Coordinator.publishTranscript ports isFinal) := by
  apply mirrors_look_bind
  intro t
  dsimp only
  generalize (if isFinal then t.state.transcript.finalTokens
    else t.state.transcript.provisionalTokens) = tokens
  cases tokens.getLast? with
  | none => exact mirrors_pure _
  | some last => exact mirrors_publish _

theorem mirrors_publishQualityWarnings (availability : List ModalityAvailability) :
    Mirrors (answers ports) .exception (publishQualityWarnings availability)
      (Coordinator.publishQualityWarnings ports availability) := by
  unfold publishQualityWarnings Coordinator.publishQualityWarnings
  dsimp only
  split_ifs
  · exact mirrors_pure _
  · exact mirrors_look_bind fun t => mirrors_publish _

theorem mirrors_admitWindow :
    Mirrors (answers ports) .exception (admitWindow c) (Coordinator.admitWindow c ports) := by
  intro t
  simp only [admitWindow, Coordinator.admitWindow, runAlone_look_bind, Stateful.exec_get_bind]
  split_ifs
  · rfl
  · cases h : ports.channel.requestBackpressure t.state.sessionId t.state.inFlight <;>
      simp [runAlone_bind, call, runAlone, answers, h, Stateful.exec_bind, Except.mapError]

theorem mirrors_degrade (modality : Modality) (failure : Failure) :
    Mirrors (answers ports) .exception (degrade modality failure)
      (Coordinator.degrade ports modality failure) := by
  intro t
  rw [exec_degrade_eq]
  simp only [degrade, runAlone_look_bind, runAlone_update_bind]
  split_ifs
  · rfl
  · exact mirrors_publish _ _

theorem mirrors_attemptRuntime {α : Type} {ask : IngestTask α} {runtimeCall : RuntimeCall}
    {answer : Except Failure α} (modality : Modality)
    (hask : ∀ t, ask.runAlone (answers ports) t =
      (answer.mapError .exception, { t with runtimeCalls := t.runtimeCalls ++ [runtimeCall] })) :
    Mirrors (answers ports) .exception (attemptRuntime modality ask)
      (Coordinator.attemptRuntime ports modality runtimeCall answer) := by
  apply mirrors_bind (mirrors_update _)
  intro _
  apply mirrors_finallyDo
  intro t
  rw [runAlone_andThen, hask]
  cases answer with
  | ok result => rfl
  | error failure =>
      exact mirrors_bind (mirrors_degrade modality failure) (fun _ => mirrors_pure _) _

theorem mirrors_finalizeThrough (stableThroughMs : ℤ) :
    Mirrors (answers ports) .exception (finalizeThrough c stableThroughMs)
      (Coordinator.finalizeThrough c ports stableThroughMs) := by
  apply mirrors_look_bind
  intro t
  split_ifs
  · exact mirrors_pure _
  · exact mirrors_bind (mirrors_act _) fun _ => mirrors_bind (mirrors_act _) fun _ =>
      mirrors_bind (mirrors_update _) fun _ => mirrors_bind (mirrors_act _) fun _ =>
        mirrors_bind (mirrors_act _) fun _ =>
          mirrors_bind (mirrors_publishTranscript true) fun _ => mirrors_publishSpeech _ true

theorem mirrors_absorbSpeech (result : SpeechResult) :
    Mirrors (answers ports) .exception (absorbSpeech c result)
      (Coordinator.absorbSpeech c ports result) :=
  mirrors_bind (mirrors_act _) fun _ => mirrors_look_bind fun _ =>
    mirrors_bind (mirrors_act _) fun _ => mirrors_bind (mirrors_update _) fun _ =>
      mirrors_bind (mirrors_publishSpeech _ false) fun _ => mirrors_finalizeThrough c _

theorem mirrors_absorbVisual (result : VisualResult) :
    Mirrors (answers ports) .exception (absorbVisual c result)
      (Coordinator.absorbVisual c ports result) :=
  mirrors_bind (mirrors_act _) fun assembled => mirrors_bind (mirrors_update _) fun _ =>
    mirrors_publishQualityWarnings assembled.availability

theorem mirrors_ingest {α : Type} {ask : IngestTask α} {runtimeCall : RuntimeCall}
    {answer : Except Failure α} {absorb : α → IngestTask Unit} {absorb' : α → StreamAction Unit}
    (modality : Modality)
    (hask : ∀ t, ask.runAlone (answers ports) t =
      (answer.mapError .exception, { t with runtimeCalls := t.runtimeCalls ++ [runtimeCall] }))
    (habsorb : ∀ result, Mirrors (answers ports) .exception (absorb result) (absorb' result))
    (sequence : ℤ) :
    Mirrors (answers ports) .exception (ingest c modality ask absorb sequence)
      (Coordinator.ingest c ports modality runtimeCall answer absorb' sequence) := by
  apply mirrors_bind (mirrors_act _)
  intro verdict
  split_ifs
  · exact mirrors_pure _
  · apply mirrors_bind (mirrors_admitWindow c)
    intro _
    apply mirrors_bind (mirrors_attemptRuntime modality hask)
    intro outcome
    cases outcome with
    | none => exact mirrors_pure _
    | some result => exact mirrors_bind (habsorb result) fun _ => mirrors_pure _

/-- A call that nothing else runs beside is the call of the sequential model. -/
theorem mirrors_serve (r : Request) :
    Mirrors (answers r.ports) .exception (serve c r.call) (Coordinator.serve c r) := by
  obtain ⟨ports, call⟩ := r
  cases call with
  | audio sequence window =>
      exact mirrors_ingest c .audio (fun t => rfl) (mirrors_absorbSpeech c) sequence
  | video sequence frames =>
      exact mirrors_ingest c .video (fun t => rfl) (mirrors_absorbVisual c) sequence

end Alone

/-- What is awaited inside the `try` statement, before the `finally` block frees the slot: a
runtime, and the notice of a degradation. -/
def holdsSlot : PortCall → Bool
  | .transcribe _ => true
  | .observe _ => true
  | .publish event => event.type = .processingDegraded
  | .requestBackpressure _ _ => false

def slots : Allotment PortCall Stream where
  share o := (holdsSlot o).toNat
  fits n t := t.state.inFlight = n ∧ t.state.inFlight ≤ c.maxQueueDepth

section Slots

variable {c} {n : ℕ}

theorem takes_update_of_inFlight {f : Stream → Stream}
    (h : ∀ t, (f t).state.inFlight = t.state.inFlight) :
    (slots c).Takes n (update f : IngestTask Unit) n := by
  apply takes_update
  intro k t ht
  simp only [slots, h]
  exact ht

theorem takes_act_of_keeps {α : Type} {m : StreamAction α}
    (h : Stateful.Keeps (fun t : Stream => t.state.inFlight) m) :
    (slots c).Takes n (act .exception m : IngestTask α) n := by
  apply takes_act
  intro k t ht
  have heq : (m.exec t).2.state.inFlight = t.state.inFlight := h t
  simp only [slots, heq]
  exact ht

theorem blindToSpeech_inFlight : BlindToSpeech fun t : Stream => t.state.inFlight :=
  ⟨fun _ _ => rfl, fun _ _ => rfl, fun _ _ _ _ => rfl⟩

theorem takes_publish {event : OutboundEvent}
    (h : (slots c).share (.publish event) = n) : (slots c).Takes n (publish event) n := by
  subst h
  exact takes_bind (takes_call _) fun _ => takes_update_of_inFlight fun _ => rfl

theorem takes_publishSpeech (events : List SpeechEvent) (isFinal : Bool) :
    (slots c).Takes 0 (publishSpeech events isFinal) 0 := by
  apply takes_look_bind
  intro t
  cases (events.map (·.interval.stop.ms)).max? with
  | none => exact takes_pure _
  | some latest =>
      apply takes_publish
      cases isFinal <;> rfl

theorem takes_publishTranscript (isFinal : Bool) :
    (slots c).Takes 0 (publishTranscript isFinal) 0 := by
  apply takes_look_bind
  intro t
  dsimp only
  generalize (if isFinal then t.state.transcript.finalTokens
    else t.state.transcript.provisionalTokens) = tokens
  cases tokens.getLast? with
  | none => exact takes_pure _
  | some last =>
      apply takes_publish
      cases isFinal <;> rfl

theorem takes_publishQualityWarnings (availability : List ModalityAvailability) :
    (slots c).Takes 0 (publishQualityWarnings availability) 0 := by
  unfold publishQualityWarnings
  dsimp only
  split_ifs
  · exact takes_pure _
  · exact takes_look_bind fun t => takes_publish rfl

theorem takes_finalizeThrough (stableThroughMs : ℤ) :
    (slots c).Takes 0 (finalizeThrough c stableThroughMs) 0 := by
  apply takes_look_bind
  intro t
  split_ifs
  · exact takes_pure _
  · exact takes_bind (takes_act_of_keeps (Stateful.keeps_ofExcept _)) fun _ =>
      takes_bind (takes_act_of_keeps (Stateful.keeps_ofExcept _)) fun _ =>
        takes_bind (takes_update_of_inFlight fun _ => rfl) fun _ =>
          takes_bind (takes_act_of_keeps (blindToSpeech_inFlight.keeps_promote _ _)) fun _ =>
            takes_bind (takes_act_of_keeps (blindToSpeech_inFlight.keeps_derivePauses c _))
              fun _ => takes_bind (takes_publishTranscript true) fun _ =>
                takes_publishSpeech _ true

theorem takes_absorbSpeech (result : SpeechResult) :
    (slots c).Takes 0 (absorbSpeech c result) 0 :=
  takes_bind (takes_act_of_keeps (Stateful.keeps_ofExcept _)) fun _ => takes_look_bind fun _ =>
    takes_bind (takes_act_of_keeps (Stateful.keeps_ofExcept _)) fun _ =>
      takes_bind (takes_update_of_inFlight fun _ => rfl) fun _ =>
        takes_bind (takes_publishSpeech _ false) fun _ => takes_finalizeThrough _

theorem takes_absorbVisual (result : VisualResult) :
    (slots c).Takes 0 (absorbVisual c result) 0 :=
  takes_bind (takes_act_of_keeps (Stateful.keeps_ofExcept _)) fun _ =>
    takes_bind (takes_update_of_inFlight fun _ => rfl) fun _ => takes_publishQualityWarnings _

/-- The notice of a degradation is published while the window is still in flight. -/
theorem takes_degrade (modality : Modality) (failure : Failure) :
    (slots c).Takes 1 (degrade modality failure) 1 := by
  apply takes_look_bind
  intro t
  refine takes_bind (takes_update_of_inFlight fun u => rfl) fun _ => ?_
  split_ifs
  · exact takes_pure _
  · exact takes_publish rfl

theorem takes_transcribe (window : AudioWindow) : (slots c).Takes 1 (transcribe window) 1 :=
  takes_bind (takes_update_of_inFlight fun _ => rfl) fun _ =>
    takes_call (PortCall.transcribe window)

theorem takes_observe (frames : List VisualFrame) : (slots c).Takes 1 (observe frames) 1 :=
  takes_bind (takes_update_of_inFlight fun _ => rfl) fun _ => takes_call (PortCall.observe frames)

/-- A window that is let in found room for itself; one that is refused holds nothing. -/
theorem accounts_admitWindow {k : ℕ} {t : Stream} (ht : (slots c).fits k t) :
    (slots c).Accounts (fun k u r => (slots c).fits k u ∧ (r = .ok () → HasRoom c u)) k
      (admitWindow c) t := by
  change (slots c).Accounts _ k (ite _ _ _) t
  split_ifs with hroom
  · exact ⟨ht, fun _ => hroom⟩
  · refine ⟨ht, ?_⟩
    intro r k' u hu
    cases r with
    | ok _ => exact ⟨⟨_, hu⟩, hu, by rintro ⟨⟩⟩
    | error e => exact ⟨hu, by rintro ⟨⟩⟩

theorem accounts_attemptRuntime {α : Type} {modality : Modality} {ask : IngestTask α}
    (hask : (slots c).Takes 1 ask 1) {k : ℕ} {t : Stream} (ht : (slots c).fits k t)
    (hroom : HasRoom c t) :
    (slots c).Accounts (fun k u _ => (slots c).fits k u) k (attemptRuntime modality ask) t := by
  have htry : (slots c).Takes 1 (finallyDo (ask.andThen fun answer =>
      match answer with
      | .ok result => return some result
      | .error (.exception failure) => do
          degrade modality failure
          return none
      | .error .cancelled => raise .cancelled)
      fun t => { t with state := { t.state with inFlight := t.state.inFlight - 1 } }) 0 := by
    apply takes_finallyDo (m := 1)
    · apply hask.andThen
      intro answer
      match answer with
      | .ok result => exact takes_pure _
      | .error (.exception failure) => exact takes_bind (takes_degrade _ _) fun _ => takes_pure _
      | .error .cancelled => exact takes_done _
    · rintro k u ⟨heq, hle⟩
      refine ⟨?_, ?_⟩
      · simp only [heq]
        push_cast
        ring
      · simp only
        omega
  have hadmitted : (slots c).fits (k + 1)
      { t with state := { t.state with inFlight := t.state.inFlight + 1 } } := by
    refine ⟨?_, hroom⟩
    simp only [ht.1]
    push_cast
    ring
  exact ⟨⟨_, hadmitted⟩, htry k _ hadmitted⟩

theorem takes_ingest {α : Type} {modality : Modality} {ask : IngestTask α}
    {absorb : α → IngestTask Unit} (hask : (slots c).Takes 1 ask 1)
    (habsorb : ∀ result, (slots c).Takes 0 (absorb result) 0) (sequence : ℤ) :
    (slots c).Takes 0 (ingest c modality ask absorb sequence) 0 := by
  have hoffer : Stateful.Keeps (fun t : Stream => t.state.inFlight) (offer modality sequence) :=
    Stateful.keeps_bind Stateful.keeps_get fun _ =>
      Stateful.keeps_bind (Stateful.keeps_ofExcept _) fun _ =>
        Stateful.keeps_bind (Stateful.keeps_modify fun t => t.state.setLedgerFor_inFlight _ _)
          fun _ => Stateful.keeps_pure _
  apply takes_bind (takes_act_of_keeps hoffer)
  intro verdict
  split_ifs
  · exact takes_pure _
  · intro k t ht
    apply (accounts_admitWindow ht).andThen
    rintro k u r ⟨hu, hroom⟩
    cases r with
    | error e => exact hu
    | ok _ =>
        apply (accounts_attemptRuntime hask hu (hroom rfl)).andThen
        intro k v r hv
        match r with
        | .error e => exact hv
        | .ok none => exact hv
        | .ok (some result) => exact takes_bind (habsorb result) (fun _ => takes_pure _) k v hv

theorem takes_serve (call : IngestCall) : (slots c).Takes 0 (serve c call) 0 := by
  cases call with
  | audio sequence window =>
      exact takes_ingest (takes_transcribe window) takes_absorbSpeech sequence
  | video sequence frames =>
      exact takes_ingest (takes_observe frames) takes_absorbVisual sequence

end Slots

abbrev IngestPool := Pool PortCall PortCall.Answer Stream Raised ChunkVerdict

abbrev IngestMove := Move PortCall PortCall.Answer Raised IngestCall

/-- An admitted call whose slot has not been released: it is stopped inside the `try`. -/
def inSlot : IngestTask ChunkVerdict → Bool
  | .await o _ => holdsSlot o
  | _ => false

/-- The windows in flight are the calls in their slots, and the queue has room for them. -/
structure InFlightBounded (pool : IngestPool) : Prop where
  nonneg : 0 ≤ pool.shared.state.inFlight
  le_depth : pool.shared.state.inFlight ≤ c.maxQueueDepth
  eq_admitted : pool.shared.state.inFlight = pool.calls.countP inSlot
  returned : (∀ call ∈ pool.calls, call.isOver = true) → pool.shared.state.inFlight = 0

theorem sum_shareOf (calls : List (IngestTask ChunkVerdict)) :
    (calls.map (slots c).shareOf).sum = calls.countP inSlot := by
  induction calls with
  | nil => rfl
  | cons call calls ih =>
      have hshare : (slots c).shareOf call = (inSlot call).toNat := by
        cases call <;> rfl
      rw [List.map_cons, List.sum_cons, List.countP_cons, ih, hshare]
      cases inSlot call <;> simp [add_comm]

theorem inFlightBounded_of_balanced {pool : IngestPool} (h : (slots c).Balanced pool) :
    InFlightBounded c pool := by
  obtain ⟨heq, hle⟩ := h.fits
  rw [sum_shareOf] at heq
  refine ⟨by omega, hle, heq, ?_⟩
  intro hover
  have hnone : pool.calls.countP inSlot = 0 := by
    rw [List.countP_eq_zero]
    intro call hcall
    have hcallOver := hover call hcall
    cases call with
    | done r => simp [inSlot]
    | read next => cases hcallOver
    | write f next => cases hcallOver
    | await o next => cases hcallOver
  omega

/-- However audio and video calls are interleaved, answered, failed or cancelled, the windows in
flight are the admitted calls that have not left the queue, at most as many as the queue is
deep, and none once every call has returned or raised. -/
theorem inFlight_bounded (hdepth : 0 ≤ c.maxQueueDepth) {t : Stream} (ht : t.state.inFlight = 0)
    (moves : List IngestMove) :
    InFlightBounded c (Pool.run (serve c) ⟨t, []⟩ moves) ∧
      ∀ move, ∀ u ∈ (Pool.run (serve c) ⟨t, []⟩ moves).during (serve c) move,
        0 ≤ u.state.inFlight ∧ u.state.inFlight ≤ c.maxQueueDepth := by
  have hidle : (slots c).Balanced (⟨t, []⟩ : IngestPool) :=
    ⟨⟨ht, ht.trans_le hdepth⟩, by simp⟩
  have hbalanced := hidle.run (takes_serve (c := c)) moves
  refine ⟨inFlightBounded_of_balanced c hbalanced, ?_⟩
  intro move u hu
  obtain ⟨n, heq, hle⟩ := (hbalanced.step (takes_serve (c := c)) move).2 u hu
  exact ⟨by omega, hle⟩

/-- A window and a frame in flight together; the window is cancelled, and the frame's runtime
fails and the notice of it is still to be sent. -/
def twoCalls : List IngestMove :=
  [.begin (.audio 0 sampleWindow), .begin (.video 0 [⟨0, none, []⟩]),
    .resume 0 fun _ => .error .cancelled,
    .resume 1 fun _ => .error (.exception (.foreign "RuntimeError" "out of memory"))]

theorem inFlight_bounded_twoCalls :
    (Pool.run (serve (sample id)) ⟨sampleStream, []⟩ twoCalls).shared.state.inFlight = 1 ∧
      InFlightBounded (sample id) (Pool.run (serve (sample id)) ⟨sampleStream, []⟩ twoCalls) :=
  ⟨rfl, (inFlight_bounded (sample id) (t := sampleStream) (by decide) rfl twoCalls).1⟩

end OratoriaEngine.Coordinator.Concurrent
