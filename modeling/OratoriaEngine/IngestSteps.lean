import OratoriaEngine.Ingest

/-!
# What one ingest call can do

Each stage of a call is computed once here. The call itself is one of five
things: refused by the chunk ledger, a duplicate, refused at admission, a
degradation, or the absorption of a runtime result.
-/

namespace OratoriaEngine.Coordinator

open Stateful

variable (c : Coordinator) (ports : StreamPorts) {t : Stream} {sequence : ℤ}

@[simp] theorem exec_modifyState (f : StreamingState → StreamingState) (t : Stream) :
    exec (modifyState f) t = (.ok (), { t with state := f t.state }) := rfl

@[simp] theorem exec_modifyState_bind {β : Type} (f : StreamingState → StreamingState)
    (g : Unit → StreamAction β) (t : Stream) :
    exec (modifyState f >>= g) t = exec (g ()) { t with state := f t.state } := rfl

/-- The stream after the chunk ledger of a modality was replaced. -/
def withChunks (t : Stream) (modality : Modality) (l : ChunkLedger) : Stream :=
  { t with state := t.state.setLedgerFor modality l }

theorem exec_offer_ok {modality : Modality} {v : ChunkVerdict} {l : ChunkLedger}
    (h : (t.state.ledgerFor modality).offer sequence = .ok (v, l)) :
    exec (offer modality sequence) t = (.ok v, withChunks t modality l) := by
  simp only [offer, exec_get, exec_bind, exec_ofExcept, h, exec_modifyState, exec_pure]
  rfl

theorem exec_offer_error {modality : Modality} {e : Failure}
    (h : (t.state.ledgerFor modality).offer sequence = .error e) :
    exec (offer modality sequence) t = (.error e, t) := by
  simp only [offer, exec_get, exec_bind, exec_ofExcept, h]

theorem exec_admit_of_lt (h : t.state.inFlight < c.maxQueueDepth) :
    exec (admitWindow c ports) t = (.ok (), t) := by
  simp only [admitWindow, exec_get_bind, if_pos h, exec_pure]

theorem exec_admit_of_ge (h : ¬t.state.inFlight < c.maxQueueDepth) :
    ∃ e requests,
      exec (admitWindow c ports) t = (.error e, { t with backpressure := requests }) := by
  simp only [admitWindow, exec_get_bind, if_neg h]
  cases hr : ports.channel.requestBackpressure t.state.sessionId t.state.inFlight with
  | none =>
      refine ⟨.backpressureRequired
          s!"{t.state.inFlight} windows already in flight; slow down" t.state.inFlight,
        t.backpressure ++ [(t.state.sessionId, t.state.inFlight)], ?_⟩
      simp only [exec_bind, exec_raiseIf_none, exec_modify, exec_throw]
  | some e => exact ⟨e, t.backpressure, by simp only [exec_bind, exec_raiseIf_some]⟩

theorem exec_publish (event : OutboundEvent) (t : Stream) :
    exec (publish ports event) t =
      match ports.channel.publish t.published event with
      | none => (.ok (), { t with published := t.published ++ [event] })
      | some e => (.error e, t) := by
  simp only [publish, exec_get, exec_bind]
  cases ports.channel.publish t.published event <;> simp

theorem exec_publish_log (event : OutboundEvent) (t : Stream) :
    ∃ r log, exec (publish ports event) t = (r, { t with published := t.published ++ log }) ∧
      ∀ m ∈ log, m = event := by
  rw [exec_publish]
  cases ports.channel.publish t.published event with
  | none => exact ⟨.ok (), [event], rfl, by simp⟩
  | some e => exact ⟨.error e, [], by simp, by simp⟩

theorem exec_publishSpeech (events : List SpeechEvent) (isFinal : Bool) (t : Stream) :
    ∃ r log, exec (publishSpeech ports events isFinal) t =
        (r, { t with published := t.published ++ log }) ∧
      ∀ m ∈ log, m.type = (if isFinal then .speechEventFinal else .speechEventPartial) ∧
        m.payload = .events (events.map speechPayload) := by
  simp only [publishSpeech, exec_get_bind]
  cases (events.map (·.interval.stop.ms)).max? with
  | none => exact ⟨.ok (), [], by simp, by simp⟩
  | some latest =>
      obtain ⟨r, log, hexec, hlog⟩ := exec_publish_log ports
        ⟨if isFinal then .speechEventFinal else .speechEventPartial, t.state.sessionId, latest,
          .events (events.map speechPayload)⟩ t
      exact ⟨r, log, hexec, fun m hm => by rw [hlog m hm]; exact ⟨rfl, rfl⟩⟩

theorem exec_publishTranscript (isFinal : Bool) (t : Stream) :
    ∃ r log, exec (publishTranscript ports isFinal) t =
        (r, { t with published := t.published ++ log }) ∧
      ∀ m ∈ log, ∃ tokens, m.payload = .tokens tokens := by
  simp only [publishTranscript, exec_get_bind]
  generalize (if isFinal then t.state.transcript.finalTokens
    else t.state.transcript.provisionalTokens) = tokens
  cases tokens.getLast? with
  | none => exact ⟨.ok (), [], by simp, by simp⟩
  | some last =>
      obtain ⟨r, log, hexec, hlog⟩ := exec_publish_log ports
        ⟨if isFinal then .transcriptFinal else .transcriptPartial, t.state.sessionId,
          last.interval.stop.ms, .tokens (tokens.map tokenPayload)⟩ t
      exact ⟨r, log, hexec, fun m hm => by rw [hlog m hm]; exact ⟨_, rfl⟩⟩

theorem exec_publishQualityWarnings (availability : List ModalityAvailability) (t : Stream) :
    ∃ r log, exec (publishQualityWarnings ports availability) t =
        (r, { t with published := t.published ++ log }) ∧
      ∀ m ∈ log, ∃ windows, m.payload = .windows windows := by
  simp only [publishQualityWarnings]
  split_ifs with hempty
  · exact ⟨.ok (), [], by simp, by simp⟩
  · rw [exec_get_bind]
    obtain ⟨r, log, hexec, hlog⟩ := exec_publish_log ports
      ⟨.qualityWarning, t.state.sessionId, t.state.transcript.finalizedFrontier.ms,
        .windows ((availability.filter fun record => !record.isUsable).map windowPayload)⟩ t
    exact ⟨r, log, hexec, fun m hm => by rw [hlog m hm]; exact ⟨_, rfl⟩⟩

/-- The stream after a modality was marked down. -/
def withDegraded (t : Stream) (modality : Modality) : Stream :=
  { t with state := { t.state with
    degradedModalities := insert modality t.state.degradedModalities } }

def degradationEvent (t : Stream) (modality : Modality) (failure : Failure) : OutboundEvent where
  type := .processingDegraded
  sessionId := t.state.sessionId
  monotonicTimeMs := t.state.transcript.finalizedFrontier.ms
  payload := .degradation modality.value failure.typeName
    (s!"{modality.value} processing failed; its indicators will be reported " ++
      "as unavailable for the affected windows")

theorem exec_degrade_eq (modality : Modality) (failure : Failure) (t : Stream) :
    exec (degrade ports modality failure) t =
      if modality ∈ t.state.degradedModalities then (.ok (), withDegraded t modality)
      else
        exec (publish ports (degradationEvent t modality failure)) (withDegraded t modality) := by
  simp only [degrade, exec_get, exec_bind, exec_modifyState]
  by_cases h : modality ∈ t.state.degradedModalities
  · simp only [h, not_true_eq_false, if_false, if_true, exec_pure]
    rfl
  · simp only [h, not_false_eq_true, if_true, if_false]
    rfl

/-- The message is a degradation notice, which carries no evidence. -/
def IsNotice (m : OutboundEvent) : Prop :=
  ∃ modality reason detail, m.payload = .degradation modality reason detail

theorem isNotice_degradationEvent (modality : Modality) (failure : Failure) (t : Stream) :
    IsNotice (degradationEvent t modality failure) := ⟨_, _, _, rfl⟩

/-- Marking a modality down sends at most the notice, whether or not it raises. -/
theorem exec_degrade (modality : Modality) (failure : Failure) (t : Stream) :
    ∃ r notices,
      exec (degrade ports modality failure) t =
        (r, { withDegraded t modality with published := t.published ++ notices }) ∧
      ∀ m ∈ notices, m = degradationEvent t modality failure := by
  rw [exec_degrade_eq]
  split_ifs with hm
  · exact ⟨.ok (), [], by simp [withDegraded], by simp⟩
  · rw [exec_publish]
    cases ports.channel.publish (withDegraded t modality).published
        (degradationEvent t modality failure) with
    | none =>
        exact ⟨.ok (), [degradationEvent t modality failure], rfl, fun m => List.mem_singleton.1⟩
    | some e => exact ⟨.error e, [], by simp [withDegraded], by simp⟩

def withCall (t : Stream) (call : RuntimeCall) : Stream :=
  { t with runtimeCalls := t.runtimeCalls ++ [call] }

theorem exec_attemptRuntime_ok {α : Type} (modality : Modality) (call : RuntimeCall) (result : α)
    (t : Stream) :
    exec (attemptRuntime ports modality call (.ok result)) t =
      (.ok (some result), withCall t call) := by
  simp only [attemptRuntime, exec_bind, exec_modifyState, exec_finallyDo, exec_modify, exec_pure,
    add_sub_cancel_right]
  rfl

theorem exec_attemptRuntime_error {α : Type} (modality : Modality) (call : RuntimeCall)
    (failure : Failure) (t : Stream) :
    ∃ r notices,
      exec (attemptRuntime (α := α) ports modality call (.error failure)) t =
        (r, { withDegraded (withCall t call) modality with published := t.published ++ notices }) ∧
      (∀ result, r ≠ .ok (some result)) ∧
        ∀ m ∈ notices, m = degradationEvent t modality failure := by
  obtain ⟨r, notices, hexec, htype⟩ := exec_degrade ports modality failure
    (withCall { t with state := { t.state with inFlight := t.state.inFlight + 1 } } call)
  refine ⟨r.map fun _ => none, notices, ?_, ?_, htype⟩
  · simp only [withCall] at hexec
    simp only [attemptRuntime, exec_bind, exec_modifyState, exec_finallyDo, exec_modify, hexec]
    cases r <;> simp [withDegraded, withCall, Except.map]
  · cases r <;> simp [Except.map]

/-- The call passes the chunk ledger: its sequence number is new. -/
def Novel (t : Stream) (modality : Modality) (sequence : ℤ) : Prop :=
  0 ≤ sequence ∧ sequence ∉ (t.state.ledgerFor modality).acceptedSet

instance (t : Stream) (modality : Modality) (sequence : ℤ) :
    Decidable (Novel t modality sequence) := inferInstanceAs (Decidable (_ ∧ _))

/-- The queue has room for the call. -/
def HasRoom (c : Coordinator) (t : Stream) : Prop := t.state.inFlight < c.maxQueueDepth

instance (c : Coordinator) (t : Stream) : Decidable (HasRoom c t) :=
  inferInstanceAs (Decidable (_ < _))

section Ingest

variable {α : Type} {modality : Modality} (call : RuntimeCall) (answer : Except Failure α)
  (absorb : α → StreamAction Unit)

theorem exec_ingest_of_neg (h : sequence < 0) :
    exec (ingest c ports modality call answer absorb sequence) t =
      (.error (.valueError s!"chunk sequence must be non-negative, got {sequence}"), t) := by
  simp only [ingest, exec_bind, exec_offer_error (ChunkLedger.offer_of_neg h)]

theorem exec_ingest_of_duplicate (h0 : 0 ≤ sequence)
    (h : sequence ∈ (t.state.ledgerFor modality).acceptedSet) :
    exec (ingest c ports modality call answer absorb sequence) t =
      (.ok .duplicate, withChunks t modality { t.state.ledgerFor modality with
        duplicates := (t.state.ledgerFor modality).duplicates + 1 }) := by
  simp only [ingest, exec_bind, exec_offer_ok (ChunkLedger.offer_of_mem h0 h), if_true, exec_pure]

theorem exists_offer_of_novel (h : Novel t modality sequence) :
    ∃ v l, (t.state.ledgerFor modality).offer sequence = .ok (v, l) ∧ v ≠ .duplicate ∧
      l.acceptedSet = insert sequence (t.state.ledgerFor modality).acceptedSet ∧
      exec (offer modality sequence) t = (.ok v, withChunks t modality l) := by
  obtain ⟨v, l, hoffer, hv, hl⟩ := ChunkLedger.offer_of_notMem h.1 h.2
  exact ⟨v, l, hoffer, hv, hl, exec_offer_ok hoffer⟩

theorem hasRoom_withChunks {l : ChunkLedger} :
    HasRoom c (withChunks t modality l) ↔ HasRoom c t := by
  simp [HasRoom, withChunks]

variable {v : ChunkVerdict} {l : ChunkLedger}

theorem exec_ingest_of_full
    (ho : exec (offer modality sequence) t = (.ok v, withChunks t modality l))
    (hv : v ≠ .duplicate) (hfull : ¬HasRoom c t) :
    ∃ e requests, exec (ingest c ports modality call answer absorb sequence) t =
      (.error e, { withChunks t modality l with backpressure := requests }) := by
  obtain ⟨e, requests, hadmit⟩ := exec_admit_of_ge c ports
    (t := withChunks t modality l) (fun h => hfull ((hasRoom_withChunks c).1 h))
  exact ⟨e, requests, by simp only [ingest, exec_bind, ho, if_neg hv, hadmit]⟩

theorem exec_ingest_of_failure {failure : Failure} (hans : answer = .error failure)
    (ho : exec (offer modality sequence) t = (.ok v, withChunks t modality l))
    (hv : v ≠ .duplicate) (hroom : HasRoom c t) :
    ∃ r notices, exec (ingest c ports modality call answer absorb sequence) t =
      (r, { withDegraded (withCall (withChunks t modality l) call) modality with
        published := t.published ++ notices }) ∧
      ∀ m ∈ notices, m = degradationEvent (withChunks t modality l) modality failure := by
  subst hans
  have hadmit := exec_admit_of_lt c ports (t := withChunks t modality l)
    ((hasRoom_withChunks c).2 hroom)
  obtain ⟨r, notices, hattempt, hr, hm⟩ := exec_attemptRuntime_error (α := α) ports
    modality call failure (withChunks t modality l)
  simp only [ingest, exec_bind, ho, if_neg hv, hadmit, hattempt]
  rcases r with e | _ | result
  · exact ⟨.error e, notices, rfl, hm⟩
  · exact ⟨.ok .accepted, notices, rfl, hm⟩
  · exact absurd rfl (hr result)

theorem exec_ingest_of_result {result : α} (hans : answer = .ok result)
    (ho : exec (offer modality sequence) t = (.ok v, withChunks t modality l))
    (hv : v ≠ .duplicate) (hroom : HasRoom c t) :
    exec (ingest c ports modality call answer absorb sequence) t =
      ((exec (absorb result) (withCall (withChunks t modality l) call)).1.map fun _ => v,
        (exec (absorb result) (withCall (withChunks t modality l) call)).2) := by
  subst hans
  have hadmit := exec_admit_of_lt c ports (t := withChunks t modality l)
    ((hasRoom_withChunks c).2 hroom)
  simp only [ingest, exec_bind, ho, if_neg hv, hadmit, exec_attemptRuntime_ok]
  rcases exec (absorb result) (withCall (withChunks t modality l) call) with ⟨_ | _, _⟩ <;> rfl

/-- Nothing that was analysed changed; at most the client was told of a degradation. -/
structure Framed (t t' : Stream) : Prop where
  runId : t'.state.runId = t.state.runId
  transcript : t'.state.transcript = t.state.transcript
  speechEvents : t'.state.speechEvents = t.state.speechEvents
  quality : t'.state.quality = t.state.quality
  inFlight : t'.state.inFlight = t.state.inFlight
  ledger : t'.ledger = t.ledger
  published : ∃ notices, t'.published = t.published ++ notices ∧
    ∀ m ∈ notices, IsNotice m

theorem framed_withChunks : Framed t (withChunks t modality l) :=
  ⟨by simp [withChunks], by simp [withChunks], by simp [withChunks], by simp [withChunks],
    by simp [withChunks], rfl, [], by simp [withChunks], by simp⟩

theorem framed_withCall : Framed t (withCall (withChunks t modality l) call) := by
  have h : Framed t (withChunks t modality l) := framed_withChunks
  exact ⟨h.runId, h.transcript, h.speechEvents, h.quality, h.inFlight, h.ledger, h.published⟩

/-- A call either leaves the evidence alone or absorbs a result the runtime gave it. -/
theorem ingest_framed_or_absorbed :
    Framed t (exec (ingest c ports modality call answer absorb sequence) t).2 ∨
      ∃ result l, answer = .ok result ∧ Novel t modality sequence ∧ HasRoom c t ∧
        (exec (ingest c ports modality call answer absorb sequence) t).2 =
          (exec (absorb result) (withCall (withChunks t modality l) call)).2 := by
  by_cases h0 : sequence < 0
  · rw [exec_ingest_of_neg c ports call answer absorb h0]
    exact Or.inl ⟨rfl, rfl, rfl, rfl, rfl, rfl, [], by simp, by simp⟩
  by_cases hmem : sequence ∈ (t.state.ledgerFor modality).acceptedSet
  · rw [exec_ingest_of_duplicate c ports call answer absorb (not_lt.1 h0) hmem]
    exact Or.inl framed_withChunks
  have hnovel : Novel t modality sequence := ⟨not_lt.1 h0, hmem⟩
  obtain ⟨v, l, -, hv, -, ho⟩ := exists_offer_of_novel hnovel
  by_cases hroom : HasRoom c t
  · cases hans : answer with
    | error failure =>
        obtain ⟨r, notices, hexec, hm⟩ := exec_ingest_of_failure c ports call (.error failure)
          absorb rfl ho hv hroom
        rw [hexec]
        have h : Framed t (withChunks t modality l) := framed_withChunks
        refine Or.inl ⟨h.runId, h.transcript, h.speechEvents, h.quality, h.inFlight, h.ledger,
          notices, rfl, fun m hmem => ?_⟩
        rw [hm m hmem]
        exact isNotice_degradationEvent modality failure _
    | ok result =>
        rw [exec_ingest_of_result c ports call _ absorb rfl ho hv hroom]
        exact Or.inr ⟨result, l, rfl, hnovel, hroom, rfl⟩
  · obtain ⟨e, requests, hexec⟩ := exec_ingest_of_full c ports call answer absorb ho hv hroom
    rw [hexec]
    have h : Framed t (withChunks t modality l) := framed_withChunks
    exact Or.inl ⟨h.runId, h.transcript, h.speechEvents, h.quality, h.inFlight, h.ledger,
      h.published⟩

end Ingest

theorem after_audio_cases (window : AudioWindow) :
    Framed t (c.after t ⟨ports, .audio sequence window⟩) ∨
      ∃ result l, ports.speech window = .ok result ∧ Novel t .audio sequence ∧ HasRoom c t ∧
        c.after t ⟨ports, .audio sequence window⟩ = (exec (absorbSpeech c ports result)
          (withCall (withChunks t .audio l) (.transcribe window))).2 :=
  ingest_framed_or_absorbed c ports _ _ _

theorem after_video_cases (frames : List VisualFrame) :
    Framed t (c.after t ⟨ports, .video sequence frames⟩) ∨
      ∃ result l, ports.vision frames = .ok result ∧ Novel t .video sequence ∧ HasRoom c t ∧
        c.after t ⟨ports, .video sequence frames⟩ = (exec (absorbVisual c ports result)
          (withCall (withChunks t .video l) (.observe frames))).2 :=
  ingest_framed_or_absorbed c ports _ _ _

def withVisual (t : Stream) (assembled : AssembledVisual) : Stream :=
  { t with state := { t.state with
    visualEvents := t.state.visualEvents.setAll (assembled.events.map fun e => (e.id.value, e))
    quality := t.state.quality.extended assembled.assessments assembled.availability } }

theorem exec_absorbVisual_error {result : VisualResult} {e : Failure}
    (h : c.visualAssembler.assemble result = .error e) :
    exec (absorbVisual c ports result) t = (.error e, t) := by
  simp only [absorbVisual, exec_bind, exec_ofExcept, h]

theorem exec_absorbVisual_ok {result : VisualResult} {assembled : AssembledVisual}
    (h : c.visualAssembler.assemble result = .ok assembled) :
    exec (absorbVisual c ports result) t =
      exec (publishQualityWarnings ports assembled.availability) (withVisual t assembled) := by
  simp only [absorbVisual, exec_bind, exec_ofExcept, h, exec_modifyState]
  rfl

/-- Assigning the tokens, events and readings of one window. -/
def withSpeech (t : Stream) (transcript : Transcript) (assembled : AssembledSpeech) : Stream :=
  { t with state := { t.state with
    transcript := transcript
    speechEvents := t.state.speechEvents.setAll (assembled.events.map fun e => (e.id.value, e))
    prosody := t.state.prosody ++ assembled.prosody } }

theorem get?_withSpeech_cases (t : Stream) (transcript : Transcript) (assembled : AssembledSpeech)
    (key : String) :
    (∃ e ∈ assembled.events, e.id.value = key ∧
      (withSpeech t transcript assembled).state.speechEvents.get? key = some e) ∨
    (withSpeech t transcript assembled).state.speechEvents.get? key =
      t.state.speechEvents.get? key := by
  rcases Dict.get?_setAll_cases t.state.speechEvents
    (assembled.events.map fun e => (e.id.value, e)) key with ⟨e, hmem, hget⟩ | ⟨-, hget⟩
  · obtain ⟨e', he', heq⟩ := List.mem_map.1 hmem
    cases heq
    exact Or.inl ⟨_, he', rfl, hget⟩
  · exact Or.inr hget

theorem exec_absorbSpeech_assemble_error {result : SpeechResult} {e : Failure}
    (h : c.speechAssembler.assemble result = .error e) :
    exec (absorbSpeech c ports result) t = (.error e, t) := by
  simp only [absorbSpeech, exec_bind, exec_ofExcept, h]

theorem exec_absorbSpeech_transcript_error {result : SpeechResult} {assembled : AssembledSpeech}
    {e : Failure} (h : c.speechAssembler.assemble result = .ok assembled)
    (ht : t.state.transcript.withProvisional assembled.tokens = .error e) :
    exec (absorbSpeech c ports result) t = (.error e, t) := by
  simp only [absorbSpeech, exec_bind, exec_get, exec_ofExcept, h, ht]

theorem exec_absorbSpeech_ok {result : SpeechResult} {assembled : AssembledSpeech}
    {transcript : Transcript} (h : c.speechAssembler.assemble result = .ok assembled)
    (ht : t.state.transcript.withProvisional assembled.tokens = .ok transcript) :
    exec (absorbSpeech c ports result) t =
      exec (do
        publishSpeech ports assembled.events false
        finalizeThrough c ports assembled.stableThroughMs) (withSpeech t transcript assembled) := by
  simp only [absorbSpeech, exec_bind, exec_get, exec_ofExcept, h, ht, exec_modifyState]
  rfl

end OratoriaEngine.Coordinator
