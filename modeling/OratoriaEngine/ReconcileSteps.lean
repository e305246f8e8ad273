import OratoriaEngine.IngestSteps

/-!
# What reconciliation does to the state

Promotion and pause derivation as pure functions of the streaming state. The
ledger takes every event it is given, so the only thing in a reconciliation that
can fail, besides the channel, is building a pause over an inverted gap.
-/

namespace OratoriaEngine.Coordinator

open Stateful

variable (c : Coordinator) (ports : StreamPorts) {t : Stream}

/-- The entry will be promoted at this stable point. -/
def pending (stableThroughMs : ℤ) (entry : String × SpeechEvent) : Bool :=
  !(entry.2.isFinal || decide (stableThroughMs < entry.2.interval.stop.ms))

/-- The events a reconciliation promotes, in the order of the dictionary. -/
def newlyFinal (stableThroughMs : ℤ) (entries : List (String × SpeechEvent)) : List SpeechEvent :=
  (entries.filter (pending stableThroughMs)).map (·.2.finalize)

def promotions (stableThroughMs : ℤ) (entries : List (String × SpeechEvent)) :
    List (String × SpeechEvent) :=
  (entries.filter (pending stableThroughMs)).map fun entry => (entry.1, entry.2.finalize)

/-- The pauses whose identifier is not taken when their turn comes, finalized. -/
def unknownPauses : Dict String SpeechEvent → List SpeechEvent → List SpeechEvent
  | _, [] => []
  | d, pause :: rest =>
      if d.contains pause.id.value then unknownPauses d rest
      else pause.finalize :: unknownPauses (d.set pause.id.value pause.finalize) rest

def keyed (events : List SpeechEvent) : List (String × SpeechEvent) :=
  events.map fun e => (e.id.value, e)

theorem finalize_append_total (l : EvidenceLedger) (e : SpeechEvent) :
    ∃ l', (if l.contains e.id then l.finalize e.id
      else l.append e.id e.interval e.provenance true
        [("type", e.type.value), ("raw_text", e.rawText)]) = .ok l' := by
  by_cases h : l.contains e.id = true
  · obtain ⟨entry, hentry⟩ := EvidenceLedger.exists_current_of_contains h
    obtain ⟨l', -, hl', -⟩ := EvidenceLedger.finalize_of_current hentry
    exact ⟨l', by rw [if_pos h, hl']⟩
  · obtain ⟨l', hl', -⟩ := EvidenceLedger.append_of_not_contains (by simpa using h) e.interval
      e.provenance true [("type", e.type.value), ("raw_text", e.rawText)]
    exact ⟨l', by rw [if_neg h, hl']⟩

def withEvents (t : Stream) (events : Dict String SpeechEvent) (ledger : EvidenceLedger) :
    Stream :=
  { t with
    state := { t.state with speechEvents := events }
    ledger := ledger }

theorem exec_settle_total (key : String) (e : SpeechEvent) (t : Stream) :
    ∃ ledger, exec (settle key e) t =
      (.ok (), withEvents t (t.state.speechEvents.set key e) ledger) := by
  obtain ⟨ledger, hl⟩ := finalize_append_total t.ledger e
  refine ⟨ledger, ?_⟩
  simp only [settle, record, exec_modifyState_bind, exec_get_bind]
  rw [hl]
  rfl

theorem exec_promote_total (stableThroughMs : ℤ) (l : List (String × SpeechEvent)) (t : Stream) :
    ∃ ledger, exec (promote stableThroughMs l) t = (.ok (newlyFinal stableThroughMs l),
      withEvents t (t.state.speechEvents.setAll (promotions stableThroughMs l)) ledger) := by
  induction l generalizing t with
  | nil => exact ⟨t.ledger, rfl⟩
  | cons entry l ih =>
      obtain ⟨key, e⟩ := entry
      by_cases hskip : (e.isFinal || decide (stableThroughMs < e.interval.stop.ms)) = true
      · obtain ⟨ledger, hexec⟩ := ih t
        have hp : pending stableThroughMs (key, e) = false := by simp [pending, hskip]
        refine ⟨ledger, ?_⟩
        simp only [promote, if_pos hskip, hexec, newlyFinal, promotions, List.filter_cons, hp,
          Bool.false_eq_true, if_false]
      · obtain ⟨ledger₁, hsettle⟩ := exec_settle_total key e.finalize t
        obtain ⟨ledger, hexec⟩ :=
          ih (withEvents t (t.state.speechEvents.set key e.finalize) ledger₁)
        have hp : pending stableThroughMs (key, e) = true := by simpa [pending] using hskip
        refine ⟨ledger, ?_⟩
        simp only [promote, if_neg hskip, exec_bind_ok hsettle, exec_bind_ok hexec, exec_pure,
          newlyFinal, promotions, List.filter_cons, hp, if_true, List.map_cons, Dict.setAll_cons]
        rfl

theorem exec_addPauses_total (pauses : List SpeechEvent) (t : Stream) :
    ∃ ledger, exec (addPauses pauses) t = (.ok (unknownPauses t.state.speechEvents pauses),
      withEvents t (t.state.speechEvents.setAll
        (keyed (unknownPauses t.state.speechEvents pauses))) ledger) := by
  induction pauses generalizing t with
  | nil => exact ⟨t.ledger, rfl⟩
  | cons pause rest ih =>
      by_cases hk : t.state.speechEvents.contains pause.id.value = true
      · obtain ⟨ledger, hexec⟩ := ih t
        refine ⟨ledger, ?_⟩
        simp only [addPauses, exec_get_bind, if_pos hk, hexec, unknownPauses]
      · obtain ⟨ledger₁, hsettle⟩ := exec_settle_total pause.id.value pause.finalize t
        obtain ⟨ledger, hexec⟩ :=
          ih (withEvents t (t.state.speechEvents.set pause.id.value pause.finalize) ledger₁)
        refine ⟨ledger, ?_⟩
        simp only [addPauses, exec_get_bind, if_neg hk, exec_bind_ok hsettle, exec_bind_ok hexec,
          exec_pure, unknownPauses, keyed, List.map_cons, Dict.setAll_cons,
          SpeechEvent.finalize_id]
        rfl

/-- The state after promotion: tokens and events up to the stable point are final. -/
def promotedState (s : StreamingState) (stableThroughMs : ℤ) : StreamingState :=
  { s with
    transcript := ⟨s.transcript.tokens.map fun token =>
      if token.interval.stop.ms ≤ stableThroughMs then token.finalize else token⟩
    speechEvents := s.speechEvents.setAll (promotions stableThroughMs s.speechEvents.entries) }

/-- The pauses between the final words after promotion, if they can be built. -/
def detectedPauses (s : StreamingState) (stableThroughMs : ℤ) :
    Except Failure (List SpeechEvent) :=
  let promoted := promotedState s stableThroughMs
  if promoted.transcript.finalTokens.length < 2 then .ok []
  else
    match speechProvenance promoted (newlyFinal stableThroughMs s.speechEvents.entries) with
    | none => .ok []
    | some provenance =>
        silentPauses c.digest promoted.transcript.finalTokens c.configuration.silenceThresholdMs
          provenance s.runId

def reconciledState (s : StreamingState) (stableThroughMs : ℤ) (pauses : List SpeechEvent) :
    StreamingState :=
  let promoted := promotedState s stableThroughMs
  { promoted with speechEvents :=
      promoted.speechEvents.setAll (keyed (unknownPauses promoted.speechEvents pauses)) }

def announced (s : StreamingState) (stableThroughMs : ℤ) (pauses : List SpeechEvent) :
    List SpeechEvent :=
  newlyFinal stableThroughMs s.speechEvents.entries ++
    unknownPauses (promotedState s stableThroughMs).speechEvents pauses

theorem exec_finalizeThrough_of_behind {stableThroughMs : ℤ}
    (h : stableThroughMs ≤ t.state.transcript.finalizedFrontier.ms) :
    exec (finalizeThrough c ports stableThroughMs) t = (.ok (), t) := by
  simp only [finalizeThrough, exec_get_bind, if_pos h, exec_pure]

theorem exec_derivePauses_total (stableThroughMs : ℤ) (s : StreamingState) (u : Stream)
    (hu : u.state = promotedState s stableThroughMs) :
    ∃ ledger, exec (derivePauses c (newlyFinal stableThroughMs s.speechEvents.entries)) u =
      match detectedPauses c s stableThroughMs with
      | .error e => (.error e, u)
      | .ok pauses => (.ok (unknownPauses u.state.speechEvents pauses),
          withEvents u (u.state.speechEvents.setAll
            (keyed (unknownPauses u.state.speechEvents pauses))) ledger) := by
  simp only [derivePauses, exec_get_bind, detectedPauses, ← hu]
  split_ifs with hfew
  · exact ⟨u.ledger, rfl⟩
  · cases speechProvenance u.state (newlyFinal stableThroughMs s.speechEvents.entries) with
    | none => exact ⟨u.ledger, rfl⟩
    | some provenance =>
        have hrun : u.state.runId = s.runId := by rw [hu]; rfl
        simp only [hrun]
        cases silentPauses c.digest u.state.transcript.finalTokens
            c.configuration.silenceThresholdMs provenance s.runId with
        | error e => exact ⟨u.ledger, rfl⟩
        | ok pauses => exact exec_addPauses_total pauses u

/-- Past the frontier, a reconciliation promotes, derives pauses and announces both. -/
theorem exec_finalizeThrough_of_ahead {stableThroughMs : ℤ}
    (h : t.state.transcript.finalizedFrontier.ms < stableThroughMs) :
    ∃ ledger, exec (finalizeThrough c ports stableThroughMs) t =
      match detectedPauses c t.state stableThroughMs with
      | .error e =>
          (.error e, { t with state := promotedState t.state stableThroughMs, ledger := ledger })
      | .ok pauses =>
          exec (do
            publishTranscript ports true
            publishSpeech ports (announced t.state stableThroughMs pauses) true)
            { t with
              state := reconciledState t.state stableThroughMs pauses, ledger := ledger } := by
  have hnonneg : 0 ≤ stableThroughMs := t.state.transcript.finalizedFrontier.nonneg.trans h.le
  have hboundary : MonotonicTime.of stableThroughMs = .ok ⟨stableThroughMs, hnonneg⟩ :=
    dif_pos hnonneg
  have hfreeze : t.state.transcript.finalizeThrough ⟨stableThroughMs, hnonneg⟩ =
      .ok (promotedState t.state stableThroughMs).transcript := if_neg (not_lt.2 h.le)
  obtain ⟨ledger₁, hpromote⟩ := exec_promote_total stableThroughMs t.state.speechEvents.entries
    { t with state := { t.state with
      transcript := (promotedState t.state stableThroughMs).transcript } }
  obtain ⟨ledger, hderive⟩ := exec_derivePauses_total c stableThroughMs t.state
    { t with state := promotedState t.state stableThroughMs, ledger := ledger₁ } rfl
  simp only [finalizeThrough, exec_get_bind, if_neg (not_le.2 h), hboundary,
    exec_ofExcept_ok_bind, hfreeze, exec_modifyState_bind, exec_bind_ok hpromote]
  cases hp : detectedPauses c t.state stableThroughMs with
  | error e =>
      rw [hp] at hderive
      exact ⟨ledger₁, exec_bind_error hderive⟩
  | ok pauses =>
      rw [hp] at hderive
      exact ⟨ledger, exec_bind_ok hderive⟩

theorem exec_announce (events : List SpeechEvent) (t : Stream) :
    ∃ r log, exec (do publishTranscript ports true; publishSpeech ports events true) t =
      (r, { t with published := t.published ++ log }) := by
  obtain ⟨r, log, htranscript, -⟩ := exec_publishTranscript ports true t
  cases r with
  | error e => exact ⟨.error e, log, exec_bind_error htranscript⟩
  | ok _ =>
      obtain ⟨r, log', hspeech, -⟩ := exec_publishSpeech ports events true
        { t with published := t.published ++ log }
      refine ⟨r, log ++ log', ?_⟩
      rw [exec_bind_ok htranscript, hspeech, List.append_assoc]

theorem state_exec_finalizeThrough (stableThroughMs : ℤ) (t : Stream) :
    (exec (finalizeThrough c ports stableThroughMs) t).2.state =
      if t.state.transcript.finalizedFrontier.ms < stableThroughMs then
        match detectedPauses c t.state stableThroughMs with
        | .error _ => promotedState t.state stableThroughMs
        | .ok pauses => reconciledState t.state stableThroughMs pauses
      else t.state := by
  by_cases h : t.state.transcript.finalizedFrontier.ms < stableThroughMs
  · obtain ⟨ledger, hexec⟩ := exec_finalizeThrough_of_ahead c ports h
    rw [hexec, if_pos h]
    cases detectedPauses c t.state stableThroughMs with
    | error e => rfl
    | ok pauses =>
        obtain ⟨r, log, hannounce⟩ := exec_announce ports
          (announced t.state stableThroughMs pauses)
          { t with state := reconciledState t.state stableThroughMs pauses, ledger := ledger }
        simp only [hannounce]
  · rw [exec_finalizeThrough_of_behind c ports (not_lt.1 h), if_neg h]

theorem state_exec_absorbSpeech (result : SpeechResult) (t : Stream) :
    ∃ transcript events prosody, (exec (absorbSpeech c ports result) t).2.state =
        { t.state with transcript := transcript, speechEvents := events, prosody := prosody } ∧
      (prosody = t.state.prosody ∨ ∃ assembled, c.speechAssembler.assemble result = .ok assembled ∧
        prosody = t.state.prosody ++ assembled.prosody) := by
  cases ha : c.speechAssembler.assemble result with
  | error e =>
      rw [exec_absorbSpeech_assemble_error c ports ha]
      exact ⟨_, _, _, rfl, .inl rfl⟩
  | ok assembled =>
      cases ht : t.state.transcript.withProvisional assembled.tokens with
      | error e =>
          rw [exec_absorbSpeech_transcript_error c ports ha ht]
          exact ⟨_, _, _, rfl, .inl rfl⟩
      | ok transcript =>
          have hgrown : ∃ a, Except.ok assembled = (Except.ok a : Except Failure AssembledSpeech) ∧
              (withSpeech t transcript assembled).state.prosody = t.state.prosody ++ a.prosody :=
            ⟨assembled, rfl, rfl⟩
          rw [exec_absorbSpeech_ok c ports ha ht]
          obtain ⟨r, log, hpublish, -⟩ := exec_publishSpeech ports assembled.events false
            (withSpeech t transcript assembled)
          cases r with
          | error e =>
              rw [exec_bind_error hpublish]
              exact ⟨_, _, _, rfl, .inr hgrown⟩
          | ok _ =>
              rw [exec_bind_ok hpublish, state_exec_finalizeThrough]
              split_ifs
              · cases detectedPauses c _ assembled.stableThroughMs <;>
                  exact ⟨_, _, _, rfl, .inr hgrown⟩
              · exact ⟨_, _, _, rfl, .inr hgrown⟩

/-- Absorbing an observation assigns the visual events and the quality report only, and the
report grows by what was assembled. -/
theorem state_exec_absorbVisual (result : VisualResult) (t : Stream) :
    ∃ events quality, (exec (absorbVisual c ports result) t).2.state =
        { t.state with visualEvents := events, quality := quality } ∧
      (quality = t.state.quality ∨ ∃ assembled, c.visualAssembler.assemble result = .ok assembled ∧
        quality = t.state.quality.extended assembled.assessments assembled.availability) := by
  cases ha : c.visualAssembler.assemble result with
  | error e =>
      rw [exec_absorbVisual_error c ports ha]
      exact ⟨_, _, rfl, .inl rfl⟩
  | ok assembled =>
      rw [exec_absorbVisual_ok c ports ha]
      obtain ⟨r, log, hpublish, -⟩ := exec_publishQualityWarnings ports assembled.availability
        (withVisual t assembled)
      rw [hpublish]
      exact ⟨_, _, rfl, .inr ⟨assembled, rfl, rfl⟩⟩

def speechMessages (s : StreamingState) (events : List SpeechEvent) (isFinal : Bool) :
    List OutboundEvent :=
  ((events.map (·.interval.stop.ms)).max?.map fun latest => {
    type := if isFinal then .speechEventFinal else .speechEventPartial
    sessionId := s.sessionId
    monotonicTimeMs := latest
    payload := .events (events.map speechPayload) }).toList

def transcriptMessages (s : StreamingState) : List OutboundEvent :=
  (s.transcript.finalTokens.getLast?.map fun last => {
    type := .transcriptFinal
    sessionId := s.sessionId
    monotonicTimeMs := last.interval.stop.ms
    payload := .tokens (s.transcript.finalTokens.map tokenPayload) }).toList

/-- The warning about the unusable windows of a batch, if there are any. -/
def qualityMessages (s : StreamingState) (availability : List ModalityAvailability) :
    List OutboundEvent :=
  let unusable := availability.filter fun record => !record.isUsable
  if unusable.isEmpty then []
  else [{
    type := .qualityWarning
    sessionId := s.sessionId
    monotonicTimeMs := s.transcript.finalizedFrontier.ms
    payload := .windows (unusable.map windowPayload) }]

def Delivers (channel : EventChannel) : List OutboundEvent → List OutboundEvent → Prop
  | _, [] => True
  | log, m :: ms => channel.publish log m = none ∧ Delivers channel (log ++ [m]) ms

theorem delivers_append {channel : EventChannel} {log ms ms' : List OutboundEvent} :
    Delivers channel log (ms ++ ms') ↔
      Delivers channel log ms ∧ Delivers channel (log ++ ms) ms' := by
  induction ms generalizing log with
  | nil => simp [Delivers]
  | cons m ms ih =>
      simp only [List.cons_append, Delivers, ih, and_assoc, List.append_assoc, List.nil_append]

instance (channel : EventChannel) (log ms : List OutboundEvent) :
    Decidable (Delivers channel log ms) := by
  induction ms generalizing log with
  | nil => exact inferInstanceAs (Decidable True)
  | cons m ms ih => exact @instDecidableAnd _ _ inferInstance (ih _)

def publishAll : List OutboundEvent → StreamAction Unit
  | [] => return ()
  | m :: ms => do
      publish ports m
      publishAll ms

theorem exec_publishAll_of_delivers {ms : List OutboundEvent} {t : Stream}
    (h : Delivers ports.channel t.published ms) :
    exec (publishAll ports ms) t = (.ok (), { t with published := t.published ++ ms }) := by
  induction ms generalizing t with
  | nil => simp [publishAll]
  | cons m ms ih =>
      have hm : exec (publish ports m) t =
          (.ok (), { t with published := t.published ++ [m] }) := by
        rw [exec_publish, h.1]
      rw [publishAll, exec_bind_ok hm, ih h.2, List.append_assoc, List.singleton_append]

theorem returns_publishAll_iff (ms : List OutboundEvent) (t : Stream) :
    Returns (publishAll ports ms) t ↔ Delivers ports.channel t.published ms := by
  refine ⟨fun h => ?_, fun h => ⟨(), by rw [exec_publishAll_of_delivers ports h]⟩⟩
  induction ms generalizing t with
  | nil => exact trivial
  | cons m ms ih =>
      have hexec := exec_publish ports m t
      cases hm : ports.channel.publish t.published m with
      | none =>
          rw [hm] at hexec
          exact ⟨hm, ih _ ((returns_bind_of_ok hexec).1 h)⟩
      | some e =>
          rw [hm] at hexec
          exact absurd h (not_returns_bind_of_error hexec)

theorem returns_publishAll_bind_iff {α : Type} {f : Unit → StreamAction α}
    (ms : List OutboundEvent) (t : Stream) :
    Returns (publishAll ports ms >>= f) t ↔
      Delivers ports.channel t.published ms ∧
        Returns (f ()) { t with published := t.published ++ ms } := by
  constructor
  · intro h
    have hms := (returns_publishAll_iff ports ms t).1 (returns_of_bind h)
    exact ⟨hms, (returns_bind_of_ok (exec_publishAll_of_delivers ports hms)).1 h⟩
  · rintro ⟨hms, h⟩
    exact (returns_bind_of_ok (exec_publishAll_of_delivers ports hms)).2 h

theorem exec_publishAll_singleton (m : OutboundEvent) (t : Stream) :
    exec (publishAll ports [m]) t = exec (publish ports m) t := by
  rw [publishAll, exec_bind, exec_publish]
  cases ports.channel.publish t.published m <;> rfl

theorem exec_publishSpeech_eq (events : List SpeechEvent) (isFinal : Bool) (t : Stream) :
    exec (publishSpeech ports events isFinal) t =
      exec (publishAll ports (speechMessages t.state events isFinal)) t := by
  simp only [publishSpeech, exec_get_bind, speechMessages]
  cases (events.map (·.interval.stop.ms)).max? with
  | none => rfl
  | some latest => exact (exec_publishAll_singleton ports _ t).symm

theorem exec_publishTranscript_eq (t : Stream) :
    exec (publishTranscript ports true) t =
      exec (publishAll ports (transcriptMessages t.state)) t := by
  simp only [publishTranscript, exec_get_bind, transcriptMessages, if_true]
  cases t.state.transcript.finalTokens.getLast? with
  | none => rfl
  | some last => exact (exec_publishAll_singleton ports _ t).symm

theorem exec_publishQualityWarnings_eq (availability : List ModalityAvailability) (t : Stream) :
    exec (publishQualityWarnings ports availability) t =
      exec (publishAll ports (qualityMessages t.state availability)) t := by
  simp only [publishQualityWarnings, qualityMessages]
  split_ifs with hempty
  · rfl
  · exact (exec_publishAll_singleton ports _ t).symm

end OratoriaEngine.Coordinator
