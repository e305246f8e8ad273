import OratoriaEngine.FailedModality
import OratoriaEngine.RefusedIngest
import OratoriaEngine.RuntimeOutput

/-!
# The output of a runtime and the session

A runtime that raises degrades its modality and the call goes on. What a runtime returns is
absorbed after that boundary: a result that an assembler, the transcript or the derivation of
pauses refuses ends the call with their exception.
-/

namespace OratoriaEngine

def EventChannel.Raises (channel : EventChannel) (e : Failure) : Prop :=
  ∃ log event, channel.publish log event = some e

namespace Coordinator

open Stateful

variable (c : Coordinator) (ports : StreamPorts) {t : Stream}

def Request.over (r : Request) (channel : EventChannel) : Request :=
  ⟨{ r.ports with channel := channel }, r.call⟩

/-- The coordinator can take whatever the runtime returned. -/
def Takes (s : StreamingState) (r : Request) : Prop :=
  match r.call with
  | .audio _ window => ∀ result, r.ports.speech window = .ok result → TakesSpeech c s result
  | .video _ frames => ∀ result, r.ports.vision frames = .ok result → TakesVideo c result

/-- Whatever the channel does, the call raises nothing that the channel did not raise, and a
runtime that raised has its modality degraded. -/
def ContainsOutput (t : Stream) (r : Request) : Prop :=
  ∀ channel : EventChannel,
    (∀ e, (exec (serve c (r.over channel)) t).1 = .error e → channel.Raises e) ∧
      (Failed c t r → r.call.modality ∈ (c.after t (r.over channel)).state.degradedModalities)

theorem raisesOnly_publish (event : OutboundEvent) :
    RaisesOnly ports.channel.Raises (publish ports event) := by
  refine raisesOnly_bind raisesOnly_get fun t => ?_
  refine raisesOnly_bind (raisesOnly_raiseIf fun e he => ?_) fun _ => raisesOnly_modify _
  exact ⟨t.published, event, he⟩

theorem raisesOnly_publishSpeech (events : List SpeechEvent) (isFinal : Bool) :
    RaisesOnly ports.channel.Raises (publishSpeech ports events isFinal) := by
  refine raisesOnly_bind raisesOnly_get fun t => ?_
  split
  · exact raisesOnly_pure ()
  · exact raisesOnly_publish ports _

theorem raisesOnly_publishTranscript (isFinal : Bool) :
    RaisesOnly ports.channel.Raises (publishTranscript ports isFinal) := by
  refine raisesOnly_bind raisesOnly_get fun t => ?_
  generalize (if isFinal then t.state.transcript.finalTokens
    else t.state.transcript.provisionalTokens) = tokens
  dsimp only
  cases tokens.getLast? with
  | none => exact raisesOnly_pure ()
  | some last => exact raisesOnly_publish ports _

theorem raisesOnly_publishQualityWarnings (availability : List ModalityAvailability) :
    RaisesOnly ports.channel.Raises (publishQualityWarnings ports availability) := by
  unfold publishQualityWarnings
  simp only
  split_ifs
  · exact raisesOnly_pure ()
  · exact raisesOnly_bind raisesOnly_get fun t => raisesOnly_publish ports _

theorem raisesOnly_degrade (modality : Modality) (failure : Failure) :
    RaisesOnly ports.channel.Raises (degrade ports modality failure) := by
  refine raisesOnly_bind raisesOnly_get fun t => ?_
  refine raisesOnly_bind (raisesOnly_modify _) fun _ => ?_
  split_ifs
  · exact raisesOnly_pure ()
  · exact raisesOnly_publish ports _

theorem raisesOnly_attemptRuntime {α : Type} (modality : Modality) (call : RuntimeCall)
    (answer : Except Failure α) :
    RaisesOnly ports.channel.Raises (attemptRuntime ports modality call answer) := by
  refine raisesOnly_bind (raisesOnly_modify _) fun _ => raisesOnly_finallyDo ?_ _
  refine raisesOnly_bind (raisesOnly_modify _) fun _ => ?_
  cases answer with
  | ok result => exact raisesOnly_pure _
  | error failure =>
      exact raisesOnly_bind (raisesOnly_degrade ports modality failure) fun _ => raisesOnly_pure _

theorem raisesOnly_announce (events : List SpeechEvent) :
    RaisesOnly ports.channel.Raises (do
      publishTranscript ports true
      publishSpeech ports events true) :=
  raisesOnly_bind (raisesOnly_publishTranscript ports true) fun _ =>
    raisesOnly_publishSpeech ports events true

theorem raises_of_absorbSpeech {result : SpeechResult} (h : TakesSpeech c t.state result)
    {e : Failure} (he : (exec (absorbSpeech c ports result) t).1 = .error e) :
    ports.channel.Raises e := by
  obtain ⟨assembled, transcript, ha, ht, hpauses⟩ := takesSpeech_iff.2 h
  rw [exec_absorbSpeech_ok c ports ha ht] at he
  obtain ⟨outcome, log, hpublish, -⟩ := exec_publishSpeech ports assembled.events false
    (withSpeech t transcript assembled)
  cases outcome with
  | error raised =>
      rw [exec_bind_error hpublish] at he
      exact raisesOnly_publishSpeech ports _ _ (withSpeech t transcript assembled) e
        (by rw [hpublish, ← he])
  | ok _ =>
      rw [exec_bind_ok hpublish] at he
      by_cases hahead : transcript.finalizedFrontier.ms < assembled.stableThroughMs
      · obtain ⟨ledger, hexec⟩ := exec_finalizeThrough_of_ahead c ports
          (t := { withSpeech t transcript assembled with
            published := (withSpeech t transcript assembled).published ++ log }) hahead
        obtain ⟨pauses, hdetected⟩ := hpauses hahead
        rw [hexec] at he
        simp only [hdetected] at he
        exact raisesOnly_announce ports _ _ e he
      · rw [exec_finalizeThrough_of_behind c ports (not_lt.1 hahead)] at he
        cases he

theorem raises_of_absorbVisual {result : VisualResult} (h : TakesVideo c result) {e : Failure}
    (he : (exec (absorbVisual c ports result) t).1 = .error e) : ports.channel.Raises e := by
  obtain ⟨assembled, ha⟩ := takesVideo_iff.2 h
  rw [exec_absorbVisual_ok c ports ha] at he
  exact raisesOnly_publishQualityWarnings ports _ _ e he

section Ingest

variable {α : Type} {modality : Modality} {call : RuntimeCall} {answer : Except Failure α}
  {absorb : α → StreamAction Unit} {sequence : ℤ}

theorem raises_of_ingest (hn : Novel t modality sequence) (hroom : HasRoom c t)
    (habsorb : ∀ result l, answer = .ok result → ∀ e,
      (exec (absorb result) (withCall (withChunks t modality l) call)).1 = .error e →
        ports.channel.Raises e) {e : Failure}
    (he : (exec (ingest c ports modality call answer absorb sequence) t).1 = .error e) :
    ports.channel.Raises e := by
  obtain ⟨v, l, -, hv, -, ho⟩ := exists_offer_of_novel hn
  cases hans : answer with
  | ok result =>
      rw [exec_ingest_of_result c ports call answer absorb hans ho hv hroom] at he
      refine habsorb result l hans e ?_
      cases hexec : (exec (absorb result) (withCall (withChunks t modality l) call)).1 with
      | ok _ =>
          rw [hexec] at he
          cases he
      | error raised =>
          rw [hexec] at he
          exact congrArg Except.error (Except.error.inj he)
  | error failure =>
      have hadmit := exec_admit_of_lt c ports (t := withChunks t modality l)
        ((hasRoom_withChunks c).2 hroom)
      obtain ⟨outcome, notices, hattempt, hnone, -⟩ := exec_attemptRuntime_error (α := α) ports
        modality call failure (withChunks t modality l)
      rw [ingest, exec_bind_ok ho, if_neg hv, exec_bind_ok hadmit, hans] at he
      cases outcome with
      | error raised =>
          rw [exec_bind_error hattempt] at he
          exact raisesOnly_attemptRuntime (α := α) ports modality call (.error failure) _ e
            (by rw [hattempt, Except.error.inj he])
      | ok outcome =>
          rw [exec_bind_ok hattempt] at he
          cases outcome with
          | none => cases he
          | some result => exact absurd rfl (hnone result)

theorem mem_degradedModalities_ingest (hn : Novel t modality sequence) (hroom : HasRoom c t)
    (hans : ∃ failure, answer = .error failure) :
    modality ∈ (exec (ingest c ports modality call answer absorb sequence)
      t).2.state.degradedModalities := by
  obtain ⟨failure, hans⟩ := hans
  obtain ⟨v, l, -, hv, -, ho⟩ := exists_offer_of_novel hn
  obtain ⟨outcome, notices, hexec, -⟩ :=
    exec_ingest_of_failure c ports call answer absorb hans ho hv hroom
  rw [hexec]
  exact Finset.mem_insert_self _ _

end Ingest

variable {c}

theorem takesSpeech_congr {s s' : StreamingState} {result : SpeechResult}
    (htranscript : s'.transcript = s.transcript) (hevents : s'.speechEvents = s.speechEvents)
    (h : TakesSpeech c s result) : TakesSpeech c s' result := by
  obtain ⟨hwords, hahead, hhypotheses, hprosody, hpauses⟩ := h
  refine ⟨hwords, by rwa [htranscript], hhypotheses, hprosody, ?_⟩
  rwa [PausesFit, htranscript, hevents]

theorem takes_of_returns {r : Request} (hn : Novel t r.call.modality r.call.sequence)
    (h : Returns (serve c (r.over .reliable)) t) : Takes c t.state r := by
  have hcompletes := ((returns_serve_iff (r := r.over .reliable) hn).1 h).2
  obtain ⟨ports, call⟩ := r
  cases call with
  | audio sequence window =>
      intro result hans
      have hhandled : Handled { ports with channel := .reliable } t .audio
          (SpeechAbsorbed c { ports with channel := .reliable } t) (ports.speech window) :=
        hcompletes
      have hans : ports.speech window = .ok result := hans
      rw [hans] at hhandled
      obtain ⟨assembled, transcript, ha, ht, -, hpauses⟩ := hhandled
      refine takesSpeech_iff.1 ⟨assembled, transcript, ha, ht, fun hahead => ?_⟩
      obtain ⟨pauses, hdetected, -⟩ := hpauses hahead
      exact ⟨pauses, hdetected⟩
  | video sequence frames =>
      intro result hans
      have hhandled : Handled { ports with channel := .reliable } t .video
          (VisualAbsorbed c { ports with channel := .reliable } t) (ports.vision frames) :=
        hcompletes
      have hans : ports.vision frames = .ok result := hans
      rw [hans] at hhandled
      obtain ⟨assembled, ha, -⟩ := hhandled
      exact takesVideo_iff.1 ⟨assembled, ha⟩

theorem raises_of_takes {r : Request} (hn : Novel t r.call.modality r.call.sequence)
    (hroom : HasRoom c t) (h : Takes c t.state r) {channel : EventChannel} {e : Failure}
    (he : (exec (serve c (r.over channel)) t).1 = .error e) : channel.Raises e := by
  obtain ⟨ports, call⟩ := r
  cases call with
  | audio sequence window =>
      refine raises_of_ingest c { ports with channel := channel } hn hroom
        (fun result l hans e he => ?_) he
      have hframed : Framed t (withCall (withChunks t .audio l) (.transcribe window)) :=
        framed_withCall _
      exact raises_of_absorbSpeech c { ports with channel := channel }
        (takesSpeech_congr hframed.transcript hframed.speechEvents (h result hans)) he
  | video sequence frames =>
      refine raises_of_ingest c { ports with channel := channel } hn hroom
        (fun result l hans e he => ?_) he
      exact raises_of_absorbVisual c { ports with channel := channel } (h result hans) he

/-- What a runtime does cannot fail an admitted call exactly if the coordinator can take whatever
the runtime returned. -/
theorem containsOutput_iff {r : Request} (hn : Novel t r.call.modality r.call.sequence)
    (hroom : HasRoom c t) : ContainsOutput c t r ↔ Takes c t.state r := by
  constructor
  · intro h
    refine takes_of_returns hn (returns_iff.2 fun e he => ?_)
    obtain ⟨log, event, hnone⟩ := (h .reliable).1 e he
    cases hnone
  · intro h channel
    refine ⟨fun e he => raises_of_takes hn hroom h he, fun hfailed => ?_⟩
    obtain ⟨-, -, hans⟩ := hfailed
    obtain ⟨ports, _ | _⟩ := r
    · exact mem_degradedModalities_ingest c { ports with channel := channel } hn hroom hans
    · exact mem_degradedModalities_ingest c { ports with channel := channel } hn hroom hans

/-- A first window in which nothing is heard is taken. -/
theorem containsOutput_nothingHeard :
    ContainsOutput (sample fun _ => "") sampleStream (hearing 0 (.ok (nothingHeard 0))) := by
  refine (containsOutput_iff (by decide) (by decide)).2 fun result hans => ?_
  cases hans
  have hempty : ∀ {α : Type} {p : α → Prop}, ∀ a ∈ ([] : List α), p a := fun a ha => nomatch ha
  exact ⟨hempty, hempty, hempty, hempty, fun hahead => absurd hahead (by decide)⟩

def invertedWord : SpeechResult := ⟨sampleModel, [⟨"hola", 500, 400, .fin 1⟩], [], [], 0⟩

/-- The interval of the word is refused, and the refusal fails the call. -/
theorem not_containsOutput_invertedWord :
    ¬ContainsOutput (sample fun _ => "") sampleStream (hearing 0 (.ok invertedWord)) := by
  intro h
  obtain ⟨log, event, hnone⟩ := (h .reliable).1
    (.invalidInterval "interval ends before it starts: [500, 400)") (by rfl)
  cases hnone

end Coordinator

end OratoriaEngine
