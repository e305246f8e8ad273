import OratoriaEngine.IngestFrames

/-!
# The modalities do not interfere

Speech and vision share a stream, a ledger, an admission counter and a channel. What a
session knows of the speech is what it would know without any video call, and what it
knows of the picture is what it would know without any audio call, whatever the runtimes
return and however often they fail.
-/

namespace OratoriaEngine

/-- A message about what was said: transcripts and speech events, provisional or final. -/
def ServerMessageType.isSpeech : ServerMessageType → Bool
  | .transcriptPartial | .transcriptFinal | .speechEventPartial | .speechEventFinal => true
  | _ => false

/-- What a session knows of the speech, and what it told the client about it. -/
structure SpeechSide where
  transcript : Transcript
  speechEvents : Dict String SpeechEvent
  prosody : List ProsodyReading
  audioChunks : ChunkLedger
  ledger : EvidenceLedger
  messages : List OutboundEvent

structure VisualSide where
  visualEvents : Dict String VisualEvent
  quality : QualityReport
  videoChunks : ChunkLedger

def RuntimeCall.window? : RuntimeCall → Option AudioWindow
  | .transcribe window => some window
  | .observe _ => none

def RuntimeCall.frames? : RuntimeCall → Option (List VisualFrame)
  | .transcribe _ => none
  | .observe frames => some frames

namespace Stream

variable (t : Stream)

def speechSide : SpeechSide where
  transcript := t.state.transcript
  speechEvents := t.state.speechEvents
  prosody := t.state.prosody
  audioChunks := t.state.audioChunks
  ledger := t.ledger
  messages := t.published.filter (·.type.isSpeech)

def visualSide : VisualSide where
  visualEvents := t.state.visualEvents
  quality := t.state.quality
  videoChunks := t.state.videoChunks

/-- The windows the speech runtime was called with, in order. -/
def heard : List AudioWindow := t.runtimeCalls.filterMap RuntimeCall.window?

/-- The batches the vision runtime was called with, in order. -/
def seen : List (List VisualFrame) := t.runtimeCalls.filterMap RuntimeCall.frames?

end Stream

/-- Two runtimes, each a process that answers from the calls it has received itself. -/
structure Processes where
  speech : List AudioWindow → AudioWindow → Except Failure SpeechResult
  vision : List (List VisualFrame) → List VisualFrame → Except Failure VisualResult

/-- One call, and a channel that takes or refuses each message for its own sake. -/
structure Arrival where
  call : Coordinator.IngestCall
  channel : EventChannel
  evenhanded : ∀ log log' event, channel.publish log event = channel.publish log' event

namespace Coordinator

open Stateful

variable (c : Coordinator) (p : Processes)

/-- What the runtimes answer next, and the channel of the call. -/
def portsAt (t : Stream) (channel : EventChannel) : StreamPorts :=
  ⟨p.speech t.heard, p.vision t.seen, channel⟩

def arrive (t : Stream) (a : Arrival) : Stream := c.after t ⟨portsAt p t a.channel, a.call⟩

def runArrivals (t : Stream) (arrivals : List Arrival) : Stream := arrivals.foldl (arrive c p) t

/-- Everything an audio call depends on. -/
structure SpeechView where
  side : SpeechSide
  runId : RunId
  sessionId : SessionId
  inFlight : ℤ
  heard : List AudioWindow

def speechView (t : Stream) : SpeechView :=
  ⟨t.speechSide, t.state.runId, t.state.sessionId, t.state.inFlight, t.heard⟩

/-- The streams agree on everything an audio call depends on. -/
structure SameSpeech (t u : Stream) : Prop where
  transcript : t.state.transcript = u.state.transcript
  speechEvents : t.state.speechEvents = u.state.speechEvents
  prosody : t.state.prosody = u.state.prosody
  audioChunks : t.state.audioChunks = u.state.audioChunks
  ledger : t.ledger = u.ledger
  messages : t.published.filter (·.type.isSpeech) = u.published.filter (·.type.isSpeech)
  runId : t.state.runId = u.state.runId
  sessionId : t.state.sessionId = u.state.sessionId
  inFlight : t.state.inFlight = u.state.inFlight
  heard : t.heard = u.heard

theorem speechView_eq_iff {t u : Stream} : speechView t = speechView u ↔ SameSpeech t u := by
  simp only [speechView, Stream.speechSide, SpeechView.mk.injEq, SpeechSide.mk.injEq]
  constructor
  · rintro ⟨⟨h₁, h₂, h₃, h₄, h₅, h₆⟩, h₇, h₈, h₉, h₁₀⟩
    exact ⟨h₁, h₂, h₃, h₄, h₅, h₆, h₇, h₈, h₉, h₁₀⟩
  · rintro ⟨h₁, h₂, h₃, h₄, h₅, h₆, h₇, h₈, h₉, h₁₀⟩
    exact ⟨⟨h₁, h₂, h₃, h₄, h₅, h₆⟩, h₇, h₈, h₉, h₁₀⟩

section Alike

variable (ports : StreamPorts)
  (hjudge : ∀ log log' event, ports.channel.publish log event =
    ports.channel.publish log' event)
include hjudge

theorem alike_publish (event : OutboundEvent) :
    Alike speechView (publish ports event) (publish ports event) := by
  apply alike_get_bind
  intro s s' _
  rw [hjudge s'.published s.published]
  refine alike_bind (alike_raiseIf _) fun _ => alike_modify fun t u h => ?_
  have hsame := speechView_eq_iff.1 h
  exact speechView_eq_iff.2 { hsame with
    messages := by
      change (t.published ++ [event]).filter _ = (u.published ++ [event]).filter _
      rw [List.filter_append, List.filter_append, hsame.messages] }

theorem alike_publishSpeech (events : List SpeechEvent) (isFinal : Bool) :
    Alike speechView (publishSpeech ports events isFinal) (publishSpeech ports events isFinal) := by
  apply alike_get_bind
  intro s s' h
  rw [(speechView_eq_iff.1 h).sessionId]
  cases (events.map (·.interval.stop.ms)).max? with
  | none => exact alike_pure _
  | some latest => exact alike_publish ports hjudge _

theorem alike_publishTranscript (isFinal : Bool) :
    Alike speechView (publishTranscript ports isFinal) (publishTranscript ports isFinal) := by
  apply alike_get_bind
  intro s s' h
  have hsame := speechView_eq_iff.1 h
  rw [hsame.transcript, hsame.sessionId]
  dsimp only
  split
  · exact alike_pure _
  · exact alike_publish ports hjudge _

end Alike

theorem alike_settle (key : String) (e : SpeechEvent) :
    Alike speechView (settle key e) (settle key e) := by
  refine alike_bind (alike_modify fun t u h => ?_) fun _ => ?_
  · have hsame := speechView_eq_iff.1 h
    exact speechView_eq_iff.2 { hsame with
      speechEvents := congrArg (Dict.set · key e) hsame.speechEvents }
  · apply alike_get_bind
    intro s s' h
    rw [(speechView_eq_iff.1 h).ledger]
    refine alike_bind (alike_ofExcept _) fun ledger => alike_modify fun t u h => ?_
    exact speechView_eq_iff.2 { speechView_eq_iff.1 h with ledger := rfl }

theorem alike_promote (stableThroughMs : ℤ) (entries : List (String × SpeechEvent)) :
    Alike speechView (promote stableThroughMs entries) (promote stableThroughMs entries) := by
  induction entries with
  | nil => exact alike_pure _
  | cons entry rest ih =>
      rw [promote]
      split_ifs
      · exact ih
      · exact alike_bind (alike_settle _ _) fun _ => alike_bind ih fun _ => alike_pure _

theorem alike_addPauses (pauses : List SpeechEvent) :
    Alike speechView (addPauses pauses) (addPauses pauses) := by
  induction pauses with
  | nil => exact alike_pure _
  | cons pause rest ih =>
      apply alike_get_bind
      intro s s' h
      rw [(speechView_eq_iff.1 h).speechEvents]
      split_ifs
      · exact ih
      · exact alike_bind (alike_settle _ _) fun _ => alike_bind ih fun _ => alike_pure _

theorem alike_derivePauses (newlyFinal : List SpeechEvent) :
    Alike speechView (derivePauses c newlyFinal) (derivePauses c newlyFinal) := by
  apply alike_get_bind
  intro s s' h
  have hsame := speechView_eq_iff.1 h
  have hprovenance :
      speechProvenance s.state newlyFinal = speechProvenance s'.state newlyFinal := by
    rw [speechProvenance, speechProvenance, hsame.speechEvents]
  rw [hprovenance, hsame.transcript, hsame.runId]
  dsimp only
  split_ifs
  · exact alike_pure _
  · cases speechProvenance s'.state newlyFinal with
    | none => exact alike_pure _
    | some provenance => exact alike_bind (alike_ofExcept _) fun pauses => alike_addPauses pauses

section Absorb

variable (ports : StreamPorts)
  (hjudge : ∀ log log' event, ports.channel.publish log event =
    ports.channel.publish log' event)
include hjudge

theorem alike_finalizeThrough (stableThroughMs : ℤ) :
    Alike speechView (finalizeThrough c ports stableThroughMs)
      (finalizeThrough c ports stableThroughMs) := by
  apply alike_get_bind
  intro s s' h
  have hsame := speechView_eq_iff.1 h
  rw [hsame.transcript, hsame.speechEvents]
  split_ifs
  · exact alike_pure _
  · refine alike_bind (alike_ofExcept _) fun _ => alike_bind (alike_ofExcept _) fun transcript => ?_
    refine alike_bind (alike_modify fun t u ht => ?_) fun _ => ?_
    · exact speechView_eq_iff.2 { speechView_eq_iff.1 ht with transcript := rfl }
    · exact alike_bind (alike_promote _ _) fun newlyFinal =>
        alike_bind (alike_derivePauses c newlyFinal) fun _ =>
          alike_bind (alike_publishTranscript ports hjudge _) fun _ =>
            alike_publishSpeech ports hjudge _ _

theorem alike_absorbSpeech (result : SpeechResult) :
    Alike speechView (absorbSpeech c ports result) (absorbSpeech c ports result) := by
  refine alike_bind (alike_ofExcept _) fun assembled => alike_get_bind fun s s' h => ?_
  rw [(speechView_eq_iff.1 h).transcript]
  apply alike_bind (alike_ofExcept _)
  intro transcript
  refine alike_bind (alike_modify fun t u ht => ?_) fun _ =>
    alike_bind (alike_publishSpeech ports hjudge _ _) fun _ =>
      alike_finalizeThrough c ports hjudge _
  have hsame := speechView_eq_iff.1 ht
  exact speechView_eq_iff.2 { hsame with
    transcript := rfl
    speechEvents := congrArg (Dict.setAll · _) hsame.speechEvents
    prosody := congrArg (· ++ _) hsame.prosody }

end Absorb

theorem blindToRefusal_speechView (modality : Modality) : BlindToRefusal speechView modality where
  backpressure _ _ := rfl
  degraded t notices hnotices := by
    refine speechView_eq_iff.2 ⟨rfl, rfl, rfl, rfl, rfl, ?_, rfl, rfl, rfl, rfl⟩
    change (t.published ++ notices).filter _ = _
    have hnone : notices.filter (·.type.isSpeech) = [] := by
      apply List.filter_eq_nil_iff.2
      intro m hm
      rw [hnotices m hm]
      decide
    rw [List.filter_append, hnone, List.append_nil]

theorem sameSpeech_withChunks {t u : Stream} (h : SameSpeech t u) (l : ChunkLedger) :
    SameSpeech (withChunks t .audio l) (withChunks u .audio l) :=
  ⟨h.transcript, h.speechEvents, h.prosody, rfl, h.ledger, h.messages, h.runId, h.sessionId,
    h.inFlight, h.heard⟩

theorem sameSpeech_withCall {t u : Stream} (h : SameSpeech t u) (call : RuntimeCall) :
    SameSpeech (withCall t call) (withCall u call) :=
  { h with
    heard := by
      change (t.runtimeCalls ++ [call]).filterMap _ = (u.runtimeCalls ++ [call]).filterMap _
      have hheard : t.runtimeCalls.filterMap _ = u.runtimeCalls.filterMap _ := h.heard
      rw [List.filterMap_append, List.filterMap_append, hheard] }

theorem speechView_arrive {t u : Stream} (h : speechView t = speechView u) {a : Arrival}
    (ha : a.call.modality = .audio) :
    speechView (c.arrive p t a) = speechView (c.arrive p u a) := by
  obtain ⟨⟨sequence, window⟩ | ⟨sequence, frames⟩, channel, hjudge⟩ := a
  · have hsame := speechView_eq_iff.1 h
    have habsorb : ∀ result s s', speechView s = speechView s' →
        speechView (exec (absorbSpeech c (portsAt p t channel) result) s).2 =
          speechView (exec (absorbSpeech c (portsAt p u channel) result) s').2 :=
      fun result s s' hs =>
        (alike_absorbSpeech c (portsAt p t channel) hjudge result s s' hs).2
    have hcall : ∀ l, speechView (withCall (withChunks t .audio l) (.transcribe window)) =
        speechView (withCall (withChunks u .audio l) (.transcribe window)) := fun l =>
      speechView_eq_iff.2 (sameSpeech_withCall (sameSpeech_withChunks hsame l) _)
    have hrun : c.arrive p u ⟨.audio sequence window, channel, hjudge⟩ =
        (exec (ingest c (portsAt p u channel) .audio (.transcribe window)
          (p.speech t.heard window) (absorbSpeech c (portsAt p u channel)) sequence) u).2 := by
      rw [hsame.heard]
      rfl
    rw [hrun]
    exact view_ingest_congr c (portsAt p t channel) (.transcribe window) (p.speech t.heard window)
      (absorbSpeech c (portsAt p t channel)) sequence (blindToRefusal_speechView .audio)
      (portsAt p u channel) h hsame.audioChunks hsame.inFlight
      (fun l => speechView_eq_iff.2 (sameSpeech_withChunks hsame l)) hcall habsorb
  · cases ha

theorem speechView_arrive_video (t : Stream) {a : Arrival} (ha : a.call.modality = .video) :
    speechView (c.arrive p t a) = speechView t := by
  obtain ⟨⟨sequence, window⟩ | ⟨sequence, frames⟩, channel, hjudge⟩ := a
  · cases ha
  · have hblind : BlindToVision speechView := by
      refine ⟨fun t event hevent => ?_, fun t events quality => rfl⟩
      refine speechView_eq_iff.2 ⟨rfl, rfl, rfl, rfl, rfl, ?_, rfl, rfl, rfl, rfl⟩
      change (t.published ++ [event]).filter _ = _
      rw [List.filter_append, List.filter_cons_of_neg (by rw [hevent]; decide), List.filter_nil,
        List.append_nil]
    have hcall : ∀ t, speechView (withCall t (.observe frames)) = speechView t := fun t => by
      refine speechView_eq_iff.2 ⟨rfl, rfl, rfl, rfl, rfl, rfl, rfl, rfl, rfl, ?_⟩
      change (t.runtimeCalls ++ [_]).filterMap _ = t.runtimeCalls.filterMap _
      rw [List.filterMap_append]
      exact List.append_nil _
    exact view_ingest_eq c (portsAt p t channel) (.observe frames) (p.vision t.seen frames)
      (absorbVisual c (portsAt p t channel)) sequence (blindToRefusal_speechView .video)
      (fun _ _ => rfl) hcall (hblind.keeps_absorbVisual c (portsAt p t channel)) t

/-- Everything a video call depends on. -/
structure VisualView where
  side : VisualSide
  inFlight : ℤ
  seen : List (List VisualFrame)

def visualView (t : Stream) : VisualView := ⟨t.visualSide, t.state.inFlight, t.seen⟩

theorem blindToRefusal_visualView (modality : Modality) : BlindToRefusal visualView modality :=
  ⟨fun _ _ => rfl, fun _ _ _ => rfl⟩

/-- The streams agree on everything a video call depends on. -/
structure SameVision (t u : Stream) : Prop where
  visualEvents : t.state.visualEvents = u.state.visualEvents
  quality : t.state.quality = u.state.quality
  videoChunks : t.state.videoChunks = u.state.videoChunks
  inFlight : t.state.inFlight = u.state.inFlight
  seen : t.seen = u.seen

theorem visualView_eq_iff {t u : Stream} : visualView t = visualView u ↔ SameVision t u := by
  simp only [visualView, Stream.visualSide, VisualView.mk.injEq, VisualSide.mk.injEq]
  constructor
  · rintro ⟨⟨h₁, h₂, h₃⟩, h₄, h₅⟩
    exact ⟨h₁, h₂, h₃, h₄, h₅⟩
  · rintro ⟨h₁, h₂, h₃, h₄, h₅⟩
    exact ⟨⟨h₁, h₂, h₃⟩, h₄, h₅⟩

theorem visualView_absorbVisual (ports ports' : StreamPorts) (result : VisualResult)
    {t u : Stream} (h : visualView t = visualView u) :
    visualView (exec (absorbVisual c ports result) t).2 =
      visualView (exec (absorbVisual c ports' result) u).2 := by
  cases hassemble : c.visualAssembler.assemble result with
  | error e =>
      rw [exec_absorbVisual_error c ports hassemble, exec_absorbVisual_error c ports' hassemble]
      exact h
  | ok assembled =>
      rw [exec_absorbVisual_ok c ports hassemble, exec_absorbVisual_ok c ports' hassemble]
      obtain ⟨r, log, hexec, -⟩ :=
        exec_publishQualityWarnings ports assembled.availability (withVisual t assembled)
      obtain ⟨r', log', hexec', -⟩ :=
        exec_publishQualityWarnings ports' assembled.availability (withVisual u assembled)
      rw [hexec, hexec']
      have hsame := visualView_eq_iff.1 h
      refine visualView_eq_iff.2 { hsame with
        visualEvents := congrArg (Dict.setAll · _) hsame.visualEvents
        quality := ?_ }
      exact congrArg (QualityReport.extended · _ _) hsame.quality

theorem visualView_arrive {t u : Stream} (h : visualView t = visualView u) {a : Arrival}
    (ha : a.call.modality = .video) :
    visualView (c.arrive p t a) = visualView (c.arrive p u a) := by
  obtain ⟨⟨sequence, window⟩ | ⟨sequence, frames⟩, channel, hjudge⟩ := a
  · cases ha
  · have hsame := visualView_eq_iff.1 h
    have hchunks : ∀ l, SameVision (withChunks t .video l) (withChunks u .video l) := fun l =>
      ⟨hsame.visualEvents, hsame.quality, rfl, hsame.inFlight, hsame.seen⟩
    have hcall : ∀ l, visualView (withCall (withChunks t .video l) (.observe frames)) =
        visualView (withCall (withChunks u .video l) (.observe frames)) := fun l => by
      refine visualView_eq_iff.2 { hchunks l with seen := ?_ }
      change (t.runtimeCalls ++ [_]).filterMap _ = (u.runtimeCalls ++ [_]).filterMap _
      have hseen : t.runtimeCalls.filterMap _ = u.runtimeCalls.filterMap _ := hsame.seen
      rw [List.filterMap_append, List.filterMap_append, hseen]
    have hrun : c.arrive p u ⟨.video sequence frames, channel, hjudge⟩ =
        (exec (ingest c (portsAt p u channel) .video (.observe frames)
          (p.vision t.seen frames) (absorbVisual c (portsAt p u channel)) sequence) u).2 := by
      rw [hsame.seen]
      rfl
    rw [hrun]
    exact view_ingest_congr c (portsAt p t channel) (.observe frames) (p.vision t.seen frames)
      (absorbVisual c (portsAt p t channel)) sequence (blindToRefusal_visualView .video)
      (portsAt p u channel) h hsame.videoChunks hsame.inFlight
      (fun l => visualView_eq_iff.2 (hchunks l)) hcall
      fun result _ _ hs => visualView_absorbVisual c _ _ result hs

theorem visualView_arrive_audio (t : Stream) {a : Arrival} (ha : a.call.modality = .audio) :
    visualView (c.arrive p t a) = visualView t := by
  obtain ⟨⟨sequence, window⟩ | ⟨sequence, frames⟩, channel, hjudge⟩ := a
  · have hblind : BlindToSpeech visualView := ⟨fun _ _ => rfl, fun _ _ => rfl, fun _ _ _ _ => rfl⟩
    have hcall : ∀ t, visualView (withCall t (.transcribe window)) = visualView t := fun t => by
      refine visualView_eq_iff.2 ⟨rfl, rfl, rfl, rfl, ?_⟩
      change (t.runtimeCalls ++ [_]).filterMap _ = t.runtimeCalls.filterMap _
      rw [List.filterMap_append]
      exact List.append_nil _
    exact view_ingest_eq c (portsAt p t channel) (.transcribe window) (p.speech t.heard window)
      (absorbSpeech c (portsAt p t channel)) sequence (blindToRefusal_visualView .audio)
      (fun _ _ => rfl) hcall (hblind.keeps_absorbSpeech c (portsAt p t channel)) t
  · cases ha

theorem modality_eq_video {call : IngestCall} (h : decide (call.modality = .audio) = false) :
    call.modality = .video := by
  cases call with
  | audio sequence window => cases h
  | video sequence frames => rfl

/-- Neither modality can tell whether the other was used. -/
theorem modalities_isolated (t : Stream) (arrivals : List Arrival) :
    (c.runArrivals p t arrivals).speechSide =
        (c.runArrivals p t (arrivals.filter (·.call.modality = .audio))).speechSide ∧
      (c.runArrivals p t arrivals).visualSide =
        (c.runArrivals p t (arrivals.filter (·.call.modality = .video))).visualSide := by
  constructor
  · have hspeech := foldl_view_eq_filter speechView (arrive c p)
      (fun a => decide (a.call.modality = .audio))
      (fun s a ha => speechView_arrive_video c p s (modality_eq_video ha))
      (fun s s' a ha h => speechView_arrive c p h (of_decide_eq_true ha)) (Eq.refl (speechView t))
      arrivals
    exact congrArg SpeechView.side hspeech
  · have hvisual := foldl_view_eq_filter visualView (arrive c p)
      (fun a => decide (a.call.modality = .video))
      (fun s a ha => visualView_arrive_audio c p s (by
        obtain ⟨call, channel, hjudge⟩ := a
        cases call with
        | audio sequence window => rfl
        | video sequence frames => cases ha))
      (fun s s' a ha h => visualView_arrive c p h (of_decide_eq_true ha)) (Eq.refl (visualView t))
      arrivals
    exact congrArg VisualView.side hvisual

end Coordinator

end OratoriaEngine
