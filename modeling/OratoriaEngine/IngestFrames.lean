import OratoriaEngine.IngestSteps
import OratoriaEngine.Lib.Unwinding

/-!
# What an ingest call leaves alone

A view of the stream that shows nothing an ingest call assigns is not changed by the
call, whether it returns or raises; and what a call does to any view can be told from
the chunk ledger of its modality and the depth of the queue.
-/

namespace OratoriaEngine.Coordinator

open Stateful

variable (c : Coordinator) (ports : StreamPorts) {β : Type} {f : Stream → β} {t u : Stream}

/-- The view shows neither the messages nor anything a transcription assigns. -/
structure BlindToSpeech (f : Stream → β) : Prop where
  published : ∀ t log, f { t with published := log } = f t
  ledger : ∀ t l, f { t with ledger := l } = f t
  state : ∀ t transcript events prosody, f { t with state := { t.state with
    transcript := transcript, speechEvents := events, prosody := prosody } } = f t

namespace BlindToSpeech

variable (hf : BlindToSpeech f)
include hf

theorem keeps_publish (event : OutboundEvent) : Keeps f (publish ports event) :=
  keeps_bind keeps_get fun _ => keeps_bind (keeps_raiseIf _) fun _ =>
    keeps_modify fun t => hf.published t _

theorem keeps_publishSpeech (events : List SpeechEvent) (isFinal : Bool) :
    Keeps f (publishSpeech ports events isFinal) := by
  apply keeps_bind keeps_get
  intro t
  cases (events.map (·.interval.stop.ms)).max? with
  | none => exact keeps_pure _
  | some latest => exact hf.keeps_publish ports _

theorem keeps_publishTranscript (isFinal : Bool) :
    Keeps f (publishTranscript ports isFinal) := by
  apply keeps_bind keeps_get
  intro t
  dsimp only
  split
  · exact keeps_pure _
  · exact hf.keeps_publish ports _

theorem keeps_settle (key : String) (e : SpeechEvent) : Keeps f (settle key e) := by
  refine keeps_bind (keeps_modify fun t => ?_) fun _ => keeps_bind keeps_get fun _ =>
    keeps_bind (keeps_ofExcept _) fun _ => keeps_modify fun t => hf.ledger t _
  exact hf.state t t.state.transcript _ t.state.prosody

theorem keeps_promote (stableThroughMs : ℤ) (entries : List (String × SpeechEvent)) :
    Keeps f (promote stableThroughMs entries) := by
  induction entries with
  | nil => exact keeps_pure _
  | cons entry rest ih =>
      rw [promote]
      split_ifs
      · exact ih
      · exact keeps_bind (hf.keeps_settle _ _) fun _ => keeps_bind ih fun _ => keeps_pure _

theorem keeps_addPauses (pauses : List SpeechEvent) : Keeps f (addPauses pauses) := by
  induction pauses with
  | nil => exact keeps_pure _
  | cons pause rest ih =>
      apply keeps_bind keeps_get
      intro t
      split_ifs
      · exact ih
      · exact keeps_bind (hf.keeps_settle _ _) fun _ => keeps_bind ih fun _ => keeps_pure _

theorem keeps_derivePauses (newlyFinal : List SpeechEvent) :
    Keeps f (derivePauses c newlyFinal) := by
  apply keeps_bind keeps_get
  intro t
  dsimp only
  split_ifs
  · exact keeps_pure _
  · cases speechProvenance t.state newlyFinal with
    | none => exact keeps_pure _
    | some provenance => exact keeps_bind (keeps_ofExcept _) fun pauses => hf.keeps_addPauses pauses

theorem keeps_finalizeThrough (stableThroughMs : ℤ) :
    Keeps f (finalizeThrough c ports stableThroughMs) := by
  apply keeps_bind keeps_get
  intro t
  split_ifs
  · exact keeps_pure _
  · refine keeps_bind (keeps_ofExcept _) fun _ => keeps_bind (keeps_ofExcept _) fun transcript => ?_
    have hassign : Keeps f (modifyState fun s => { s with transcript := transcript }) :=
      fun t => hf.state t transcript t.state.speechEvents t.state.prosody
    exact keeps_bind hassign fun _ => keeps_bind (hf.keeps_promote _ _) fun _ =>
      keeps_bind (hf.keeps_derivePauses c _) fun _ =>
        keeps_bind (hf.keeps_publishTranscript ports _) fun _ => hf.keeps_publishSpeech ports _ _

theorem keeps_absorbSpeech (result : SpeechResult) : Keeps f (absorbSpeech c ports result) := by
  refine keeps_bind (keeps_ofExcept _) fun assembled => keeps_bind keeps_get fun _ =>
    keeps_bind (keeps_ofExcept _) fun transcript => keeps_bind (keeps_modify fun t => ?_) fun _ =>
      keeps_bind (hf.keeps_publishSpeech ports _ _) fun _ => hf.keeps_finalizeThrough c ports _
  exact hf.state t transcript _ _

end BlindToSpeech

/-- The view shows neither a warning of the quality nor anything an observation assigns. -/
structure BlindToVision (f : Stream → β) : Prop where
  warnings : ∀ t event, event.type = .qualityWarning →
    f { t with published := t.published ++ [event] } = f t
  state : ∀ t events quality, f { t with state := { t.state with
    visualEvents := events, quality := quality } } = f t

theorem BlindToVision.keeps_absorbVisual (hf : BlindToVision f) (result : VisualResult) :
    Keeps f (absorbVisual c ports result) := by
  refine keeps_bind (keeps_ofExcept _) fun assembled =>
    keeps_bind (keeps_modify fun t => hf.state t _ _) fun _ => ?_
  unfold publishQualityWarnings
  dsimp only
  split_ifs
  · exact keeps_pure _
  · exact keeps_bind keeps_get fun t => keeps_bind keeps_get fun _ =>
      keeps_bind (keeps_raiseIf _) fun _ => keeps_modify fun _ => hf.warnings _ _ rfl

/-- What a refused or a failing call of the modality assigns, beyond its chunk ledger and the
log of the runtimes, does not show. -/
structure BlindToRefusal (f : Stream → β) (modality : Modality) : Prop where
  backpressure : ∀ t requests, f { t with backpressure := requests } = f t
  degraded : ∀ t notices, (∀ m ∈ notices, m.type = .processingDegraded) →
    f { withDegraded t modality with published := t.published ++ notices } = f t

section Ingest

variable {α : Type} (modality : Modality) (call : RuntimeCall) (answer : Except Failure α)
  (absorb : α → StreamAction Unit) (sequence : ℤ)

/-- What shows of a call: it stops at the chunk ledger, at admission or at its runtime, or it
absorbs what the runtime returned. -/
def shown (f : Stream → β) (t : Stream) : β :=
  match (t.state.ledgerFor modality).offer sequence with
  | .error _ => f t
  | .ok (verdict, l) =>
      if verdict = .duplicate ∨ ¬HasRoom c t then f (withChunks t modality l)
      else match answer with
        | .error _ => f (withCall (withChunks t modality l) call)
        | .ok result => f (exec (absorb result) (withCall (withChunks t modality l) call)).2

variable {modality}

theorem view_ingest (hf : BlindToRefusal f modality) (t : Stream) :
    f (exec (ingest c ports modality call answer absorb sequence) t).2 =
      shown c modality call answer absorb sequence f t := by
  unfold shown
  cases hoffer : (t.state.ledgerFor modality).offer sequence with
  | error e => simp only [ingest, exec_bind, exec_offer_error hoffer]
  | ok offered =>
      obtain ⟨verdict, l⟩ := offered
      have ho := exec_offer_ok hoffer
      dsimp only
      by_cases hverdict : verdict = .duplicate
      · simp only [ingest, exec_bind, ho, exec_pure, hverdict, true_or, if_true]
      by_cases hroom : HasRoom c t
      · rw [if_neg (not_or.2 ⟨hverdict, not_not.2 hroom⟩)]
        cases hans : answer with
        | error failure =>
            obtain ⟨r, notices, hexec, hnotices⟩ := exec_ingest_of_failure c ports call
              (.error failure) absorb rfl ho hverdict hroom
            rw [hexec]
            exact hf.degraded (withCall (withChunks t modality l) call) notices
              fun m hm => by rw [hnotices m hm]; rfl
        | ok result => rw [exec_ingest_of_result c ports call _ absorb rfl ho hverdict hroom]
      · obtain ⟨e, requests, hexec⟩ := exec_ingest_of_full c ports call answer absorb ho hverdict
          hroom
        rw [hexec, if_pos (Or.inr hroom)]
        exact hf.backpressure _ _

theorem view_ingest_eq (hf : BlindToRefusal f modality)
    (hchunks : ∀ t l, f (withChunks t modality l) = f t)
    (hcall : ∀ t, f (withCall t call) = f t) (habsorb : ∀ result, Keeps f (absorb result))
    (t : Stream) :
    f (exec (ingest c ports modality call answer absorb sequence) t).2 = f t := by
  rw [view_ingest c ports call answer absorb sequence hf]
  unfold shown
  cases (t.state.ledgerFor modality).offer sequence with
  | error e => rfl
  | ok offered =>
      obtain ⟨verdict, l⟩ := offered
      dsimp only
      split_ifs
      · exact hchunks t l
      · cases answer with
        | error failure => exact (hcall _).trans (hchunks t l)
        | ok result => exact (habsorb result _).trans ((hcall _).trans (hchunks t l))

/-- Two streams the view cannot tell apart still look the same after a call that meets the same
chunk ledger, the same depth and the same answer on both. -/
theorem view_ingest_congr (hf : BlindToRefusal f modality) (ports' : StreamPorts)
    {absorb' : α → StreamAction Unit} (hview : f t = f u)
    (hledger : t.state.ledgerFor modality = u.state.ledgerFor modality)
    (hdepth : t.state.inFlight = u.state.inFlight)
    (hchunks : ∀ l, f (withChunks t modality l) = f (withChunks u modality l))
    (hcall : ∀ l, f (withCall (withChunks t modality l) call) =
      f (withCall (withChunks u modality l) call))
    (habsorb : ∀ result s s', f s = f s' → f (exec (absorb result) s).2 =
      f (exec (absorb' result) s').2) :
    f (exec (ingest c ports modality call answer absorb sequence) t).2 =
      f (exec (ingest c ports' modality call answer absorb' sequence) u).2 := by
  rw [view_ingest c ports call answer absorb sequence hf,
    view_ingest c ports' call answer absorb' sequence hf]
  have hroom : HasRoom c t ↔ HasRoom c u := by
    unfold HasRoom
    rw [hdepth]
  unfold shown
  rw [← hledger]
  cases (t.state.ledgerFor modality).offer sequence with
  | error e => exact hview
  | ok offered =>
      obtain ⟨verdict, l⟩ := offered
      simp only [hroom]
      split_ifs
      · exact hchunks l
      · cases answer with
        | error failure => exact hcall l
        | ok result => exact habsorb result _ _ (hcall l)

end Ingest

end OratoriaEngine.Coordinator
