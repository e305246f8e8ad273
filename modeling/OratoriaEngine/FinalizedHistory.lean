import OratoriaEngine.HistoryAgreement

/-!
# Finalized speech evidence over a run

What is final and published stays as it is over a run, in the dictionary, in the
ledger and on the wire, as long as no processed call re-emits the identifier of an
event that is already final. A call that does so overwrites the final event.
-/

namespace OratoriaEngine.Coordinator

open Stateful

variable {c : Coordinator} (ports : StreamPorts) {t : Stream}

/-- The assembled events of the window are all new or still provisional. -/
def Revisable (t : Stream) (assembled : AssembledSpeech) : Prop :=
  ∀ e ∈ assembled.events, finalAt t e.id.value = none

/-- The call reaches the assignment of its events, and one of them carries the
identifier of an event that is already final. -/
def Reemits (c : Coordinator) (t : Stream) (r : Request) : Prop :=
  ∃ sequence window result assembled transcript,
    r.call = .audio sequence window ∧ Novel t .audio sequence ∧ HasRoom c t ∧
    r.ports.speech window = .ok result ∧ c.speechAssembler.assemble result = .ok assembled ∧
    t.state.transcript.withProvisional assembled.tokens = .ok transcript ∧ ¬Revisable t assembled

theorem finalAt_withSpeech {result : SpeechResult} {assembled : AssembledSpeech}
    (ha : c.speechAssembler.assemble result = .ok assembled) (hr : Revisable t assembled)
    (transcript : Transcript) : finalAt (withSpeech t transcript assembled) = finalAt t := by
  funext key
  rcases get?_withSpeech_cases t transcript assembled key with ⟨e, he, rfl, hget⟩ | hget
  · have hprov := SpeechAssembler.provisional_of_mem_events ha he
    rw [hr e he, finalAt, hget]
    simp [Option.filter, hprov]
  · rw [finalAt, finalAt, hget]

theorem advances_withSpeech {result : SpeechResult} {assembled : AssembledSpeech}
    (ha : c.speechAssembler.assemble result = .ok assembled) (hr : Revisable t assembled)
    (transcript : Transcript) : Advances t (withSpeech t transcript assembled) := by
  intro hc
  have hf := finalAt_withSpeech ha hr transcript
  have hset : ∀ e, Settled t e → Settled (withSpeech t transcript assembled) e := fun e he => by
    rw [Settled, hf]
    exact he
  refine ⟨⟨?_, ?_, ?_⟩, ⟨?_, .refl _, [], by simp [withSpeech], by simp⟩⟩
  · intro key e hget
    rcases get?_withSpeech_cases t transcript assembled key with ⟨e', -, hkey, hget'⟩ | hget'
    · cases hget'.symm.trans hget
      exact hkey
    · exact hc.keyed key e (hget'.symm.trans hget)
  · rw [hf]
    exact hc.ledgered
  · intro m hm htype p hp
    obtain ⟨e, he, heq⟩ := hc.published m hm htype p hp
    exact ⟨e, hset e he, heq⟩
  · rw [hf]
    exact .refl _

theorem advances_publishSpeech_provisional {events : List SpeechEvent}
    (hr : ∀ e ∈ events, finalAt t e.id.value = none) :
    Advances t (exec (publishSpeech ports events false) t).2 := by
  obtain ⟨r, log, hexec, hlog⟩ := exec_publishSpeech ports events false t
  rw [hexec]
  refine advances_of_log rfl rfl rfl ?_ ?_
  · intro m hm p hp
    rw [speechPayloads, (hlog m hm).2] at hp
    obtain ⟨e, he, rfl⟩ := List.mem_map.1 hp
    exact Or.inr (hr e he)
  · intro m hm htype
    rw [(hlog m hm).1] at htype
    cases htype

theorem advances_absorbSpeech {result : SpeechResult}
    (hr : ∀ assembled transcript, c.speechAssembler.assemble result = .ok assembled →
      t.state.transcript.withProvisional assembled.tokens = .ok transcript →
      Revisable t assembled) :
    Advances t (exec (absorbSpeech c ports result) t).2 := by
  cases ha : c.speechAssembler.assemble result with
  | error e =>
      rw [exec_absorbSpeech_assemble_error c ports ha]
      exact .refl t
  | ok assembled =>
      cases ht : t.state.transcript.withProvisional assembled.tokens with
      | error e =>
          rw [exec_absorbSpeech_transcript_error c ports ha ht]
          exact .refl t
      | ok transcript =>
          rw [exec_absorbSpeech_ok c ports ha ht]
          have hrev := hr assembled transcript ha ht
          have hassign := advances_withSpeech ha hrev transcript
          have hpartial : ∀ e ∈ assembled.events,
              finalAt (withSpeech t transcript assembled) e.id.value = none := by
            rw [finalAt_withSpeech ha hrev]
            exact hrev
          have hpublish := hassign.trans (advances_publishSpeech_provisional ports hpartial)
          rw [exec_bind]
          rcases hx : exec (publishSpeech ports assembled.events false)
              (withSpeech t transcript assembled) with ⟨e | _, u⟩ <;> rw [hx] at hpublish
          · exact hpublish
          · exact hpublish.trans (advances_finalizeThrough ports _)

theorem advances_absorbVisual (result : VisualResult) :
    Advances t (exec (absorbVisual c ports result) t).2 := by
  cases ha : c.visualAssembler.assemble result with
  | error e =>
      rw [exec_absorbVisual_error c ports ha]
      exact .refl t
  | ok assembled =>
      rw [exec_absorbVisual_ok c ports ha]
      obtain ⟨r, log, hexec, hlog⟩ :=
        exec_publishQualityWarnings ports assembled.availability (withVisual t assembled)
      rw [hexec]
      have hsame : (withVisual t assembled).published ++ log = t.published ++ log := rfl
      refine advances_of_silent rfl rfl hsame fun m hm => ?_
      obtain ⟨windows, hpay⟩ := hlog m hm
      rw [speechPayloads, hpay]

theorem advances_after {r : Request} (h : ¬Reemits c t r) : Advances t (c.after t r) := by
  obtain ⟨ports, call⟩ := r
  cases call with
  | audio sequence window =>
      rcases after_audio_cases c ports (t := t) window with hf | ⟨result, l, hans, hn, hroom, hx⟩
      · exact advances_of_framed hf
      · have hcall : Framed t (withCall (withChunks t .audio l) (.transcribe window)) :=
          framed_withCall _
        rw [hx]
        refine (advances_of_framed hcall).trans
          (advances_absorbSpeech ports fun assembled tr ha ht => ?_)
        rw [hcall.transcript] at ht
        by_contra hrev
        refine h ⟨sequence, window, result, assembled, tr, rfl, hn, hroom, hans, ha, ht, ?_⟩
        rw [Revisable, finalAt_congr hcall.speechEvents] at hrev
        exact hrev
  | video sequence frames =>
      rcases after_video_cases c ports (t := t) frames with hf | ⟨result, l, -, -, -, hx⟩
      · exact advances_of_framed hf
      · have hcall : Framed t (withCall (withChunks t .video l) (.observe frames)) :=
          framed_withCall _
        rw [hx]
        exact (advances_of_framed hcall).trans (advances_absorbVisual ports result)

theorem not_reemits_of_no_final {r : Request} (h : ∀ key, finalAt t key = none) :
    ¬Reemits c t r := by
  rintro ⟨_, _, _, assembled, _, -, -, -, -, -, -, hrev⟩
  exact hrev fun e _ => h _

theorem not_reemits_of_no_events {r : Request}
    (h : ∀ window result, r.ports.speech window = .ok result → result.events = []) :
    ¬Reemits c t r := by
  rintro ⟨_, window, result, assembled, _, -, -, -, hans, ha, -, hrev⟩
  have hevents := (SpeechAssembler.assemble_eq_ok ha).2.1
  rw [h window result hans, List.mapM_nil, Except.pure_eq_ok] at hevents
  apply hrev
  intro e he
  rw [← hevents] at he
  cases he

/-- No call of the run re-emits a final event. -/
def NeverReemits (c : Coordinator) (t : Stream) (rs : List Request) : Prop :=
  c.EveryCall (fun t r => ¬Reemits c t r) t rs

theorem advances_runCalls {rs : List Request} (h : NeverReemits c t rs) :
    Advances t (c.runCalls t rs) :=
  c.runCalls_induction (I := Advances t) (fun _ _ hi hr => hi.trans (advances_after hr)) (.refl t) h

def PublishedFinal (t : Stream) (e : SpeechEvent) : Prop :=
  finalAt t e.id.value = some e ∧
    ∃ m ∈ t.published, m.type = .speechEventFinal ∧ speechPayload e ∈ speechPayloads m

/-- From `u` to `w` the event stayed the same event in the dictionary, is final with
its interval in the ledger, and was not mentioned otherwise in a message. -/
def Kept (u w : Stream) (e : SpeechEvent) : Prop :=
  finalAt w e.id.value = some e ∧
    (∃ entry, w.ledger.current? e.id = some entry ∧ entry.isFinal = true ∧
      entry.interval = e.interval) ∧
    ∀ m ∈ w.published.drop u.published.length, ∀ p ∈ speechPayloads m, p.id = e.id.value →
      m.type = .speechEventFinal ∧ p = speechPayload e

/-- Whenever a final event was published, it is kept by every continuation of the run. -/
def KeepsHistory (c : Coordinator) (t : Stream) (rs : List Request) : Prop :=
  ∀ before later rest, rs = before ++ later ++ rest → ∀ e,
    PublishedFinal (c.runCalls t before) e →
      Kept (c.runCalls t before) (c.runCalls t (before ++ later)) e

theorem kept_of_advances {u w : Stream} (hu : Coherent u) (h : Advances u w) {e : SpeechEvent}
    (he : PublishedFinal u e) : Kept u w e := by
  obtain ⟨hw, hext⟩ := h hu
  obtain ⟨hfinal, m, hm, htype, hp⟩ := he
  obtain ⟨e', hs, heq⟩ := hu.published m hm htype _ hp
  have hid : e'.id = e.id := EventId.ext_value (congrArg SpeechPayload.id heq)
  obtain ⟨-, entry, hentry⟩ := hs
  rw [hid] at hentry
  have hfinal' := hext.history _ _ hfinal
  obtain ⟨hf, e₂, he₂, hi⟩ := hw.ledgered _ _ (hext.ledger _ _ hentry)
  rw [hfinal'] at he₂
  cases he₂
  refine ⟨hfinal', ⟨entry, hext.ledger _ _ hentry, hf, hi⟩, fun m hm p hp hpid => ?_⟩
  obtain ⟨log, hlog, hresp⟩ := hext.published
  rw [hlog, List.drop_left] at hm
  have htype : m.type = .speechEventFinal := by
    rcases hresp m hm p hp with htype | hnone
    · exact htype
    · rw [hpid, hfinal] at hnone
      cases hnone
  obtain ⟨e₃, hs₃, heq₃⟩ := hw.published m
    (by rw [hlog]; exact List.mem_append_right _ hm) htype p hp
  have hkey : e₃.id.value = e.id.value := (congrArg SpeechPayload.id heq₃).trans hpid
  have hsame := hs₃.1
  rw [hkey, hfinal'] at hsame
  cases hsame
  exact ⟨htype, heq₃.symm⟩

/-- Over a run whose calls never re-emit a final event, finalized speech evidence is
never rewritten. -/
theorem keepsHistory_of_neverReemits (hc : Coherent t) (rs : List Request)
    (h : NeverReemits c t rs) : KeepsHistory c t rs := by
  rintro before later rest rfl e he
  rw [NeverReemits, List.append_assoc, everyCall_append, everyCall_append] at h
  obtain ⟨hbefore, hlater, -⟩ := h
  rw [runCalls_append]
  exact kept_of_advances (advances_runCalls hbefore hc).1 (advances_runCalls hlater) he

def pauseHeard (startMs endMs stableThroughMs : ℤ) : SpeechResult where
  modelVersion := sampleModel
  words := []
  events := [⟨.filledPause, startMs, endMs, .fin 1, "", none⟩]
  prosody := []
  stableThroughMs := stableThroughMs

/-- The digest of `run-1|filled_pause|0|`, the identity of a filled pause in the first
bucket of the run. -/
def pauseDigest : String → String := fun _ => "94db8c0d48215e2eb3c33889069d3818"

/-- The first window settles the pause; the second one, which overlaps it, re-decodes it. -/
def pauseHeardTwice : List Request :=
  [hearing 0 (.ok (pauseHeard 0 100 500)), hearing 1 (.ok (pauseHeard 10 200 0))]

def settledPause : SpeechEvent where
  id := deriveEventId pauseDigest sampleRunId "filled_pause" 0 ""
  type := .filledPause
  interval := ⟨.zero, ⟨100, by decide⟩, 250, by decide, by decide⟩
  confidence := ⟨1, .raw, Confidence.certain.nonneg, Confidence.certain.le_one⟩
  provenance := (sample pauseDigest).speechAssembler.provenance (pauseHeard 0 100 500)
  rawText := ""
  contextRole := none
  isFinal := true
  heard := rfl
  worded := by decide
  roleless := by decide

/-- The pause stays settled when the next window hears nothing. -/
theorem keepsHistory_of_pauseHeardOnce :
    PublishedFinal ((sample pauseDigest).runCalls sampleStream
        [hearing 0 (.ok (pauseHeard 0 100 500))]) settledPause ∧
      KeepsHistory (sample pauseDigest) sampleStream
        [hearing 0 (.ok (pauseHeard 0 100 500)), hearing 1 (.ok (nothingHeard 1000))] := by
  refine ⟨⟨by decide, by decide⟩, keepsHistory_of_neverReemits (coherent_fresh _ _) _
    ⟨not_reemits_of_no_final fun key => rfl, not_reemits_of_no_events ?_, trivial⟩⟩
  intro window result h
  cases h
  rfl

theorem not_keepsHistory_of_pauseHeardTwice :
    Coherent sampleStream ∧ ¬KeepsHistory (sample pauseDigest) sampleStream pauseHeardTwice := by
  refine ⟨coherent_fresh _ _, fun h => ?_⟩
  have hkept := h [hearing 0 (.ok (pauseHeard 0 100 500))]
    [hearing 1 (.ok (pauseHeard 10 200 0))] [] rfl settledPause ⟨by decide, by decide⟩
  exact absurd hkept.1 (by decide)

end OratoriaEngine.Coordinator
