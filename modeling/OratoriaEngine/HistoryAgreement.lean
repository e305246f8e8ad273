import OratoriaEngine.IngestSteps
import OratoriaEngine.Lib.Growth

/-!
# Agreement of the stores that hold finalized speech evidence

Three stores describe a finalized event: the dictionary of speech events, the
evidence ledger and the published messages. `Coherent` states that they agree,
and `Extends` that what is final stays as it is. Every stage of a call after the
assignment of the assembled events keeps the one and yields the other.
-/

namespace OratoriaEngine.Coordinator

open Stateful

variable {c : Coordinator} (ports : StreamPorts) {t t' : Stream}

/-- The finalized history: the final event stored under each key. -/
def finalAt (t : Stream) (key : String) : Option SpeechEvent :=
  (t.state.speechEvents.get? key).filter (·.isFinal)

theorem finalAt_eq_some {key : String} {e : SpeechEvent} :
    finalAt t key = some e ↔ t.state.speechEvents.get? key = some e ∧ e.isFinal = true := by
  simp [finalAt, Option.filter_eq_some_iff]

theorem finalAt_congr (h : t'.state.speechEvents = t.state.speechEvents) :
    finalAt t' = finalAt t := by
  funext key
  rw [finalAt, finalAt, h]

def speechPayloads (m : OutboundEvent) : List SpeechPayload :=
  match m.payload with
  | .events events => events
  | _ => []

/-- A final event the ledger knows. -/
def Settled (t : Stream) (e : SpeechEvent) : Prop :=
  finalAt t e.id.value = some e ∧ ∃ entry, t.ledger.current? e.id = some entry

/-- The three stores agree: keys are identifiers, every ledger entry is final and
has the interval of the final event it names, and every event published as final
is settled with exactly that content. -/
structure Coherent (t : Stream) : Prop where
  keyed : ∀ key e, t.state.speechEvents.get? key = some e → e.id.value = key
  ledgered : ∀ id entry, t.ledger.current? id = some entry →
    entry.isFinal = true ∧ ∃ e, finalAt t id.value = some e ∧ entry.interval = e.interval
  published : ∀ m ∈ t.published, m.type = .speechEventFinal → ∀ p ∈ speechPayloads m,
    ∃ e, Settled t e ∧ speechPayload e = p

theorem coherent_fresh (runId : RunId) (sessionId : SessionId) :
    Coherent (Stream.fresh runId sessionId) where
  keyed key e h := by simp [Stream.fresh, StreamingState.fresh] at h
  ledgered id entry h := by simp [Stream.fresh] at h
  published m hm := by simp [Stream.fresh] at hm

/-- A message sent after `t` mentions events that are final in `t` only as final. -/
def Respects (t : Stream) (m : OutboundEvent) : Prop :=
  ∀ p ∈ speechPayloads m, m.type = .speechEventFinal ∨ finalAt t p.id = none

/-- The finalized history and the ledger grow, and the log is continued by messages
that respect what was final. -/
structure Extends (t t' : Stream) : Prop where
  history : Grows (finalAt t) (finalAt t')
  ledger : Grows t.ledger.current? t'.ledger.current?
  published : ∃ log, t'.published = t.published ++ log ∧ ∀ m ∈ log, Respects t m

namespace Extends

theorem refl (t : Stream) : Extends t t :=
  ⟨.refl _, .refl _, [], by simp, by simp⟩

theorem trans {t'' : Stream} (h : Extends t t') (h' : Extends t' t'') : Extends t t'' := by
  obtain ⟨log, hlog, hresp⟩ := h.published
  obtain ⟨log', hlog', hresp'⟩ := h'.published
  refine ⟨h.history.trans h'.history, h.ledger.trans h'.ledger, log ++ log', ?_, ?_⟩
  · rw [hlog', hlog, List.append_assoc]
  · intro m hm p hp
    rcases List.mem_append.1 hm with hm | hm
    · exact hresp m hm p hp
    · rcases hresp' m hm p hp with hfinal | hnone
      · exact Or.inl hfinal
      · exact Or.inr (h.history.eq_none hnone)

theorem settled (h : Extends t t') {e : SpeechEvent} (he : Settled t e) : Settled t' e := by
  obtain ⟨hfinal, entry, hentry⟩ := he
  exact ⟨h.history _ _ hfinal, entry, h.ledger _ _ hentry⟩

end Extends

/-- One stage of a call keeps the agreement and extends the history. -/
def Advances (t t' : Stream) : Prop := Coherent t → Coherent t' ∧ Extends t t'

theorem Advances.refl (t : Stream) : Advances t t := fun h => ⟨h, .refl t⟩

theorem Advances.trans {t'' : Stream} (h : Advances t t') (h' : Advances t' t'') :
    Advances t t'' := by
  intro ht
  obtain ⟨hc, he⟩ := h ht
  obtain ⟨hc', he'⟩ := h' hc
  exact ⟨hc', he.trans he'⟩

/-- A stage that stores nothing advances when its messages respect the history and
publish as final only what is settled. -/
theorem advances_of_log {log : List OutboundEvent}
    (hd : t'.state.speechEvents = t.state.speechEvents) (hl : t'.ledger = t.ledger)
    (hp : t'.published = t.published ++ log) (hresp : ∀ m ∈ log, Respects t m)
    (hsettled : ∀ m ∈ log, m.type = .speechEventFinal → ∀ p ∈ speechPayloads m,
      ∃ e, Settled t e ∧ speechPayload e = p) : Advances t t' := by
  intro h
  have hf : finalAt t' = finalAt t := finalAt_congr hd
  have hset : ∀ e, Settled t e → Settled t' e := fun e he => by
    rw [Settled, hf, hl]
    exact he
  refine ⟨⟨?_, ?_, ?_⟩, ⟨?_, ?_, log, hp, hresp⟩⟩
  · rw [hd]
    exact h.keyed
  · rw [hf, hl]
    exact h.ledgered
  · intro m hm htype p hpay
    rw [hp] at hm
    rcases List.mem_append.1 hm with hm | hm
    · obtain ⟨e, he, heq⟩ := h.published m hm htype p hpay
      exact ⟨e, hset e he, heq⟩
    · obtain ⟨e, he, heq⟩ := hsettled m hm htype p hpay
      exact ⟨e, hset e he, heq⟩
  · rw [hf]
    exact .refl _
  · rw [hl]
    exact .refl _

/-- Messages without speech events are no part of the agreement. -/
theorem advances_of_silent {log : List OutboundEvent}
    (hd : t'.state.speechEvents = t.state.speechEvents) (hl : t'.ledger = t.ledger)
    (hp : t'.published = t.published ++ log) (hsilent : ∀ m ∈ log, speechPayloads m = []) :
    Advances t t' := by
  refine advances_of_log hd hl hp ?_ ?_
  · intro m hm p hpay
    rw [hsilent m hm] at hpay
    cases hpay
  · intro m hm _ p hpay
    rw [hsilent m hm] at hpay
    cases hpay

theorem advances_of_framed (h : Framed t t') : Advances t t' := by
  obtain ⟨notices, hp, hn⟩ := h.published
  apply advances_of_silent h.speechEvents h.ledger hp
  intro m hm
  obtain ⟨modality, reason, detail, hpay⟩ := hn m hm
  rw [speechPayloads, hpay]

theorem exec_record_of_not_contains {e : SpeechEvent} (h : t.ledger.contains e.id = false) :
    ∃ ledger entry, exec (record e) t = (.ok (), { t with ledger := ledger }) ∧
      ledger.current? e.id = some entry ∧ entry.isFinal = true ∧ entry.interval = e.interval ∧
      ∀ id, id ≠ e.id → ledger.current? id = t.ledger.current? id := by
  obtain ⟨ledger, happend, hself, hother⟩ := EvidenceLedger.append_of_not_contains h e.interval
    e.provenance true [("type", e.type.value), ("raw_text", e.rawText)]
  refine ⟨ledger, _, ?_, hself, rfl, rfl, hother⟩
  simp only [record, exec_get, h, exec_bind, exec_ofExcept, happend, exec_modify,
    Bool.false_eq_true, if_false]

/-- A final event whose key holds no final event can be settled: it is stored and
recorded, and nothing else changes. -/
theorem exec_settle (hc : Coherent t) {e : SpeechEvent} (hfinal : e.isFinal = true)
    (hfree : finalAt t e.id.value = none) :
    ∃ u, exec (settle e.id.value e) t = (.ok (), u) ∧ Coherent u ∧ Extends t u ∧ Settled u e ∧
      u.state.speechEvents = t.state.speechEvents.set e.id.value e ∧
      u.state.transcript = t.state.transcript ∧ u.state.runId = t.state.runId := by
  have hunknown : t.ledger.contains e.id = false := by
    by_contra hk
    obtain ⟨entry, hentry⟩ := EvidenceLedger.exists_current_of_contains (by simpa using hk)
    obtain ⟨-, e', he', -⟩ := hc.ledgered _ _ hentry
    rw [hfree] at he'
    cases he'
  let stored : Stream := { t with state := { t.state with
    speechEvents := t.state.speechEvents.set e.id.value e } }
  obtain ⟨ledger, entry, hexec, hself, hef, hei, hother⟩ :=
    exec_record_of_not_contains (t := stored) hunknown
  have hat : ∀ key, finalAt { stored with ledger := ledger } key =
      if key = e.id.value then some e else finalAt t key := by
    intro key
    by_cases hk : key = e.id.value
    · subst hk
      rw [if_pos rfl, finalAt_eq_some]
      exact ⟨Dict.get?_set_self _ _ _, hfinal⟩
    · rw [if_neg hk, finalAt, finalAt]
      exact congrArg _ (Dict.get?_set_ne _ _ hk)
  have hext : Extends t { stored with ledger := ledger } := by
    refine ⟨fun key e' hk => ?_, fun id en hid => ?_, [], by simp [stored], by simp⟩
    · have hne : key ≠ e.id.value := fun h => by
        rw [h, hfree] at hk
        cases hk
      rw [hat, if_neg hne, hk]
    · have hne : id ≠ e.id := fun h => by
        rw [h, EvidenceLedger.current?_eq_none_of_contains hunknown] at hid
        cases hid
      rw [← hid]
      exact hother id hne
  refine ⟨{ stored with ledger := ledger }, ?_, ⟨?_, ?_, ?_⟩, hext, ⟨?_, entry, hself⟩, rfl, rfl,
    rfl⟩
  · simp only [settle, exec_bind, exec_modifyState]
    exact hexec
  · intro key e' hk
    change (t.state.speechEvents.set e.id.value e).get? key = some e' at hk
    rw [Dict.get?_set] at hk
    split_ifs at hk with hkey
    · cases hk
      exact hkey.symm
    · exact hc.keyed _ _ hk
  · intro id en hid
    by_cases hne : id = e.id
    · subst hne
      rw [hself] at hid
      cases hid
      exact ⟨hef, e, by rw [hat, if_pos rfl], hei⟩
    · obtain ⟨hf, e', he', hi⟩ := hc.ledgered id en (by rw [← hid]; exact (hother id hne).symm)
      exact ⟨hf, e', hext.history _ _ he', hi⟩
  · intro m hm htype p hp
    obtain ⟨e', he', heq⟩ := hc.published m hm htype p hp
    exact ⟨e', hext.settled he', heq⟩
  · rw [hat, if_pos rfl]

theorem exec_promote (stableThroughMs : ℤ) (l : List (String × SpeechEvent)) (hc : Coherent t)
    (hnodup : (l.map Prod.fst).Nodup)
    (hl : ∀ entry ∈ l, t.state.speechEvents.get? entry.1 = some entry.2) :
    ∃ events u, exec (promote stableThroughMs l) t = (.ok events, u) ∧ Coherent u ∧
      Extends t u ∧ ∀ e ∈ events, Settled u e := by
  induction l generalizing t with
  | nil => exact ⟨[], t, rfl, hc, .refl t, by simp⟩
  | cons entry l ih =>
      obtain ⟨key, e⟩ := entry
      rw [List.map_cons, List.nodup_cons] at hnodup
      have hget := hl _ List.mem_cons_self
      have hrest := fun entry hm => hl entry (List.mem_cons_of_mem _ hm)
      by_cases hskip : (e.isFinal || decide (stableThroughMs < e.interval.stop.ms)) = true
      · obtain ⟨events, u, hexec, hu⟩ := ih hc hnodup.2 hrest
        exact ⟨events, u, by simpa only [promote, if_pos hskip] using hexec, hu⟩
      · have hprov : e.isFinal = false := by
          cases hf : e.isFinal with
          | false => rfl
          | true => simp [hf] at hskip
        have hkey : e.finalize.id.value = key := by
          rw [SpeechEvent.finalize_id]
          exact hc.keyed _ _ hget
        have hfree : finalAt t e.finalize.id.value = none := by
          rw [hkey, finalAt, hget]
          simp [Option.filter, hprov]
        obtain ⟨u, hexec, hcu, heu, hsu, hdu, -⟩ := exec_settle hc e.finalize_isFinal hfree
        rw [hkey] at hexec hdu
        have hkept : ∀ entry ∈ l, u.state.speechEvents.get? entry.1 = some entry.2 := by
          intro entry hm
          have hne : entry.1 ≠ key := fun h => hnodup.1 (List.mem_map.2 ⟨entry, hm, h⟩)
          rw [hdu, Dict.get?_set_ne _ _ hne]
          exact hrest entry hm
        obtain ⟨events, w, hpromote, hcw, hew, hsw⟩ := ih hcu hnodup.2 hkept
        refine ⟨e.finalize :: events, w, ?_, hcw, heu.trans hew, ?_⟩
        · simp only [promote, if_neg hskip, exec_bind, hexec, hpromote, exec_pure]
        · intro e' he'
          rcases List.mem_cons.1 he' with rfl | he'
          · exact hew.settled hsu
          · exact hsw e' he'

theorem exec_addPauses (pauses : List SpeechEvent) (hc : Coherent t) :
    ∃ events u, exec (addPauses pauses) t = (.ok events, u) ∧ Coherent u ∧ Extends t u ∧
      ∀ e ∈ events, Settled u e := by
  induction pauses generalizing t with
  | nil => exact ⟨[], t, rfl, hc, .refl t, by simp⟩
  | cons pause rest ih =>
      by_cases hk : t.state.speechEvents.contains pause.id.value = true
      · obtain ⟨events, u, hexec, hu⟩ := ih hc
        refine ⟨events, u, ?_, hu⟩
        simp only [addPauses, exec_get_bind, if_pos hk, hexec]
      · have hfree : finalAt t pause.finalize.id.value = none := by
          rw [SpeechEvent.finalize_id, finalAt,
            (Dict.contains_eq_false_iff _ _).1 (by simpa using hk)]
          rfl
        obtain ⟨u, hexec, hcu, heu, hsu, -⟩ := exec_settle hc pause.finalize_isFinal hfree
        rw [SpeechEvent.finalize_id] at hexec
        obtain ⟨events, w, hrest, hcw, hew, hsw⟩ := ih hcu
        refine ⟨pause.finalize :: events, w, ?_, hcw, heu.trans hew, ?_⟩
        · rw [addPauses, exec_get_bind, if_neg hk, exec_bind_ok hexec, exec_bind_ok hrest,
            exec_pure]
        · intro e he
          rcases List.mem_cons.1 he with rfl | he
          · exact hew.settled hsu
          · exact hsw e he

theorem exec_derivePauses (newlyFinal : List SpeechEvent) (hc : Coherent t) :
    ∃ r u, exec (derivePauses c newlyFinal) t = (r, u) ∧ Coherent u ∧ Extends t u ∧
      ∀ events, r = .ok events → ∀ e ∈ events, Settled u e := by
  simp only [derivePauses, exec_get_bind]
  split_ifs with hfew
  · exact ⟨.ok [], t, rfl, hc, .refl t, by simp⟩
  · cases speechProvenance t.state newlyFinal with
    | none => exact ⟨.ok [], t, rfl, hc, .refl t, by simp⟩
    | some provenance =>
        cases hp : silentPauses c.digest t.state.transcript.finalTokens
            c.configuration.silenceThresholdMs provenance t.state.runId with
        | error e =>
            exact ⟨.error e, t, by simp only [exec_bind, exec_ofExcept, hp], hc, .refl t, by simp⟩
        | ok pauses =>
            obtain ⟨events, u, hexec, hcu, heu, hsu⟩ := exec_addPauses pauses hc
            refine ⟨.ok events, u, by simp only [exec_bind, exec_ofExcept, hp, hexec], hcu, heu, ?_⟩
            rintro _ ⟨⟩
            exact hsu

theorem advances_publishSpeech_final {events : List SpeechEvent}
    (hs : ∀ e ∈ events, Settled t e) :
    Advances t (exec (publishSpeech ports events true) t).2 := by
  obtain ⟨r, log, hexec, hlog⟩ := exec_publishSpeech ports events true t
  rw [hexec]
  refine advances_of_log rfl rfl rfl (fun m hm p _ => Or.inl (hlog m hm).1) ?_
  intro m hm _ p hp
  rw [speechPayloads, (hlog m hm).2] at hp
  obtain ⟨e, he, rfl⟩ := List.mem_map.1 hp
  exact ⟨e, hs e he, rfl⟩

theorem advances_publishTranscript (isFinal : Bool) :
    Advances t (exec (publishTranscript ports isFinal) t).2 := by
  obtain ⟨r, log, hexec, hlog⟩ := exec_publishTranscript ports isFinal t
  rw [hexec]
  refine advances_of_silent rfl rfl rfl fun m hm => ?_
  obtain ⟨tokens, hpay⟩ := hlog m hm
  rw [speechPayloads, hpay]

theorem advances_announce {events : List SpeechEvent} (hs : ∀ e ∈ events, Settled t e) :
    Advances t (exec (do publishTranscript ports true; publishSpeech ports events true) t).2 := by
  intro hc
  obtain ⟨hc', he'⟩ := advances_publishTranscript ports true hc
  rw [exec_bind]
  rcases hx : exec (publishTranscript ports true) t with ⟨r | _, u⟩ <;> rw [hx] at hc' he'
  · exact ⟨hc', he'⟩
  · obtain ⟨hc'', he''⟩ := advances_publishSpeech_final ports
      (fun e he => he'.settled (hs e he)) hc'
    exact ⟨hc'', he'.trans he''⟩

theorem advances_finalizeThrough (stableThroughMs : ℤ) :
    Advances t (exec (finalizeThrough c ports stableThroughMs) t).2 := by
  intro hc
  simp only [finalizeThrough, exec_get_bind]
  split_ifs with hbehind
  · exact Advances.refl t hc
  cases hb : MonotonicTime.of stableThroughMs with
  | error e =>
      rw [exec_ofExcept_error_bind]
      exact Advances.refl t hc
  | ok boundary =>
      cases hf : t.state.transcript.finalizeThrough boundary with
      | error e =>
          rw [exec_ofExcept_ok_bind, hf, exec_ofExcept_error_bind]
          exact Advances.refl t hc
      | ok transcript =>
          let frozen : Stream := { t with state := { t.state with transcript := transcript } }
          have hlog : frozen.published = t.published ++ [] := (List.append_nil _).symm
          have hfrozen : Advances t frozen := advances_of_silent rfl rfl hlog (by simp)
          obtain ⟨hc₀, he₀⟩ := hfrozen hc
          obtain ⟨newlyFinal, u, hpromote, hc₁, he₁, hs₁⟩ :=
            exec_promote stableThroughMs t.state.speechEvents.entries hc₀
              t.state.speechEvents.nodup fun entry hm => (Dict.get?_eq_some_iff_mem _ _ _).2 hm
          obtain ⟨r, w, hderive, hc₂, he₂, hs₂⟩ := exec_derivePauses (c := c) newlyFinal hc₁
          have hupto := (he₀.trans he₁).trans he₂
          rw [exec_ofExcept_ok_bind, hf, exec_ofExcept_ok_bind, exec_modifyState_bind,
            exec_bind_ok hpromote]
          cases r with
          | error e =>
              rw [exec_bind_error hderive]
              exact ⟨hc₂, hupto⟩
          | ok pauses =>
              have hall : ∀ e ∈ newlyFinal ++ pauses, Settled w e := by
                intro e he
                rcases List.mem_append.1 he with he | he
                · exact he₂.settled (hs₁ e he)
                · exact hs₂ pauses rfl e he
              obtain ⟨hc₃, he₃⟩ := advances_announce ports hall hc₂
              rw [exec_bind_ok hderive]
              exact ⟨hc₃, hupto.trans he₃⟩

end OratoriaEngine.Coordinator
