import OratoriaEngine.ReconcileSteps

/-!
# What a refused ingest call leaves behind

The chunk ledger accepts the sequence number before anything else can fail. A
call that raises therefore leaves a trace, and its retry is answered as a
duplicate, unless the chunk ledger itself refused the call.
-/

namespace OratoriaEngine.Coordinator

open Stateful

variable (c : Coordinator) (ports : StreamPorts) {t : Stream}

/-- When the call raises, the state and the evidence ledger are what they were, and
sending it again is not answered as a duplicate. -/
def LeavesNoTrace (t : Stream) (r : Request) : Prop :=
  ∀ e, (exec (serve c r) t).1 = .error e →
    (c.after t r).state = t.state ∧ (c.after t r).ledger = t.ledger ∧
      ∀ ports', (exec (serve c ⟨ports', r.call⟩) (c.after t r)).1 ≠ .ok .duplicate

/-- The client was told of the degradation before, or the channel takes the notice. -/
def NoticeDelivered (t : Stream) (modality : Modality) (failure : Failure) : Prop :=
  modality ∈ t.state.degradedModalities ∨
    Delivers ports.channel t.published [degradationEvent t modality failure]

/-- The messages of a window are delivered, and if the stable point advances, the
pauses can be built and the announcement of what became final is delivered too. -/
def Reconciles (t : Stream) (assembled : AssembledSpeech) : Prop :=
  Delivers ports.channel t.published (speechMessages t.state assembled.events false) ∧
    (t.state.transcript.finalizedFrontier.ms < assembled.stableThroughMs →
      ∃ pauses, detectedPauses c t.state assembled.stableThroughMs = .ok pauses ∧
        Delivers ports.channel
          (t.published ++ speechMessages t.state assembled.events false)
          (transcriptMessages (reconciledState t.state assembled.stableThroughMs pauses) ++
            speechMessages (reconciledState t.state assembled.stableThroughMs pauses)
              (announced t.state assembled.stableThroughMs pauses) true))

def SpeechAbsorbed (t : Stream) (result : SpeechResult) : Prop :=
  ∃ assembled transcript, c.speechAssembler.assemble result = .ok assembled ∧
    t.state.transcript.withProvisional assembled.tokens = .ok transcript ∧
    Reconciles c ports (withSpeech t transcript assembled) assembled

def VisualAbsorbed (t : Stream) (result : VisualResult) : Prop :=
  ∃ assembled, c.visualAssembler.assemble result = .ok assembled ∧
    Delivers ports.channel t.published (qualityMessages t.state assembled.availability)

def Handled {α : Type} (t : Stream) (modality : Modality) (A : α → Prop) :
    Except Failure α → Prop
  | .error failure => NoticeDelivered ports t modality failure
  | .ok result => A result

/-- Nothing that follows admission fails. -/
def Completes (t : Stream) (r : Request) : Prop :=
  match r.call with
  | .audio _ window =>
      Handled r.ports t .audio (SpeechAbsorbed c r.ports t) (r.ports.speech window)
  | .video _ frames =>
      Handled r.ports t .video (VisualAbsorbed c r.ports t) (r.ports.vision frames)

theorem returns_publishSpeech_bind_iff {α : Type} {f : Unit → StreamAction α}
    (events : List SpeechEvent) (isFinal : Bool) (t : Stream) :
    Returns (publishSpeech ports events isFinal >>= f) t ↔
      Delivers ports.channel t.published (speechMessages t.state events isFinal) ∧
        Returns (f ()) { t with
          published := t.published ++ speechMessages t.state events isFinal } := by
  rw [← returns_publishAll_bind_iff]
  exact returns_congr (exec_bind_congr (exec_publishSpeech_eq ports events isFinal t))

theorem returns_announce_iff (events : List SpeechEvent) (t : Stream) :
    Returns (do publishTranscript ports true; publishSpeech ports events true) t ↔
      Delivers ports.channel t.published
        (transcriptMessages t.state ++ speechMessages t.state events true) := by
  rw [returns_congr (exec_bind_congr (exec_publishTranscript_eq ports t)),
    returns_publishAll_bind_iff, delivers_append]
  refine and_congr_right fun _ => ?_
  rw [returns_congr (exec_publishSpeech_eq ports events true _)]
  exact returns_publishAll_iff ports _ _

theorem returns_finalizeThrough_iff (stableThroughMs : ℤ) (t : Stream) :
    Returns (finalizeThrough c ports stableThroughMs) t ↔
      (t.state.transcript.finalizedFrontier.ms < stableThroughMs →
        ∃ pauses, detectedPauses c t.state stableThroughMs = .ok pauses ∧
          Delivers ports.channel t.published
            (transcriptMessages (reconciledState t.state stableThroughMs pauses) ++
              speechMessages (reconciledState t.state stableThroughMs pauses)
                (announced t.state stableThroughMs pauses) true)) := by
  by_cases h : t.state.transcript.finalizedFrontier.ms < stableThroughMs
  · obtain ⟨ledger, hexec⟩ := exec_finalizeThrough_of_ahead c ports h
    simp only [h, true_implies]
    unfold Returns
    rw [hexec]
    cases hp : detectedPauses c t.state stableThroughMs with
    | error e => simp
    | ok pauses =>
        have ha := returns_announce_iff ports (announced t.state stableThroughMs pauses)
          { t with state := reconciledState t.state stableThroughMs pauses, ledger := ledger }
        simp only [Except.ok.injEq, exists_eq_left']
        exact ha
  · have hexec := exec_finalizeThrough_of_behind c ports (not_lt.1 h)
    simp only [h, false_implies, iff_true]
    exact ⟨(), by rw [hexec]⟩

theorem returns_absorbSpeech_iff (result : SpeechResult) (t : Stream) :
    Returns (absorbSpeech c ports result) t ↔ SpeechAbsorbed c ports t result := by
  cases ha : c.speechAssembler.assemble result with
  | error e =>
      simp only [Returns, exec_absorbSpeech_assemble_error c ports ha, SpeechAbsorbed, ha,
        reduceCtorEq, exists_false, false_and]
  | ok assembled =>
      cases ht : t.state.transcript.withProvisional assembled.tokens with
      | error e =>
          simp only [Returns, exec_absorbSpeech_transcript_error c ports ha ht, SpeechAbsorbed, ha,
            Except.ok.injEq, reduceCtorEq, exists_false, false_iff, not_exists]
          rintro _ _ ⟨rfl, hmerge, -⟩
          rw [ht] at hmerge
          cases hmerge
      | ok transcript =>
          have hrest : Returns (absorbSpeech c ports result) t ↔
              Reconciles c ports (withSpeech t transcript assembled) assembled := by
            unfold Returns
            rw [exec_absorbSpeech_ok c ports ha ht]
            apply (returns_publishSpeech_bind_iff ports _ _ _).trans
            rw [returns_finalizeThrough_iff]
            rfl
          rw [hrest]
          constructor
          · exact fun h => ⟨assembled, transcript, ha, ht, h⟩
          · rintro ⟨_, _, ha', ht', h⟩
            cases ha.symm.trans ha'
            cases ht.symm.trans ht'
            exact h

theorem returns_absorbVisual_iff (result : VisualResult) (t : Stream) :
    Returns (absorbVisual c ports result) t ↔ VisualAbsorbed c ports t result := by
  cases ha : c.visualAssembler.assemble result with
  | error e =>
      simp only [Returns, exec_absorbVisual_error c ports ha, VisualAbsorbed, ha, reduceCtorEq,
        exists_false, false_and]
  | ok assembled =>
      simp only [Returns, exec_absorbVisual_ok c ports ha, VisualAbsorbed, ha, Except.ok.injEq,
        exists_eq_left', exec_publishQualityWarnings_eq]
      exact returns_publishAll_iff ports _ _

theorem returns_degrade_iff (modality : Modality) (failure : Failure) (t : Stream) :
    Returns (degrade ports modality failure) t ↔ NoticeDelivered ports t modality failure := by
  by_cases hm : modality ∈ t.state.degradedModalities
  · rw [Returns, exec_degrade_eq, if_pos hm]
    simp [NoticeDelivered, hm]
  · have hexec : exec (degrade ports modality failure) t =
        exec (publishAll ports [degradationEvent t modality failure])
          (withDegraded t modality) := by
      rw [exec_degrade_eq, if_neg hm, exec_publishAll_singleton]
    rw [returns_congr hexec, returns_publishAll_iff, NoticeDelivered, or_iff_right hm]
    rfl

theorem returns_attemptRuntime_error_iff {α : Type} (modality : Modality) (call : RuntimeCall)
    (failure : Failure) (t : Stream) :
    Returns (attemptRuntime (α := α) ports modality call (.error failure)) t ↔
      NoticeDelivered ports t modality failure := by
  rw [attemptRuntime, returns_bind_of_ok (exec_modifyState _ _), returns_finallyDo_iff,
    returns_bind_of_ok (exec_modify _ _)]
  refine (returns_bind_pure_iff (g := fun _ => none)).trans ?_
  exact returns_degrade_iff ports modality failure _

section Ingest

variable {α : Type} {modality : Modality} (call : RuntimeCall) (answer : Except Failure α)
  (absorb : α → StreamAction Unit) {sequence : ℤ}

theorem returns_ingest_iff {A : α → Prop} (hn : Novel t modality sequence)
    (hA : ∀ result l, Returns (absorb result) (withCall (withChunks t modality l) call) ↔
      A result) :
    Returns (ingest c ports modality call answer absorb sequence) t ↔
      HasRoom c t ∧ Handled ports t modality A answer := by
  obtain ⟨v, l, -, hv, -, ho⟩ := exists_offer_of_novel hn
  by_cases hroom : HasRoom c t
  · have hadmit := exec_admit_of_lt c ports (t := withChunks t modality l)
      ((hasRoom_withChunks c).2 hroom)
    rw [and_iff_right hroom, ingest, returns_bind_of_ok ho, if_neg hv, returns_bind_of_ok hadmit]
    cases answer with
    | error failure =>
        have hnotice : NoticeDelivered ports (withChunks t modality l) modality failure ↔
            NoticeDelivered ports t modality failure := by
          simp [NoticeDelivered, degradationEvent, withChunks]
        rw [Handled, ← hnotice, ← returns_attemptRuntime_error_iff (α := α) ports modality call]
        refine ⟨returns_of_bind, fun h => ?_⟩
        obtain ⟨outcome, houtcome⟩ := h
        obtain ⟨r, notices, hexec, hr, -⟩ := exec_attemptRuntime_error (α := α) ports modality call
          failure (withChunks t modality l)
        have hreturn : r = .ok outcome := by rw [hexec] at houtcome; exact houtcome
        subst hreturn
        cases outcome with
        | some result => exact absurd rfl (hr result)
        | none => exact ⟨.accepted, by rw [exec_bind_ok hexec, exec_pure]⟩
    | ok result =>
        rw [returns_bind_of_ok (exec_attemptRuntime_ok ports modality call result _)]
        exact returns_bind_pure_iff.trans (hA result l)
  · obtain ⟨e, requests, hexec⟩ := exec_ingest_of_full c ports call answer absorb ho hv hroom
    simp [Returns, hexec, hroom]

end Ingest

def SameChunks (t u : Stream) : Prop :=
  ∀ modality, u.state.ledgerFor modality = t.state.ledgerFor modality

theorem sameChunks_absorbSpeech (result : SpeechResult) (t : Stream) :
    SameChunks t (exec (absorbSpeech c ports result) t).2 := by
  obtain ⟨_, _, _, hstate, -⟩ := state_exec_absorbSpeech c ports result t
  intro modality
  rw [hstate]
  rfl

theorem sameChunks_absorbVisual (result : VisualResult) (t : Stream) :
    SameChunks t (exec (absorbVisual c ports result) t).2 := by
  obtain ⟨_, _, hstate, -⟩ := state_exec_absorbVisual c ports result t
  intro modality
  rw [hstate]
  rfl

/-- A novel call leaves its sequence number accepted, whether it returns or raises. -/
theorem mem_acceptedSet_ingest {α : Type} {modality : Modality} (call : RuntimeCall)
    (answer : Except Failure α) (absorb : α → StreamAction Unit) {sequence : ℤ}
    (habsorb : ∀ result u, SameChunks u (exec (absorb result) u).2)
    (hn : Novel t modality sequence) :
    sequence ∈ ((exec (ingest c ports modality call answer absorb sequence) t).2.state.ledgerFor
      modality).acceptedSet := by
  obtain ⟨v, l, -, hv, hl, ho⟩ := exists_offer_of_novel hn
  have hmem : sequence ∈ l.acceptedSet := hl ▸ Finset.mem_insert_self _ _
  have hledger : (withChunks t modality l).state.ledgerFor modality = l := by simp [withChunks]
  by_cases hroom : HasRoom c t
  · cases hans : answer with
    | error failure =>
        obtain ⟨r, notices, hexec, -⟩ := exec_ingest_of_failure c ports call (.error failure)
          absorb rfl ho hv hroom
        rw [hexec]
        exact hledger.symm ▸ hmem
    | ok result =>
        rw [exec_ingest_of_result c ports call _ absorb rfl ho hv hroom, habsorb]
        exact hledger.symm ▸ hmem
  · obtain ⟨e, requests, hexec⟩ := exec_ingest_of_full c ports call answer absorb ho hv hroom
    rw [hexec]
    exact hledger.symm ▸ hmem

variable {c}

theorem exec_serve_of_neg {r : Request} (h : r.call.sequence < 0) :
    exec (serve c r) t =
      (.error (.valueError s!"chunk sequence must be non-negative, got {r.call.sequence}"), t) := by
  obtain ⟨ports, _ | _⟩ := r <;> exact exec_ingest_of_neg c ports _ _ _ h

theorem exec_serve_of_duplicate {r : Request} (h0 : 0 ≤ r.call.sequence)
    (h : r.call.sequence ∈ (t.state.ledgerFor r.call.modality).acceptedSet) :
    (exec (serve c r) t).1 = .ok .duplicate := by
  obtain ⟨ports, _ | _⟩ := r <;>
    exact congrArg Prod.fst (exec_ingest_of_duplicate c ports _ _ _ h0 h)

theorem mem_acceptedSet_after {r : Request} (hn : Novel t r.call.modality r.call.sequence) :
    r.call.sequence ∈ ((c.after t r).state.ledgerFor r.call.modality).acceptedSet := by
  obtain ⟨ports, _ | _⟩ := r
  · exact mem_acceptedSet_ingest c ports _ _ _ (sameChunks_absorbSpeech c ports) hn
  · exact mem_acceptedSet_ingest c ports _ _ _ (sameChunks_absorbVisual c ports) hn

theorem returns_serve_iff {r : Request} (hn : Novel t r.call.modality r.call.sequence) :
    Returns (serve c r) t ↔ HasRoom c t ∧ Completes c t r := by
  obtain ⟨ports, _ | _⟩ := r
  · exact returns_ingest_iff c ports _ _ _ hn fun result l =>
      (returns_absorbSpeech_iff c ports result _).trans Iff.rfl
  · exact returns_ingest_iff c ports _ _ _ hn fun result l =>
      (returns_absorbVisual_iff c ports result _).trans Iff.rfl

/-- A refused call leaves no trace exactly when the chunk ledger refused it; any other call
must have been admitted and must not fail afterwards. -/
theorem leavesNoTrace_iff (t : Stream) (r : Request) :
    LeavesNoTrace c t r ↔
      ¬Novel t r.call.modality r.call.sequence ∨ HasRoom c t ∧ Completes c t r := by
  by_cases hn : Novel t r.call.modality r.call.sequence
  · rw [← returns_serve_iff hn, returns_iff]
    constructor
    · refine fun h => Or.inr fun e he => ?_
      have hmem := mem_acceptedSet_after (c := c) hn
      rw [(h e he).1] at hmem
      exact hn.2 hmem
    · rintro (h | h) e he
      · exact absurd hn h
      · exact absurd he (h e)
  · refine iff_of_true (fun e he => ?_) (Or.inl hn)
    by_cases h0 : r.call.sequence < 0
    · have hafter : c.after t r = t := congrArg Prod.snd (exec_serve_of_neg h0)
      refine ⟨by rw [hafter], by rw [hafter], fun ports' hdup => ?_⟩
      rw [exec_serve_of_neg (c := c) (r := ⟨ports', r.call⟩) h0] at hdup
      cases hdup
    · have hmem : r.call.sequence ∈ (t.state.ledgerFor r.call.modality).acceptedSet := by
        by_contra hmem
        exact hn ⟨not_lt.1 h0, hmem⟩
      rw [exec_serve_of_duplicate (not_lt.1 h0) hmem] at he
      cases he

def congestedStream : Stream :=
  { sampleStream with state := { sampleStream.state with inFlight := defaultMaxQueueDepth } }

/-- A window whose only word is empty, which no transcript accepts. -/
def blankHeard : SpeechResult := ⟨sampleModel, [⟨"", 0, 100, .fin 1⟩], [], [], 0⟩

/-- The first chunk is lost when the queue is full, and when its words cannot be assembled. -/
theorem not_leavesNoTrace_of_first_chunk :
    ¬LeavesNoTrace (sample fun _ => "") congestedStream (hearing 0 (.ok (nothingHeard 0))) ∧
      ¬LeavesNoTrace (sample fun _ => "") sampleStream (hearing 0 (.ok blankHeard)) := by
  constructor
  · intro h
    exact (h (.backpressureRequired "8 windows already in flight; slow down" 8) (by rfl)).2.2
      (hearing 0 (.ok (nothingHeard 0))).ports (by decide)
  · intro h
    exact (h (.transcriptViolation ("a word token cannot be empty; an unintelligible stretch is " ++
      "an UNINTELLIGIBLE speech event, not a blank word")) (by rfl)).2.2
      (hearing 0 (.ok (nothingHeard 0))).ports (by decide)

end OratoriaEngine.Coordinator
