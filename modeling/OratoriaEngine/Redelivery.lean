import OratoriaEngine.IngestFrames

/-!
# Redelivery

The chunk ledger answers a sequence number it has accepted at once, so that a chunk delivered
again advances a counter of duplicates and does nothing else, whatever it carries.
-/

namespace OratoriaEngine

open Stateful

namespace ChunkLedger

def withDuplicates (more : ℕ) (l : ChunkLedger) : ChunkLedger :=
  { l with duplicates := l.duplicates + more }

variable (more : ℕ) (l : ChunkLedger)

theorem drain_withDuplicates (fuel : ℕ) :
    drain fuel (l.withDuplicates more) = (drain fuel l).withDuplicates more := by
  induction fuel generalizing l with
  | zero => rfl
  | succ fuel ih =>
      simp only [drain]
      split_ifs with h h' h'
      · exact ih { l with
          seenAhead := l.seenAhead.erase (l.highestSeen + 1)
          highestSeen := l.highestSeen + 1 }
      · exact absurd h h'
      · exact absurd h' h
      · rfl

theorem offer_withDuplicates (sequence : ℤ) :
    (l.withDuplicates more).offer sequence =
      (l.offer sequence).map (Prod.map id (withDuplicates more)) := by
  have hdrain : ((l.withDuplicates more).accept sequence).drainAhead =
      (l.accept sequence).drainAhead.withDuplicates more :=
    drain_withDuplicates more (l.accept sequence) _
  unfold offer
  rw [hdrain]
  change (if sequence < 0 then _ else if sequence ∈ l.acceptedSet then _ else
    if sequence = l.highestSeen + 1 then _ else if l.highestSeen + 1 < sequence then _ else _) = _
  split_ifs
  · rfl
  · simp [Except.map, withDuplicates, Nat.add_right_comm]
  · rfl
  · rfl
  · rfl

theorem acceptedSet_of_offer {l l' : ChunkLedger} {v : ChunkVerdict} {sequence : ℤ}
    (h : l.offer sequence = .ok (v, l')) : l'.acceptedSet = insert sequence l.acceptedSet := by
  have h0 : 0 ≤ sequence := by
    by_contra hneg
    rw [offer_of_neg (not_le.1 hneg)] at h
    cases h
  by_cases hmem : sequence ∈ l.acceptedSet
  · rw [offer_of_mem h0 hmem] at h
    cases h
    exact (Finset.insert_eq_of_mem hmem).symm
  · obtain ⟨_, _, hoffer, -, hset⟩ := offer_of_notMem h0 hmem
    rw [hoffer] at h
    cases h
    exact hset

theorem neg_of_offer_error {l : ChunkLedger} {sequence : ℤ} {e : Failure}
    (h : l.offer sequence = .error e) : sequence < 0 := by
  by_contra h0
  unfold offer at h
  rw [if_neg h0] at h
  split_ifs at h

end ChunkLedger

def Stream.withDuplicates (audio video : ℕ) (t : Stream) : Stream :=
  { t with state := { t.state with
    audioChunks := t.state.audioChunks.withDuplicates audio
    videoChunks := t.state.videoChunks.withDuplicates video } }

namespace Coordinator

variable (c : Coordinator) (ports : StreamPorts) {audio video : ℕ} {t : Stream}

theorem withDuplicates_withChunks (modality : Modality) (l : ChunkLedger) :
    withChunks (t.withDuplicates audio video) modality
        (l.withDuplicates (if modality = .audio then audio else video)) =
      (withChunks t modality l).withDuplicates audio video := by
  unfold withChunks StreamingState.setLedgerFor
  split_ifs <;> rfl

theorem ledgerFor_withDuplicates (modality : Modality) :
    (t.withDuplicates audio video).state.ledgerFor modality =
      (t.state.ledgerFor modality).withDuplicates
        (if modality = .audio then audio else video) := by
  unfold StreamingState.ledgerFor
  split_ifs <;> rfl

theorem commutes_offer (modality : Modality) (sequence : ℤ) :
    Commutes (Stream.withDuplicates audio video) (offer modality sequence) := by
  intro t
  have hoffer := (t.state.ledgerFor modality).offer_withDuplicates
    (if modality = .audio then audio else video) sequence
  rw [← ledgerFor_withDuplicates] at hoffer
  cases h : (t.state.ledgerFor modality).offer sequence with
  | error e =>
      rw [h] at hoffer
      rw [exec_offer_error h, exec_offer_error hoffer]
  | ok offered =>
      rw [h] at hoffer
      rw [exec_offer_ok h, exec_offer_ok hoffer, withDuplicates_withChunks]
      rfl

theorem commutes_publish (event : OutboundEvent) :
    Commutes (Stream.withDuplicates audio video) (publish ports event) :=
  commutes_get_bind (fun _ => rfl) fun _ => commutes_bind (commutes_raiseIf _) fun _ =>
    commutes_modify fun _ => rfl

theorem commutes_publishTranscript (isFinal : Bool) :
    Commutes (Stream.withDuplicates audio video) (publishTranscript ports isFinal) := by
  refine commutes_get_bind (fun _ => rfl) fun t => ?_
  dsimp only
  split
  · exact commutes_pure _
  · exact commutes_publish ports _

theorem commutes_publishSpeech (events : List SpeechEvent) (isFinal : Bool) :
    Commutes (Stream.withDuplicates audio video) (publishSpeech ports events isFinal) := by
  refine commutes_get_bind (fun _ => rfl) fun t => ?_
  cases (events.map (·.interval.stop.ms)).max? with
  | none => exact commutes_pure _
  | some latest => exact commutes_publish ports _

theorem commutes_publishQualityWarnings (availability : List ModalityAvailability) :
    Commutes (Stream.withDuplicates audio video)
      (publishQualityWarnings ports availability) := by
  unfold publishQualityWarnings
  dsimp only
  split_ifs
  · exact commutes_pure _
  · exact commutes_get_bind (fun _ => rfl) fun _ => commutes_publish ports _

theorem commutes_settle (key : String) (event : SpeechEvent) :
    Commutes (Stream.withDuplicates audio video) (settle key event) :=
  commutes_bind (commutes_modify fun _ => rfl) fun _ => commutes_get_bind (fun _ => rfl) fun _ =>
    commutes_bind (commutes_ofExcept _) fun _ => commutes_modify fun _ => rfl

theorem commutes_promote (stableThroughMs : ℤ) (entries : List (String × SpeechEvent)) :
    Commutes (Stream.withDuplicates audio video) (promote stableThroughMs entries) := by
  induction entries with
  | nil => exact commutes_pure _
  | cons entry rest ih =>
      rw [promote]
      split_ifs
      · exact ih
      · exact commutes_bind (commutes_settle _ _) fun _ => commutes_bind ih fun _ =>
          commutes_pure _

theorem commutes_addPauses (pauses : List SpeechEvent) :
    Commutes (Stream.withDuplicates audio video) (addPauses pauses) := by
  induction pauses with
  | nil => exact commutes_pure _
  | cons pause rest ih =>
      refine commutes_get_bind (fun _ => rfl) fun t => ?_
      split_ifs
      · exact ih
      · exact commutes_bind (commutes_settle _ _) fun _ => commutes_bind ih fun _ =>
          commutes_pure _

theorem commutes_derivePauses (newlyFinal : List SpeechEvent) :
    Commutes (Stream.withDuplicates audio video) (derivePauses c newlyFinal) := by
  refine commutes_get_bind (fun _ => rfl) fun t => ?_
  dsimp only
  split_ifs
  · exact commutes_pure _
  · cases speechProvenance t.state newlyFinal with
    | none => exact commutes_pure _
    | some provenance => exact commutes_bind (commutes_ofExcept _) fun _ => commutes_addPauses _

theorem commutes_finalizeThrough (stableThroughMs : ℤ) :
    Commutes (Stream.withDuplicates audio video) (finalizeThrough c ports stableThroughMs) := by
  refine commutes_get_bind (fun _ => rfl) fun t => ?_
  split_ifs
  · exact commutes_pure _
  · refine commutes_bind (commutes_ofExcept _) fun _ => commutes_bind (commutes_ofExcept _) fun _ =>
      commutes_bind (commutes_modify fun _ => rfl) fun _ => ?_
    exact commutes_bind (commutes_promote _ _) fun _ => commutes_bind (commutes_derivePauses c _)
      fun _ => commutes_bind (commutes_publishTranscript ports _) fun _ =>
        commutes_publishSpeech ports _ _

theorem commutes_absorbSpeech (result : SpeechResult) :
    Commutes (Stream.withDuplicates audio video) (absorbSpeech c ports result) :=
  commutes_bind (commutes_ofExcept _) fun _ => commutes_get_bind (fun _ => rfl) fun _ =>
    commutes_bind (commutes_ofExcept _) fun _ => commutes_bind (commutes_modify fun _ => rfl)
      fun _ => commutes_bind (commutes_publishSpeech ports _ _) fun _ =>
        commutes_finalizeThrough c ports _

theorem commutes_absorbVisual (result : VisualResult) :
    Commutes (Stream.withDuplicates audio video) (absorbVisual c ports result) :=
  commutes_bind (commutes_ofExcept _) fun _ => commutes_bind (commutes_modify fun _ => rfl)
    fun _ => commutes_publishQualityWarnings ports _

theorem commutes_admitWindow :
    Commutes (Stream.withDuplicates audio video) (admitWindow c ports) := by
  refine commutes_get_bind (fun _ => rfl) fun t => ?_
  dsimp only
  split_ifs
  · exact commutes_pure _
  · exact commutes_bind (commutes_raiseIf _) fun _ => commutes_bind (commutes_modify fun _ => rfl)
      fun _ => commutes_throw _

theorem commutes_degrade (modality : Modality) (failure : Failure) :
    Commutes (Stream.withDuplicates audio video) (degrade ports modality failure) := by
  refine commutes_get_bind (fun _ => rfl) fun t => ?_
  refine commutes_bind (commutes_modify fun _ => rfl) fun _ => ?_
  split_ifs
  · exact commutes_pure _
  · exact commutes_publish ports _

theorem commutes_attemptRuntime {α : Type} (modality : Modality) (call : RuntimeCall)
    (answer : Except Failure α) :
    Commutes (Stream.withDuplicates audio video)
      (attemptRuntime ports modality call answer) := by
  refine commutes_bind (commutes_modify fun _ => rfl) fun _ => commutes_finallyDo ?_ fun _ => rfl
  refine commutes_bind (commutes_modify fun _ => rfl) fun _ => ?_
  cases answer with
  | ok result => exact commutes_pure _
  | error failure =>
      exact commutes_bind (commutes_degrade ports modality failure) fun _ => commutes_pure _

theorem commutes_ingest {α : Type} (modality : Modality) (call : RuntimeCall)
    (answer : Except Failure α) {absorb : α → StreamAction Unit} (sequence : ℤ)
    (habsorb : ∀ result, Commutes (Stream.withDuplicates audio video) (absorb result)) :
    Commutes (Stream.withDuplicates audio video)
      (ingest c ports modality call answer absorb sequence) := by
  apply commutes_bind (commutes_offer modality sequence)
  intro verdict
  split_ifs
  · exact commutes_pure _
  · refine commutes_bind (commutes_admitWindow c ports) fun _ =>
      commutes_bind (commutes_attemptRuntime ports modality call answer) fun outcome => ?_
    cases outcome with
    | none => exact commutes_pure _
    | some result => exact commutes_bind (habsorb result) fun _ => commutes_pure _

theorem commutes_serve (r : Request) :
    Commutes (Stream.withDuplicates audio video) (serve c r) := by
  obtain ⟨ports, _ | _⟩ := r
  · exact commutes_ingest c ports _ _ _ _ (commutes_absorbSpeech c ports)
  · exact commutes_ingest c ports _ _ _ _ (commutes_absorbVisual c ports)

theorem runCalls_withDuplicates (rs : List Request) :
    c.runCalls (t.withDuplicates audio video) rs =
      (c.runCalls t rs).withDuplicates audio video := by
  induction rs generalizing t with
  | nil => rfl
  | cons r rs ih =>
      rw [runCalls_cons, runCalls_cons, after, commutes_serve c r t]
      exact ih

theorem blindToSpeech_acceptedSet (modality : Modality) :
    BlindToSpeech fun t => (t.state.ledgerFor modality).acceptedSet :=
  ⟨fun _ _ => rfl, fun _ _ => rfl, fun _ _ _ _ => rfl⟩

theorem blindToVision_acceptedSet (modality : Modality) :
    BlindToVision fun t => (t.state.ledgerFor modality).acceptedSet :=
  ⟨fun _ _ _ => rfl, fun _ _ _ => rfl⟩

theorem blindToRefusal_acceptedSet (modality other : Modality) :
    BlindToRefusal (fun t => (t.state.ledgerFor modality).acceptedSet) other :=
  ⟨fun _ _ => rfl, fun _ _ _ => rfl⟩

variable {c}

theorem acceptedSet_subset_withChunks {l : ChunkLedger} {modality : Modality} {sequence : ℤ}
    (hl : l.acceptedSet = insert sequence (t.state.ledgerFor modality).acceptedSet)
    (other : Modality) : (t.state.ledgerFor other).acceptedSet ⊆
      ((withChunks t modality l).state.ledgerFor other).acceptedSet := by
  have hsubset := hl ▸ Finset.subset_insert sequence (t.state.ledgerFor modality).acceptedSet
  unfold withChunks StreamingState.setLedgerFor StreamingState.ledgerFor
  unfold StreamingState.ledgerFor at hsubset
  split_ifs with hother hown hown
  · rwa [if_pos hown] at hsubset
  · exact subset_rfl
  · exact subset_rfl
  · rwa [if_neg hown] at hsubset

section Accepted

variable {α : Type} {modality : Modality} (call : RuntimeCall) (answer : Except Failure α)
  {absorb : α → StreamAction Unit} (sequence : ℤ)

theorem acceptedSet_ingest (habsorb : ∀ other result,
      Keeps (fun t => (t.state.ledgerFor other).acceptedSet) (absorb result)) :
    (∀ other, (t.state.ledgerFor other).acceptedSet ⊆
      ((exec (ingest c ports modality call answer absorb sequence) t).2.state.ledgerFor
        other).acceptedSet) ∧
      (0 ≤ sequence → sequence ∈
        ((exec (ingest c ports modality call answer absorb sequence) t).2.state.ledgerFor
          modality).acceptedSet) := by
  have hview := fun other => view_ingest c ports call answer absorb sequence
    (blindToRefusal_acceptedSet other modality) t
  dsimp only [shown] at hview
  simp only [hview]
  cases hoffer : (t.state.ledgerFor modality).offer sequence with
  | error e =>
      exact ⟨fun _ => subset_rfl,
        fun h0 => absurd h0 (not_le.2 (ChunkLedger.neg_of_offer_error hoffer))⟩
  | ok offered =>
      obtain ⟨verdict, l⟩ := offered
      have hl := ChunkLedger.acceptedSet_of_offer hoffer
      have hown : sequence ∈ ((withChunks t modality l).state.ledgerFor modality).acceptedSet := by
        rw [withChunks, StreamingState.ledgerFor_setLedgerFor, hl]
        exact Finset.mem_insert_self _ _
      have hkept := acceptedSet_subset_withChunks hl
      dsimp only
      split_ifs
      · exact ⟨hkept, fun _ => hown⟩
      · cases answer with
        | error failure => exact ⟨hkept, fun _ => hown⟩
        | ok result =>
            have hsame := fun other =>
              habsorb other result (withCall (withChunks t modality l) call)
            dsimp only at hsame ⊢
            simp only [hsame]
            exact ⟨hkept, fun _ => hown⟩

end Accepted

theorem acceptedSet_after (t : Stream) (r : Request) :
    (∀ modality, (t.state.ledgerFor modality).acceptedSet ⊆
      ((c.after t r).state.ledgerFor modality).acceptedSet) ∧
      (0 ≤ r.call.sequence → r.call.sequence ∈
        ((c.after t r).state.ledgerFor r.call.modality).acceptedSet) := by
  obtain ⟨ports, _ | _⟩ := r
  · exact acceptedSet_ingest ports _ _ _ fun modality =>
      (blindToSpeech_acceptedSet modality).keeps_absorbSpeech c ports
  · exact acceptedSet_ingest ports _ _ _ fun modality =>
      (blindToVision_acceptedSet modality).keeps_absorbVisual c ports

/-- A number that was offered to its chunk ledger before: it is accepted, or it is negative. -/
def Delivered (t : Stream) (modality : Modality) (sequence : ℤ) : Prop :=
  0 ≤ sequence → sequence ∈ (t.state.ledgerFor modality).acceptedSet

theorem Delivered.after {modality : Modality} {sequence : ℤ} (h : Delivered t modality sequence)
    (r : Request) : Delivered (c.after t r) modality sequence :=
  fun h0 => (acceptedSet_after t r).1 modality (h h0)

theorem delivered_after (r : Request) :
    Delivered (c.after t r) r.call.modality r.call.sequence := (acceptedSet_after t r).2

theorem after_of_delivered {r : Request} (h : Delivered t r.call.modality r.call.sequence) :
    ∃ audio video, c.after t r = t.withDuplicates audio video := by
  by_cases h0 : 0 ≤ r.call.sequence
  · obtain ⟨ports, ⟨sequence, window⟩ | ⟨sequence, frames⟩⟩ := r
    · exact ⟨1, 0, congrArg Prod.snd (exec_ingest_of_duplicate c ports _ _ _ h0 (h h0))⟩
    · exact ⟨0, 1, congrArg Prod.snd (exec_ingest_of_duplicate c ports _ _ _ h0 (h h0))⟩
  · refine ⟨0, 0, ?_⟩
    obtain ⟨ports, _ | _⟩ := r <;>
      exact congrArg Prod.snd (exec_ingest_of_neg c ports _ _ _ (not_le.1 h0))

/-- The second list of calls is the first with re-deliveries inserted: calls, with any payload and
at any ports, whose modality and sequence number are those of an earlier call, or of one of the
earlier deliveries `d`. -/
inductive Redelivered : List (Modality × ℤ) → List Request → List Request → Prop
  | done (d : List (Modality × ℤ)) : Redelivered d [] []
  | deliver {d : List (Modality × ℤ)} {rs rs' : List Request} (r : Request)
      (rest : Redelivered ((r.call.modality, r.call.sequence) :: d) rs rs') :
      Redelivered d (r :: rs) (r :: rs')
  | again {d : List (Modality × ℤ)} {rs rs' : List Request} (r : Request)
      (earlier : (r.call.modality, r.call.sequence) ∈ d) (rest : Redelivered d rs rs') :
      Redelivered d rs (r :: rs')

theorem runCalls_redelivered {d : List (Modality × ℤ)} {rs rs' : List Request}
    (h : Redelivered d rs rs') (hd : ∀ key ∈ d, Delivered t key.1 key.2) :
    ∃ audio video, c.runCalls t rs' = (c.runCalls t rs).withDuplicates audio video := by
  induction h generalizing t with
  | done d => exact ⟨0, 0, rfl⟩
  | deliver r rest ih =>
      apply ih
      intro key hkey
      rcases List.mem_cons.1 hkey with rfl | hkey
      · exact delivered_after r
      · exact (hd key hkey).after r
  | @again d rs rs' r earlier rest ih =>
      obtain ⟨audio, video, hafter⟩ := after_of_delivered (c := c) (hd _ earlier)
      obtain ⟨audio', video', hrun⟩ := ih hd
      refine ⟨audio' + audio, video' + video, ?_⟩
      rw [runCalls_cons, hafter, runCalls_withDuplicates, hrun]
      simp [Stream.withDuplicates, ChunkLedger.withDuplicates, Nat.add_assoc]

/-- The second stream shows what the first does; the counters of duplicates are left out. -/
structure SameEvidence (t u : Stream) : Prop where
  transcript : u.state.transcript = t.state.transcript
  speechEvents : u.state.speechEvents = t.state.speechEvents
  visualEvents : u.state.visualEvents = t.state.visualEvents
  prosody : u.state.prosody = t.state.prosody
  quality : u.state.quality = t.state.quality
  ledger : u.ledger = t.ledger
  gaps : ∀ modality, (u.state.ledgerFor modality).finalize.gaps =
    (t.state.ledgerFor modality).finalize.gaps
  published : u.published = t.published

theorem sameEvidence_withDuplicates (t : Stream) (audio video : ℕ) :
    SameEvidence t (t.withDuplicates audio video) where
  transcript := rfl
  speechEvents := rfl
  visualEvents := rfl
  prosody := rfl
  quality := rfl
  ledger := rfl
  gaps modality := by rw [ledgerFor_withDuplicates]; rfl
  published := rfl

/-- A run in which chunks are delivered again, however late, however often and with whatever
payload, ends with the evidence and the messages of the run in which they are not. This holds
even where the first delivery was refused for backpressure. -/
theorem redelivery_idempotent {rs rs' : List Request} (h : Redelivered [] rs rs') :
    SameEvidence (c.runCalls t rs) (c.runCalls t rs') := by
  obtain ⟨audio, video, hrun⟩ := runCalls_redelivered (c := c) (t := t) h
    fun key hkey => absurd hkey List.not_mem_nil
  rw [hrun]
  exact sameEvidence_withDuplicates _ audio video

/-- Two chunks arrive out of order and the second fails; each comes again with other words. -/
theorem redelivery_idempotent_sample :
    let lost := hearing 0 (.error (.foreign "RuntimeError" "out of memory"))
    SameEvidence
      ((sample fun _ => "").runCalls sampleStream [hearing 2 (.ok (nothingHeard 500)), lost])
      ((sample fun _ => "").runCalls sampleStream
        [hearing 2 (.ok (nothingHeard 500)), hearing 2 (.ok (nothingHeard 900)), lost,
          hearing 0 (.ok (nothingHeard 700))]) :=
  redelivery_idempotent (.deliver _ (.again _ (List.mem_singleton.2 rfl)
    (.deliver _ (.again _ List.mem_cons_self (.done _)))))

end Coordinator

end OratoriaEngine
