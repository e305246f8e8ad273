import OratoriaEngine.Handler
import OratoriaEngine.IngestFrames

/-!
# Which media reaches a runtime

The coordinator never looks at the stored session: a media message goes to its
runtime exactly when its sequence number is new and the queue has room.
-/

namespace OratoriaEngine

namespace Coordinator

open Stateful

variable (c : Coordinator) (ports : StreamPorts)

theorem blindToSpeech_runtimeCalls : BlindToSpeech Stream.runtimeCalls :=
  ⟨fun _ _ => rfl, fun _ _ => rfl, fun _ _ _ _ => rfl⟩

theorem blindToVision_runtimeCalls : BlindToVision Stream.runtimeCalls :=
  ⟨fun _ _ _ => rfl, fun _ _ _ => rfl⟩

/-- The call passes the chunk ledger and finds room in the queue. -/
def Admits (t : Stream) (call : IngestCall) : Prop :=
  Novel t call.modality call.sequence ∧ HasRoom c t

instance (t : Stream) (call : IngestCall) : Decidable (Admits c t call) :=
  inferInstanceAs (Decidable (_ ∧ _))

theorem runtimeCalls_ingest {α : Type} {modality : Modality} (call : RuntimeCall)
    (answer : Except Failure α) {absorb : α → StreamAction Unit} {sequence : ℤ} (t : Stream)
    (habsorb : ∀ result, Keeps Stream.runtimeCalls (absorb result)) :
    (exec (ingest c ports modality call answer absorb sequence) t).2.runtimeCalls =
      if Novel t modality sequence ∧ HasRoom c t then t.runtimeCalls ++ [call]
      else t.runtimeCalls := by
  by_cases h0 : sequence < 0
  · rw [exec_ingest_of_neg c ports call answer absorb h0,
      if_neg fun h => absurd h.1.1 (not_le.2 h0)]
  by_cases hmem : sequence ∈ (t.state.ledgerFor modality).acceptedSet
  · rw [exec_ingest_of_duplicate c ports call answer absorb (not_lt.1 h0) hmem,
      if_neg fun h => h.1.2 hmem]
    rfl
  have hnovel : Novel t modality sequence := ⟨not_lt.1 h0, hmem⟩
  obtain ⟨v, l, -, hv, -, ho⟩ := exists_offer_of_novel hnovel
  by_cases hroom : HasRoom c t
  · rw [if_pos ⟨hnovel, hroom⟩]
    cases hans : answer with
    | error failure =>
        obtain ⟨r, notices, hexec, -⟩ := exec_ingest_of_failure c ports call (.error failure)
          absorb rfl ho hv hroom
        rw [hexec]
        rfl
    | ok result =>
        rw [exec_ingest_of_result c ports call _ absorb rfl ho hv hroom]
        exact habsorb result _
  · obtain ⟨e, requests, hexec⟩ := exec_ingest_of_full c ports call answer absorb ho hv hroom
    rw [hexec, if_neg fun h => hroom h.2]
    rfl

def IngestCall.runtimeCall : IngestCall → RuntimeCall
  | .audio _ window => .transcribe window
  | .video _ frames => .observe frames

theorem runtimeCalls_after (t : Stream) (r : Request) :
    (c.after t r).runtimeCalls =
      if Admits c t r.call then t.runtimeCalls ++ [r.call.runtimeCall] else t.runtimeCalls := by
  obtain ⟨ports, ⟨sequence, window⟩ | ⟨sequence, frames⟩⟩ := r
  · exact runtimeCalls_ingest c ports _ _ t fun result =>
      blindToSpeech_runtimeCalls.keeps_absorbSpeech c ports result
  · exact runtimeCalls_ingest c ports _ _ t fun result =>
      blindToVision_runtimeCalls.keeps_absorbVisual c ports result

def passed (t : Stream) (r : Request) : List RuntimeCall :=
  (c.after t r).runtimeCalls.drop t.runtimeCalls.length

theorem passed_eq (t : Stream) (r : Request) :
    passed c t r = if Admits c t r.call then [r.call.runtimeCall] else [] := by
  rw [passed, runtimeCalls_after]
  split_ifs
  · rw [List.drop_left]
  · rw [List.drop_length]

end Coordinator

namespace Deployment

variable {ι κ : Type}

/-- The stored session of the connection is capturing under a live consent. -/
def Permitted (w : World) (conn : Connection) : Prop :=
  (w.session? conn.caller.tenant conn.sessionId).any (·.permitsMedia) = true

instance (w : World) (conn : Connection) : Decidable (Permitted w conn) :=
  inferInstanceAs (Decidable (_ = true))

/-- The media call a step makes, and the connection it makes it on. -/
def media (d : Deployment ι κ) : Happening ι κ → Option (Connection × Coordinator.Request)
  | .receive k message ports _ =>
      match d.sockets k with
      | .listening conn => (Handler.ingestCall message).map fun call => (conn, ⟨ports, call⟩)
      | _ => none
  | _ => none

/-- Whatever a step passes to a runtime is passed while the stored session permits it. -/
def PassesPermitted (d : Deployment ι κ) (h : Happening ι κ) : Prop :=
  ∀ conn r, d.media h = some (conn, r) →
    ∀ call ∈ conn.coordinator.passed conn.stream r, Permitted d.world conn

/-- Media that arrives while the stored session does not permit it is not admitted: its sequence
number is negative or taken, or the queue is full. -/
def StrayMediaRefused (d : Deployment ι κ) (h : Happening ι κ) : Prop :=
  ∀ conn r, d.media h = some (conn, r) → ¬Permitted d.world conn →
    ¬conn.coordinator.Admits conn.stream r.call

theorem passesPermitted_iff (d : Deployment ι κ) (h : Happening ι κ) :
    d.PassesPermitted h ↔ d.StrayMediaRefused h := by
  refine forall_congr' fun conn => forall_congr' fun r => imp_congr_right fun _ => ?_
  rw [Coordinator.passed_eq]
  split_ifs with hadmits
  · simp [hadmits]
  · simp [hadmits]

variable [DecidableEq ι] [DecidableEq κ] (engine : Engine)

/-- Over every run, all media that reaches a runtime does so while the stored session permits it
exactly when no stray media is admitted. -/
theorem everyStep_passesPermitted_iff (d : Deployment ι κ) (hs : List (Happening ι κ)) :
    EveryStep engine PassesPermitted d hs ↔ EveryStep engine StrayMediaRefused d hs :=
  everyStep_congr engine passesPermitted_iff d hs

def sampleDeployment (state : SessionState) : Deployment Empty Unit :=
  ⟨⟨study state, Empty.elim⟩, fun _ => .closed⟩

def silentPorts : StreamPorts :=
  ⟨fun _ => .ok (Coordinator.nothingHeard 0), fun _ => .ok ⟨Coordinator.sampleModel, [], []⟩,
    .reliable⟩

def openedAndPaused : List (Happening Empty Unit) :=
  .connect () ⟨operator, studySessionId, studyRunId, 0, 0⟩ :: List.replicate 5 (.proceed () none) ++
    .receive () (.control .capturePause) silentPorts ⟨1000, 1000, 1000⟩ ::
      List.replicate 2 (.proceed () none)

def lateChunk : Happening Empty Unit :=
  .receive () (.audioChunk 0 1000 1000 16000 [] false) silentPorts ⟨2000, 2000, 2000⟩

/-- The late chunk is transcribed although the stored session is paused. -/
theorem not_everyStep_passesPermitted_of_paused :
    ¬EveryStep sampleEngine PassesPermitted (sampleDeployment .created)
      (openedAndPaused ++ [lateChunk]) := by
  intro h
  obtain ⟨-, hlate, -⟩ := (everyStep_append _ _ _ _).1 h
  exact absurd (by decide) ((passesPermitted_iff _ _).1 hlate _ _ rfl (by decide))

end Deployment

end OratoriaEngine
