import OratoriaEngine.StreamJournals
import OratoriaEngine.StreamLease

/-!
# Streams on the in-memory adapters

Any number of streams share the adapters, the leases among them. A stream touches nothing but
the session its token was signed for, and no two streams of a session work at the same time
while neither outlives its lease.
-/

namespace OratoriaEngine

open Interleaving StreamEvent

/-- What the clients send, what the runtimes and the channels do, and the clock, call by call. -/
structure Surroundings where
  messages : ℕ → Dict String Json × Reading
  conditions : ℕ → StreamPorts
  clock : ℕ → ℤ

/-- The adapters, and how many calls they have served. -/
structure StreamWorld where
  world : World
  calls : ℕ

/-- The adapters in process memory, with clients that take what they are sent. -/
def inMemoryStreams (around : Surroundings) :
    Program.Ports StreamOp StreamOp.Answer Failure StreamWorld
  | .wire (.port o), w =>
      let served := inMemory o w.world
      (served.1, ⟨served.2, w.calls + 1⟩)
  | .acquireLease sessionId ttlSeconds, w =>
      let granted := w.world.acquireLease sessionId (around.clock w.calls) ttlSeconds
      (.ok granted.1, ⟨granted.2, w.calls + 1⟩)
  | .releaseLease sessionId, w => (.ok (), ⟨w.world.releaseLease sessionId, w.calls + 1⟩)
  | .receiveJson, w => (.ok (around.messages w.calls), { w with calls := w.calls + 1 })
  | .ingest _, w => (.ok (around.conditions w.calls), { w with calls := w.calls + 1 })
  | .wire (.sendError _ _), w | .wire (.sendAccepted _ _ _ _), w
  | .wire (.sendCompleted _ _ _ _ _), w | .wire (.close _), w | .acceptSocket, w =>
      (.ok (), { w with calls := w.calls + 1 })

namespace StreamHandler

variable {around : Surroundings} {w : StreamWorld}

theorem runsKeyed_inMemoryStreams (h : w.world.RunsKeyed) (o : StreamOp) :
    (inMemoryStreams around o w).2.world.RunsKeyed := by
  cases o with
  | wire o =>
      cases o with
      | port o => exact runsKeyed_inMemory h o
      | _ => exact h
  | acquireLease sessionId ttl =>
      simp only [inMemoryStreams, World.acquireLease]
      cases w.world.leases.get? sessionId.value with
      | none => exact h
      | some heldUntil =>
          dsimp only
          split_ifs <;> exact h
  | _ => exact h

theorem faithful_after {p : Progress} (hp : p.faithful = true) (h : w.world.RunsKeyed)
    (o : StreamOp) : (p.after o (inMemoryStreams around o w).1).faithful = true := by
  cases o with
  | wire o =>
      cases o with
      | port o =>
          change (p.afterPort o (inMemory o w.world).1).faithful = true
          cases o with
          | sessionsGet tenant sessionId =>
              change (p.afterPort (.sessionsGet tenant sessionId)
                (.ok (w.world.session? tenant sessionId))).faithful = true
              cases hfound : w.world.session? tenant sessionId with
              | none => exact hp
              | some session =>
                  obtain ⟨htenant, hid⟩ := World.session?_eq_some hfound
                  simp [Progress.afterPort, hp, htenant, hid]
          | runsGet runId =>
              change (p.afterPort (.runsGet runId)
                (.ok (w.world.runs.get? runId.value))).faithful = true
              cases hfound : w.world.runs.get? runId.value with
              | none =>
                  simp only [Progress.afterPort]
                  split <;> exact hp
              | some run =>
                  have hid : run.id = runId := RunId.ext_value (h _ run hfound)
                  simp [Progress.afterPort, hp, hid]
          | sessionsSave session =>
              simp only [inMemory, Progress.afterPort]
              split <;> exact hp
          | evidenceStoreDocument document tenant =>
              simp only [inMemory, Progress.afterPort]
              split <;> exact hp
          | runsSave run =>
              simp only [inMemory, Progress.afterPort]
              split <;> exact hp
          | _ => exact hp
      | _ => exact hp
  | acquireLease sessionId ttl =>
      simp only [inMemoryStreams]
      cases (w.world.acquireLease sessionId (around.clock w.calls) ttl).1 <;> exact hp
  | _ => exact hp

/-- An operation within a grant leaves every other session and its document alone. -/
theorem other_inMemory {request : StreamRequest} {grant : StreamGrant} {o : Port} {w : World}
    (h : Within request grant o) {tenant : TenantId} {sessionId : SessionId}
    (hother : ¬(grant.tenant = tenant ∧ grant.sessionId = sessionId)) :
    (inMemory o w).2.session? tenant sessionId = w.session? tenant sessionId ∧
      (inMemory o w).2.document? tenant sessionId = w.document? tenant sessionId := by
  cases o with
  | sessionsSave session =>
      refine ⟨?_, rfl⟩
      change (w.putSession session).session? tenant sessionId = _
      rw [World.session?_putSession, if_neg]
      rintro ⟨rfl, rfl⟩
      exact hother ⟨h.1.symm, h.2.symm⟩
  | evidenceStoreDocument document t =>
      refine ⟨rfl, Dict.get?_set_ne _ _ ?_⟩
      intro hkey
      rw [Prod.mk.injEq] at hkey
      refine hother ⟨?_, ?_⟩
      · rw [← h.1]
        exact (TenantId.ext_value hkey.1).symm
      · rw [← h.2.1]
        exact (SessionId.ext_value hkey.2).symm
  | _ => first | exact ⟨rfl, rfl⟩ | exact absurd h id

theorem leases_inMemory {request : StreamRequest} {grant : StreamGrant} {o : Port}
    (h : Within request grant o) (w : World) : (inMemory o w).2.leases = w.leases := by
  cases o with
  | _ => first | rfl | exact absurd h id

theorem faithful_after_error (p : Progress) (o : StreamOp) (e : Failure) :
    (p.after o (.error e)).faithful = p.faithful := by
  cases o with
  | wire o =>
      cases o with
      | port o => cases o <;> rfl
      | _ => rfl
  | _ => rfl

section Deployment

variable {ι : Type} [DecidableEq ι] {engine : StreamEngine} {requests : ι → StreamRequest}

abbrev StreamConfig (ι : Type) := Config StreamOp StreamOp.Answer Failure Unit StreamWorld ι

/-- How far a stream of the deployment has come. -/
def progress (engine : StreamEngine) (requests : ι → StreamRequest) (c : StreamConfig ι) (i : ι) :
    Progress := (course engine (requests i)).state .start (c.threads i).past

/-- All streams keep to their course, and every lookup found what it was made for. -/
structure Orderly (engine : StreamEngine) (requests : ι → StreamRequest) (c : StreamConfig ι) :
    Prop where
  watched : ∀ i, (course engine (requests i)).Watched Ended .start (c.threads i)
  keyed : c.world.world.RunsKeyed
  faithful : ∀ i, (progress engine requests c i).faithful = true
  within : ∀ i, ∀ e ∈ (c.threads i).past, ∀ o, e.op = .wire (.port o) →
    ∃ grant, Granted engine (requests i) grant ∧ Within (requests i) grant o

variable {c : StreamConfig ι}

omit [DecidableEq ι] in
theorem Orderly.permits (h : Orderly engine requests c) {i : ι} {o : StreamOp}
    {next : Except Failure o.Answer → StreamProgram Unit}
    (hrest : (c.threads i).rest = .call o next) :
    Permits engine (requests i) (progress engine requests c i) o := by
  have hfollows := (h.watched i).2
  rw [hrest] at hfollows
  exact hfollows.1

theorem progress_update (i : ι) (o : StreamOp)
    (next : Except Failure o.Answer → StreamProgram Unit) (r : Except Failure o.Answer)
    (w : StreamWorld) (j : ι) :
    progress engine requests ⟨w, Function.update c.threads i ((c.threads i).resume o next r)⟩ j =
      if j = i then (progress engine requests c i).after o r
      else progress engine requests c j := by
  unfold progress
  split_ifs with hj
  · subst hj
    simp only [Function.update_self, Thread.resume]
    exact Monitor.state_concat _ _ _
  · simp only [Function.update_of_ne hj]

theorem Orderly.update (h : Orderly engine requests c) {i : ι} {o : StreamOp}
    {next : Except Failure o.Answer → StreamProgram Unit}
    (hrest : (c.threads i).rest = .call o next) {r : Except Failure o.Answer} {w : StreamWorld}
    (hkeyed : w.world.RunsKeyed)
    (hfaithful : ((progress engine requests c i).after o r).faithful = true) :
    Orderly engine requests
      ⟨w, Function.update c.threads i ((c.threads i).resume o next r)⟩ where
  watched j := by
    by_cases hj : j = i
    · subst hj
      simp only [Function.update_self]
      exact (h.watched j).resume hrest r
    · simp only [Function.update_of_ne hj]
      exact h.watched j
  keyed := hkeyed
  faithful j := by
    rw [progress_update]
    split_ifs
    · exact hfaithful
    · exact h.faithful j
  within j e he o' ho' := by
    by_cases hj : j = i
    · subst hj
      simp only [Function.update_self, Thread.resume, List.mem_append, List.mem_singleton] at he
      rcases he with he | rfl
      · exact h.within j e he o' ho'
      · have hpermits := h.permits hrest
        cases ho'
        exact hpermits.2.2.2 (h.faithful j)
    · simp only [Function.update_of_ne hj] at he
      exact h.within j e he o' ho'

theorem Orderly.step (h : Orderly engine requests c) (choice : Choice Failure ι) :
    Orderly engine requests (Interleaving.step (inMemoryStreams around) c choice) := by
  obtain ⟨_, -, hstep⟩ | ⟨o, next, hrest, ⟨e, -, hstep⟩ | ⟨-, hstep⟩⟩ :=
    step_cases (inMemoryStreams around) c choice
  · rw [hstep]
    exact h
  · rw [hstep]
    exact h.update hrest h.keyed ((faithful_after_error _ o e).trans (h.faithful _))
  · rw [hstep]
    exact h.update hrest (runsKeyed_inMemoryStreams h.keyed o)
      (faithful_after (h.faithful _) h.keyed o)

/-- No verified token of the deployment names the session. -/
def Unnamed (engine : StreamEngine) (requests : ι → StreamRequest) (tenant : TenantId)
    (sessionId : SessionId) : Prop :=
  ∀ i grant, Granted engine (requests i) grant →
    ¬(grant.tenant = tenant ∧ grant.sessionId = sessionId)

variable (around) in
theorem Orderly.step_unnamed (h : Orderly engine requests c) {tenant : TenantId}
    {sessionId : SessionId} (hunnamed : Unnamed engine requests tenant sessionId)
    (choice : Choice Failure ι) :
    (Interleaving.step (inMemoryStreams around) c choice).world.world.session? tenant sessionId =
        c.world.world.session? tenant sessionId ∧
      (Interleaving.step (inMemoryStreams around) c choice).world.world.document? tenant sessionId =
        c.world.world.document? tenant sessionId := by
  obtain ⟨_, -, hstep⟩ | ⟨o, next, hrest, ⟨e, -, hstep⟩ | ⟨-, hstep⟩⟩ :=
    step_cases (inMemoryStreams around) c choice
  · rw [hstep]
    exact ⟨rfl, rfl⟩
  · rw [hstep]
    exact ⟨rfl, rfl⟩
  · rw [hstep]
    have hpermits := h.permits hrest
    cases o with
    | wire o =>
        cases o with
        | port o =>
            obtain ⟨grant, hgrant, hwithin⟩ := hpermits.2.2.2 (h.faithful _)
            exact other_inMemory hwithin (hunnamed _ grant hgrant)
        | _ => exact ⟨rfl, rfl⟩
    | acquireLease s ttl =>
        simp only [inMemoryStreams, World.acquireLease]
        cases c.world.world.leases.get? s.value with
        | none => exact ⟨rfl, rfl⟩
        | some heldUntil =>
            dsimp only
            split_ifs <;> exact ⟨rfl, rfl⟩
    | _ => exact ⟨rfl, rfl⟩

omit [DecidableEq ι] in
theorem orderly_streams {w : StreamWorld} (hw : w.world.RunsKeyed) :
    Orderly engine requests (streams engine requests w) where
  watched i := Monitor.watched_start (follows_stream engine (requests i))
  keyed := hw
  faithful i := rfl
  within i e he := by cases he

theorem Orderly.run (h : Orderly engine requests c) (schedule : List (Choice Failure ι)) :
    Orderly engine requests (Interleaving.run (inMemoryStreams around) c schedule) := by
  induction schedule generalizing c with
  | nil => exact h
  | cons choice schedule ih => exact ih (h.step choice)

end Deployment

/-- Under every schedule of any number of streams, with any exceptions: every operation of the
use cases a stream calls is about the session and the tenant of a grant its token was verified
for, and about its own run; and a session that no verified token names, and its document, stay
as they are. -/
theorem streams_within_grants {ι : Type} [DecidableEq ι] (around : Surroundings)
    (engine : StreamEngine) (requests : ι → StreamRequest) (w : StreamWorld)
    (hw : w.world.RunsKeyed) (schedule : List (Choice Failure ι)) :
    let c := Interleaving.run (inMemoryStreams around) (streams engine requests w) schedule
    (∀ i, ∀ e ∈ (c.threads i).past, ∀ o, e.op = .wire (.port o) →
      ∃ grant, Granted engine (requests i) grant ∧ Within (requests i) grant o) ∧
    ∀ tenant sessionId, Unnamed engine requests tenant sessionId →
      c.world.world.session? tenant sessionId = w.world.session? tenant sessionId ∧
        c.world.world.document? tenant sessionId = w.world.document? tenant sessionId := by
  intro c
  refine ⟨((orderly_streams hw).run schedule).within, fun tenant sessionId hunnamed => ?_⟩
  have hrun : ∀ (c : StreamConfig ι), Orderly engine requests c →
      (Interleaving.run (inMemoryStreams around) c schedule).world.world.session? tenant
          sessionId = c.world.world.session? tenant sessionId ∧
        (Interleaving.run (inMemoryStreams around) c schedule).world.world.document? tenant
          sessionId = c.world.world.document? tenant sessionId := by
    induction schedule with
    | nil => exact fun _ _ => ⟨rfl, rfl⟩
    | cons choice schedule ih =>
        intro c hc
        obtain ⟨hsession, hdocument⟩ := hc.step_unnamed around hunnamed choice
        obtain ⟨hsession', hdocument'⟩ := ih _ (hc.step choice)
        exact ⟨hsession'.trans hsession, hdocument'.trans hdocument⟩
  exact hrun _ (orderly_streams hw)

section Exclusive

variable {ι : Type} [DecidableEq ι] {engine : StreamEngine} {requests : ι → StreamRequest}
  {c : StreamConfig ι}

/-- The stream has taken its lease and not given it back. -/
def Holding (c : StreamConfig ι) (i : ι) : Prop :=
  (c.threads i).past.countP took = 1 ∧
    (c.threads i).past.countP releases = 0

def InTime (around : Surroundings) (engine : StreamEngine) (requests : ι → StreamRequest)
    (c : StreamConfig ι) : Prop :=
  ∀ i grant heldUntil, Holding c i → Granted engine (requests i) grant →
    c.world.world.leases.get? grant.sessionId.value = some heldUntil →
    around.clock c.world.calls < heldUntil

/-- The lease of a stream that holds one is stored, and nobody else holds it. -/
structure Exclusive (engine : StreamEngine) (requests : ι → StreamRequest) (c : StreamConfig ι) :
    Prop extends Orderly engine requests c where
  stored : ∀ i grant, (progress engine requests c i).lease = .held →
    Granted engine (requests i) grant →
    (c.world.world.leases.get? grant.sessionId.value).isSome
  alone : ∀ i j grant grant', (progress engine requests c i).lease = .held →
    (progress engine requests c j).lease = .held → Granted engine (requests i) grant →
    Granted engine (requests j) grant' → grant.sessionId = grant'.sessionId → i = j

omit [DecidableEq ι] in
theorem Orderly.holding_iff (h : Orderly engine requests c) (i : ι) :
    Holding c i ↔ (progress engine requests c i).lease = .held := by
  have hcounts := (recorded_of_accepts (h.watched i).1).lease
  unfold Holding progress
  rw [Prod.mk.injEq] at hcounts
  rw [hcounts.1, hcounts.2]
  cases ((course engine (requests i)).state .start (c.threads i).past).lease <;>
    simp [LeaseStage.counts]

theorem Granted.unique {request : StreamRequest} {grant grant' : StreamGrant}
    (h : Granted engine request grant) (h' : Granted engine request grant') : grant = grant' :=
  Option.some.inj (Except.ok.inj (h.1.symm.trans h'.1))

/-- A call that takes no lease and leaves the stored ones alone keeps them exclusive. -/
theorem Exclusive.update (h : Exclusive engine requests c) {i : ι} {o : StreamOp}
    {next : Except Failure o.Answer → StreamProgram Unit}
    {r : Except Failure o.Answer} {w : StreamWorld}
    (horderly : Orderly engine requests
      ⟨w, Function.update c.threads i ((c.threads i).resume o next r)⟩)
    (hlease : ((progress engine requests c i).after o r).lease = .held →
      (progress engine requests c i).lease = .held)
    (hleases : w.world.leases = c.world.world.leases) :
    Exclusive engine requests
      ⟨w, Function.update c.threads i ((c.threads i).resume o next r)⟩ := by
  have hheld : ∀ {j}, (progress engine requests
      ⟨w, Function.update c.threads i ((c.threads i).resume o next r)⟩ j).lease = .held →
        (progress engine requests c j).lease = .held := by
    intro j hj
    rw [progress_update] at hj
    split_ifs at hj with hji
    · rw [hji]
      exact hlease hj
    · exact hj
  refine ⟨horderly, ?_, ?_⟩
  · intro j grant hj hgrant
    dsimp only
    rw [hleases]
    exact h.stored j grant (hheld hj) hgrant
  · intro j k grant grant' hj hk
    exact h.alone j k grant grant' (hheld hj) (hheld hk)

omit [DecidableEq ι] in
theorem Exclusive.not_held_of_granted (h : Exclusive engine requests c)
    (htime : InTime around engine requests c) {sessionId : SessionId} {ttlSeconds : ℤ}
    (hgranted : (c.world.world.acquireLease sessionId (around.clock c.world.calls)
      ttlSeconds).1 = true) {j : ι} {grant : StreamGrant}
    (hgrant : Granted engine (requests j) grant) (hsession : grant.sessionId = sessionId) :
    (progress engine requests c j).lease ≠ .held := by
  intro hheld
  obtain ⟨heldUntil, hstored⟩ := Option.isSome_iff_exists.1 (h.stored j grant hheld hgrant)
  have hlt := htime j grant heldUntil ((h.holding_iff j).2 hheld) hgrant hstored
  rw [hsession] at hstored
  simp only [World.acquireLease, hstored, if_pos hlt] at hgranted
  cases hgranted

theorem leases_acquireLease_of_true {w : World} {sessionId : SessionId} {nowMs ttlSeconds : ℤ}
    (h : (w.acquireLease sessionId nowMs ttlSeconds).1 = true) :
    (w.acquireLease sessionId nowMs ttlSeconds).2.leases =
      w.leases.set sessionId.value (nowMs + ttlSeconds * 1000) := by
  unfold World.acquireLease at h ⊢
  cases hheld : w.leases.get? sessionId.value with
  | none => rfl
  | some heldUntil =>
      simp only [hheld] at h ⊢
      split_ifs at h ⊢
      rfl

theorem leases_acquireLease_of_false {w : World} {sessionId : SessionId} {nowMs ttlSeconds : ℤ}
    (h : (w.acquireLease sessionId nowMs ttlSeconds).1 = false) :
    (w.acquireLease sessionId nowMs ttlSeconds).2 = w := by
  unfold World.acquireLease at h ⊢
  cases hheld : w.leases.get? sessionId.value with
  | none => simp [hheld] at h
  | some heldUntil =>
      simp only [hheld] at h ⊢
      split_ifs at h ⊢
      rfl

abbrev served (around : Surroundings) (c : StreamConfig ι) (i : ι) (o : StreamOp)
    (next : Except Failure o.Answer → StreamProgram Unit) : StreamConfig ι :=
  ⟨(inMemoryStreams around o c.world).2, Function.update c.threads i
    ((c.threads i).resume o next (inMemoryStreams around o c.world).1)⟩

/-- Taking a lease: whoever holds another session's keeps it. -/
theorem Exclusive.step_acquire (h : Exclusive engine requests c)
    (htime : InTime around engine requests c) {i : ι} {sessionId : SessionId} {ttlSeconds : ℤ}
    {next : Except Failure Bool → StreamProgram Unit}
    (hrest : (c.threads i).rest = .call (.acquireLease sessionId ttlSeconds) next)
    (horderly : Orderly engine requests
      (served around c i (.acquireLease sessionId ttlSeconds) next)) :
    Exclusive engine requests (served around c i (.acquireLease sessionId ttlSeconds) next) := by
  obtain ⟨-, huntaken, -, own, hown, hsession⟩ := h.permits hrest
  cases hgranted : (c.world.world.acquireLease sessionId (around.clock c.world.calls)
      ttlSeconds).1 with
  | false =>
      refine h.update horderly (fun hheld => ?_) ?_
      · simp only [inMemoryStreams, hgranted] at hheld
        exact hheld
      · exact congrArg World.leases (leases_acquireLease_of_false hgranted)
  | true =>
      have hfree : ∀ j grant, Granted engine (requests j) grant → grant.sessionId = sessionId →
          (progress engine requests c j).lease ≠ .held :=
        fun j grant => h.not_held_of_granted htime hgranted
      have hothers : ∀ {j}, j ≠ i → progress engine requests
          (served around c i (.acquireLease sessionId ttlSeconds) next) j =
          progress engine requests c j := by
        intro j hj
        rw [progress_update, if_neg hj]
      refine ⟨horderly, ?_, ?_⟩
      · intro j grant hheld hgrant
        change ((c.world.world.acquireLease sessionId (around.clock c.world.calls)
          ttlSeconds).2.leases.get? grant.sessionId.value).isSome
        rw [leases_acquireLease_of_true hgranted, Dict.get?_set]
        split_ifs with hkey
        · rfl
        · by_cases hj : j = i
          · subst hj
            rw [hgrant.unique hown, ← hsession] at hkey
            exact absurd rfl hkey
          · rw [hothers hj] at hheld
            exact h.stored j grant hheld hgrant
      · intro j k grant grant' hj hk hgrant hgrant' heq
        by_cases hji : j = i
        · by_cases hki : k = i
          · rw [hji, hki]
          · subst hji
            rw [hothers hki] at hk
            rw [hgrant.unique hown, ← hsession] at heq
            exact absurd hk (hfree k grant' hgrant' heq.symm)
        · rw [hothers hji] at hj
          by_cases hki : k = i
          · subst hki
            rw [hgrant'.unique hown, ← hsession] at heq
            exact absurd hj (hfree j grant hgrant heq)
          · rw [hothers hki] at hk
            exact h.alone j k grant grant' hj hk hgrant hgrant' heq

theorem Exclusive.step_release (h : Exclusive engine requests c) {i : ι} {sessionId : SessionId}
    {next : Except Failure Unit → StreamProgram Unit}
    (hrest : (c.threads i).rest = .call (.releaseLease sessionId) next)
    (horderly : Orderly engine requests (served around c i (.releaseLease sessionId) next)) :
    Exclusive engine requests (served around c i (.releaseLease sessionId) next) := by
  obtain ⟨hheld, own, hown, hsession⟩ := h.permits hrest
  have hothers : ∀ {j}, (progress engine requests
      (served around c i (.releaseLease sessionId) next) j).lease = .held →
      j ≠ i ∧ (progress engine requests c j).lease = .held := by
    intro j hj
    rw [progress_update] at hj
    split_ifs at hj with hji
    · cases hj
    · exact ⟨hji, hj⟩
  refine ⟨horderly, ?_, ?_⟩
  · intro j grant hj hgrant
    obtain ⟨hji, hj⟩ := hothers hj
    change ((c.world.world.leases.erase sessionId.value).get? grant.sessionId.value).isSome
    rw [Dict.get?_erase_ne]
    · exact h.stored j grant hj hgrant
    · intro hkey
      refine hji (h.alone j i grant own hj hheld hgrant hown ?_)
      rw [← hsession]
      exact SessionId.ext_value hkey
  · intro j k grant grant' hj hk
    exact h.alone j k grant grant' (hothers hj).2 (hothers hk).2

theorem Exclusive.step (h : Exclusive engine requests c) (htime : InTime around engine requests c)
    (choice : Choice Failure ι) :
    Exclusive engine requests (Interleaving.step (inMemoryStreams around) c choice) := by
  have horderly : Orderly engine requests (Interleaving.step (inMemoryStreams around) c choice) :=
    h.toOrderly.step choice
  obtain ⟨_, -, hstep⟩ | ⟨o, next, hrest, ⟨e, -, hstep⟩ | ⟨-, hstep⟩⟩ :=
    step_cases (inMemoryStreams around) c choice
  · rw [hstep]
    exact h
  · rw [hstep] at horderly ⊢
    refine h.update horderly (fun hheld => ?_) rfl
    have hlease := lease_after (progress engine requests c choice.1) ⟨o, .error e⟩
    have htook : took ⟨o, .error e⟩ = false := by cases o <;> rfl
    rw [htook, if_neg Bool.false_ne_true] at hlease
    split_ifs at hlease
    · exact absurd (hlease.symm.trans hheld) (by decide)
    · exact hlease.symm.trans hheld
  · rw [hstep] at horderly ⊢
    cases o with
    | acquireLease sessionId ttlSeconds => exact h.step_acquire htime hrest horderly
    | releaseLease sessionId => exact h.step_release hrest horderly
    | wire o =>
        cases o with
        | port o =>
            obtain ⟨grant, -, hwithin⟩ := (h.permits hrest).2.2.2 (h.faithful _)
            exact h.update horderly (Progress.framed_afterPort _ o _).lease.symm.trans
              (leases_inMemory hwithin _)
        | _ => exact h.update horderly id rfl
    | _ => exact h.update horderly id rfl

theorem Exclusive.run (h : Exclusive engine requests c) {schedule : List (Choice Failure ι)}
    (htime : Runs.Throughout (Interleaving.step (inMemoryStreams around))
      (InTime around engine requests) c schedule) :
    Exclusive engine requests (Interleaving.run (inMemoryStreams around) c schedule) := by
  induction schedule generalizing c with
  | nil => exact h
  | cons choice schedule ih =>
      obtain ⟨hnow, hlater⟩ := Runs.throughout_cons.1 htime
      exact ih (h.step hnow choice) hlater

end Exclusive

/-- Under every schedule of any number of streams, with any exceptions, in which no stream
outlives its lease: two streams of one session are never between taking and giving back the
lease at the same time. -/
theorem one_stream_at_a_time {ι : Type} [DecidableEq ι] (around : Surroundings)
    (engine : StreamEngine) (requests : ι → StreamRequest) (w : StreamWorld)
    (hw : w.world.RunsKeyed) (schedule : List (Choice Failure ι))
    (htime : Runs.Throughout (Interleaving.step (inMemoryStreams around))
      (InTime around engine requests) (streams engine requests w) schedule) (i j : ι)
    (grant grant' : StreamGrant) (hi : Granted engine (requests i) grant)
    (hj : Granted engine (requests j) grant') (heq : grant.sessionId = grant'.sessionId) :
    let c := Interleaving.run (inMemoryStreams around) (streams engine requests w) schedule
    Holding c i → Holding c j → i = j := by
  intro c hholding hholding'
  have hstart : Exclusive engine requests (streams engine requests w) := by
    refine ⟨orderly_streams hw, fun j grant hj => ?_, fun j k grant grant' hj => ?_⟩ <;> cases hj
  have hexclusive : Exclusive engine requests c := hstart.run htime
  exact hexclusive.alone i j grant grant' ((hexclusive.holding_iff i).1 hholding)
    ((hexclusive.holding_iff j).1 hholding') hi hj heq

section Short

variable {ι : Type} [DecidableEq ι] {engine : StreamEngine} {requests : ι → StreamRequest}
  {c : StreamConfig ι}

/-- No stored lease lapses at any reading of the clock. -/
def Lasting (around : Surroundings) (w : World) : Prop :=
  ∀ key heldUntil, w.leases.get? key = some heldUntil → ∀ k, around.clock k < heldUntil

/-- Where the clock never goes on by the time to live of a lease, the leases that are granted
last. -/
theorem lasting_step (hclock : ∀ j k,
      around.clock k < around.clock j + engine.streamLeaseTtlSeconds * 1000)
    (horderly : Orderly engine requests c) (h : Lasting around c.world.world)
    (choice : Choice Failure ι) :
    Lasting around (Interleaving.step (inMemoryStreams around) c choice).world.world := by
  obtain ⟨_, -, hstep⟩ | ⟨o, next, hrest, ⟨e, -, hstep⟩ | ⟨-, hstep⟩⟩ :=
    step_cases (inMemoryStreams around) c choice
  · rw [hstep]
    exact h
  · rw [hstep]
    exact h
  · rw [hstep]
    have hpermits := horderly.permits hrest
    cases o with
    | wire o =>
        cases o with
        | port o =>
            obtain ⟨grant, -, hwithin⟩ := hpermits.2.2.2 (horderly.faithful _)
            intro key heldUntil hstored
            change (inMemory o c.world.world).2.leases.get? key = some heldUntil at hstored
            rw [leases_inMemory hwithin] at hstored
            exact h key heldUntil hstored
        | _ => exact h
    | releaseLease sessionId =>
        intro key heldUntil hstored
        change (c.world.world.leases.erase sessionId.value).get? key = some heldUntil at hstored
        by_cases hkey : key = sessionId.value
        · rw [hkey, Dict.get?_erase_self] at hstored
          cases hstored
        · rw [Dict.get?_erase_ne _ hkey] at hstored
          exact h key heldUntil hstored
    | acquireLease sessionId ttlSeconds =>
        intro key heldUntil hstored
        change (c.world.world.acquireLease sessionId (around.clock c.world.calls)
          ttlSeconds).2.leases.get? key = some heldUntil at hstored
        cases hgranted : (c.world.world.acquireLease sessionId (around.clock c.world.calls)
            ttlSeconds).1 with
        | false =>
            rw [leases_acquireLease_of_false hgranted] at hstored
            exact h key heldUntil hstored
        | true =>
            rw [leases_acquireLease_of_true hgranted, Dict.get?_set] at hstored
            split_ifs at hstored
            · cases hstored
              rw [hpermits.2.2.1]
              exact hclock c.world.calls
            · exact h key heldUntil hstored
    | _ => exact h

theorem inTime_of_short (hclock : ∀ j k,
      around.clock k < around.clock j + engine.streamLeaseTtlSeconds * 1000)
    (horderly : Orderly engine requests c) (h : Lasting around c.world.world)
    (schedule : List (Choice Failure ι)) :
    Runs.Throughout (Interleaving.step (inMemoryStreams around)) (InTime around engine requests) c
      schedule := by
  have hnow : ∀ {c : StreamConfig ι}, Lasting around c.world.world →
      InTime around engine requests c :=
    fun h i grant heldUntil _ _ hstored => h _ heldUntil hstored _
  induction schedule generalizing c with
  | nil =>
      intro before rest heq
      obtain ⟨rfl, -⟩ := List.append_eq_nil_iff.1 heq.symm
      exact hnow h
  | cons choice schedule ih =>
      exact Runs.throughout_cons.2
        ⟨hnow h, ih (horderly.step choice) (lasting_step hclock horderly h choice)⟩

end Short

def studyGrant : StreamGrant where
  sessionId := studySessionId
  tenant := studyTenant
  application := studyApplication
  keyId := operator.keyId
  expiresAtMs := streamTokenTtlMs
  scopes := streamScopes

def studyStreams : StreamEngine where
  toEngine := Deployment.sampleEngine
  verify _ _ := .ok (some studyGrant)
  protocol := ⟨⟨fun _ => "", fun _ _ => ""⟩, fun _ => none⟩
  streamLeaseTtlSeconds := 60

def studyRequest : StreamRequest where
  sessionId := studySessionId.value
  token := ""
  runId := studyRunId
  verifiedMs := 0
  wallMs := 0
  epochMs := 0
  disconnectedMs := 0
  messages := 1

def studySurroundings : Surroundings where
  messages _ := (.empty, ⟨0, 0, 0⟩)
  conditions _ := ⟨fun _ => .error webSocketDisconnect, fun _ => .error webSocketDisconnect,
    ⟨fun _ _ => none, fun _ _ => none⟩⟩
  clock _ := 0

def studySchedule : List (Choice Failure (Fin 2)) := [(0, none), (0, none), (1, none), (1, none)]

theorem runsKeyed_study (state : SessionState) : (study state).RunsKeyed :=
  World.runsKeyed_fresh defaultConfiguration

def lecture : AnalysisSession := { studySession .created with id := lectureId }

def lectureHall : World := (study .created).putSession lecture

theorem runsKeyed_lectureHall : lectureHall.RunsKeyed := World.runsKeyed_fresh defaultConfiguration

/-- The first stream is accepted and opens its session while the second one is refused the lease;
then the client of the first one leaves. -/
def lectureSchedule : List (Choice Failure (Fin 2)) :=
  List.replicate 4 (0, none) ++ List.replicate 4 (1, none) ++ List.replicate 10 (0, none)

def callsPort (e : StreamEvent) : Bool :=
  match e.op with
  | .wire (.port _) => true
  | _ => false

theorem streams_within_grants_study :
    let c := Interleaving.run (inMemoryStreams studySurroundings)
      (streams studyStreams (fun _ : Fin 2 => studyRequest) ⟨lectureHall, 0⟩) lectureSchedule
    (c.threads 0).past.countP callsPort = 7 ∧
      (∀ e ∈ (c.threads 0).past, ∀ o, e.op = .wire (.port o) → ∃ grant,
        Granted studyStreams studyRequest grant ∧ Within studyRequest grant o) ∧
      c.world.world.session? studyTenant lectureId = some lecture := by
  intro c
  obtain ⟨hwithin, hframe⟩ := streams_within_grants studySurroundings studyStreams
    (fun _ : Fin 2 => studyRequest) ⟨lectureHall, 0⟩ runsKeyed_lectureHall lectureSchedule
  refine ⟨by decide +kernel, hwithin 0, (hframe studyTenant lectureId ?_).1⟩
  rintro i grant ⟨hgrant, -⟩ ⟨-, hsession⟩
  rw [← Option.some.inj (Except.ok.inj hgrant)] at hsession
  exact absurd hsession (by decide)

theorem one_stream_at_a_time_study :
    let c := Interleaving.run (inMemoryStreams studySurroundings)
      (streams studyStreams (fun _ : Fin 2 => studyRequest) ⟨study .created, 0⟩) studySchedule
    Holding c 0 ∧ ¬Holding c 1 := by
  intro c
  have hholding : Holding c 0 := ⟨by decide +kernel, by decide +kernel⟩
  refine ⟨hholding, fun hholding' => ?_⟩
  have hsame := one_stream_at_a_time studySurroundings studyStreams
    (fun _ : Fin 2 => studyRequest) ⟨study .created, 0⟩ (runsKeyed_study _) studySchedule
    (inTime_of_short (fun _ _ => (by decide : (0 : ℤ) < 0 + 60 * 1000))
      (orderly_streams (runsKeyed_study _)) (fun key heldUntil h => by cases h) studySchedule)
    0 1 studyGrant studyGrant ⟨rfl, rfl⟩ ⟨rfl, rfl⟩ rfl hholding hholding'
  exact absurd hsame (by decide)

end StreamHandler

end OratoriaEngine
