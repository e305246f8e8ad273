import OratoriaEngine.IdempotentCreation
import OratoriaEngine.Lib.Runs
import OratoriaEngine.RedisState
import Mathlib.Data.Finset.Card
import Mathlib.Data.Int.DivMod
import Mathlib.Tactic.Ring

/-!
# How many sessions a quota admits

A creation checks the quota first and counts its unit last, many calls later. The quota
bounds the sessions that are added as long as no check is answered while the creations that
passed theirs and have not counted yet would use up the rest of it.
-/

namespace OratoriaEngine

/-- The units of the window, in process memory. -/
def World.unitsCounted (application : ApplicationId) (unit : String) (window : ℤ) (w : World) : ℤ :=
  (w.quotaCounts.get? (application.value, unit, window)).getD 0

/-- A deployment whose quotas are on Redis. -/
structure RedisWorld where
  memory : World
  quota : RedisQuotaGuard

/-- The same operations, with the quota on Redis. -/
def withRedisQuota : Program.Ports Port Port.Answer Failure RedisWorld
  | .quotaCheck application unit epochMs, w => (.ok (w.quota.check application unit epochMs), w)
  | .quotaConsume application unit epochMs, w =>
      (.ok (), { w with quota := w.quota.consume application unit epochMs })
  | o, w =>
      let outcome := inMemory o w.memory
      (outcome.1, { w with memory := outcome.2 })

def RedisQuotaGuard.lastMs (windowSeconds window : ℤ) : ℤ :=
  (window + 1) * (windowSeconds * 1000) - 1

def RedisKeys.unitsAt (keys : RedisKeys ℤ) (nowMs : ℤ) (key : String) : ℤ :=
  ((keys.find? nowMs key).map (·.value)).getD 0

/-- The count that a window holds on Redis. -/
def RedisWorld.unitsCounted (application : ApplicationId) (windowSeconds window : ℤ)
    (w : RedisWorld) : ℤ :=
  w.quota.keys.unitsAt (RedisQuotaGuard.lastMs windowSeconds window)
    (RedisQuotaGuard.windowKey application "sessions" window)

/-- The quota is configured, and its count is one. -/
structure RedisWorld.Configured (application : ApplicationId) (limit windowSeconds window : ℤ)
    (w : RedisWorld) : Prop where
  limit : w.quota.limits.get? "sessions" = some limit
  windowSeconds : w.quota.windowSeconds = windowSeconds
  nonneg : ∀ entry, w.quota.keys.get? (RedisQuotaGuard.windowKey application "sessions" window) =
    some entry → 0 ≤ entry.value

namespace SessionQuota

open Interleaving

open RedisKeys (unitsAt)

open RedisQuotaGuard (lastMs)

/-- An operation on the quota is about the application's sessions and happens in the window. -/
def Timely (application : ApplicationId) (InWindow : ℤ → Prop) : Port → Prop
  | .quotaCheck a unit epochMs | .quotaConsume a unit epochMs =>
      a = application ∧ unit = "sessions" ∧ InWindow epochMs
  | _ => True

/-- A count of sessions that the quota is checked against and that only grows. -/
structure Meter (W : Type) (ports : Program.Ports Port Port.Answer Failure W)
    (application : ApplicationId) (InWindow : ℤ → Prop) (limit : ℤ) where
  Valid : W → Prop
  used : W → ℤ
  used_nonneg : ∀ w, Valid w → 0 ≤ used w
  valid_step : ∀ o w, Valid w → Timely application InWindow o → Valid (ports o w).2
  used_step : ∀ o w, Valid w → Timely application InWindow o → used w ≤ used (ports o w).2
  used_consume : ∀ epochMs w, Valid w → InWindow epochMs →
    used w < used (ports (.quotaConsume application "sessions" epochMs) w).2
  used_check : ∀ epochMs w decision, Valid w → InWindow epochMs →
    (ports (.quotaCheck application "sessions" epochMs) w).1 = .ok decision →
      decision.allowed = true → used w < limit

section Past

variable (past : List (Event Port Port.Answer Failure))

def Passed : Prop :=
  ∃ application unit epochMs decision,
    ⟨.quotaCheck application unit epochMs, .ok decision⟩ ∈ past ∧ decision.allowed = true

/-- The creation added a session. -/
def Added : Prop := ∃ session, ⟨.sessionsAdd session, .ok ()⟩ ∈ past

def Counted : Prop :=
  ∃ application unit epochMs, ⟨.quotaConsume application unit epochMs, .ok ()⟩ ∈ past

end Past

/-- A session is added after a passed check, and the quota is asked in the window. -/
def Disciplined (application : ApplicationId) (InWindow : ℤ → Prop)
    (past : List (Event Port Port.Answer Failure)) (o : Port) : Prop :=
  Timely application InWindow o ∧ ∀ session, o = .sessionsAdd session → Passed past

variable {application : ApplicationId} {InWindow : ℤ → Prop}
  {past later : List (Event Port Port.Answer Failure)}

theorem Passed.append (h : Passed past) (later : List (Event Port Port.Answer Failure)) :
    Passed (past ++ later) := by
  obtain ⟨a, unit, epochMs, decision, hmem, hallowed⟩ := h
  exact ⟨a, unit, epochMs, decision, List.mem_append_left _ hmem, hallowed⟩

variable {e : Event Port Port.Answer Failure}

theorem Passed.of_concat (h : Passed (past ++ [e])) :
    Passed past ∨ ∃ a unit epochMs decision,
      e = ⟨.quotaCheck a unit epochMs, .ok decision⟩ ∧ decision.allowed = true := by
  obtain ⟨a, unit, epochMs, decision, hmem, hallowed⟩ := h
  rcases List.mem_append.1 hmem with hmem | hmem
  · exact Or.inl ⟨a, unit, epochMs, decision, hmem, hallowed⟩
  · exact Or.inr ⟨a, unit, epochMs, decision, (List.mem_singleton.1 hmem).symm, hallowed⟩

theorem Added.of_concat (h : Added (past ++ [e])) :
    Added past ∨ ∃ session, e = ⟨.sessionsAdd session, .ok ()⟩ := by
  obtain ⟨session, hmem⟩ := h
  rcases List.mem_append.1 hmem with hmem | hmem
  · exact Or.inl ⟨session, hmem⟩
  · exact Or.inr ⟨session, (List.mem_singleton.1 hmem).symm⟩

theorem Counted.of_concat (h : Counted (past ++ [e])) :
    Counted past ∨ ∃ a unit epochMs, e = ⟨.quotaConsume a unit epochMs, .ok ()⟩ := by
  obtain ⟨a, unit, epochMs, hmem⟩ := h
  rcases List.mem_append.1 hmem with hmem | hmem
  · exact Or.inl ⟨a, unit, epochMs, hmem⟩
  · exact Or.inr ⟨a, unit, epochMs, (List.mem_singleton.1 hmem).symm⟩

section Course

variable (mint : StreamGrant → String) {caller : AuthenticatedCaller}
  {command : CreateSessionCommand} {α : Type}

theorem heeds_replay (epochMs : ℤ) :
    Heeds (Disciplined application InWindow) (CreateSession.replay mint caller command epochMs)
      past := by
  unfold CreateSession.replay
  cases command.idempotencyKey with
  | none => exact heeds_pure _
  | some key =>
      refine heeds_port_bind ⟨trivial, fun _ h => nomatch h⟩ fun found => ?_
      cases found <;> exact heeds_pure _

theorem heeds_insert (happlication : caller.application = application) (hpassed : Passed past)
    (session : AnalysisSession) (snapshot : ConfigurationSnapshot)
    (capabilities : NegotiatedCapabilities) (nowMs : ℤ) {consumedMs : ℤ}
    (hwindow : InWindow consumedMs) :
    Heeds (Disciplined application InWindow) (CreateSession.insert mint caller command session
      snapshot capabilities nowMs consumedMs) past := by
  refine heeds_port_bind ⟨trivial, fun _ _ => hpassed⟩ fun _ => ?_
  refine heeds_port_bind ⟨trivial, fun _ h => nomatch h⟩ fun _ => ?_
  refine heeds_port_bind ⟨trivial, fun _ h => nomatch h⟩ fun _ => ?_
  refine heeds_port_bind ⟨⟨happlication, rfl, hwindow⟩, fun _ h => nomatch h⟩ fun _ => ?_
  exact heeds_pure _

theorem heeds_execute (happlication : caller.application = application) (sessionId : SessionId)
    {epochMs : ℕ → ℤ} (hwindow : ∀ n, InWindow (epochMs n)) :
    Heeds (Disciplined application InWindow)
      (CreateSession.execute mint caller command sessionId epochMs) past := by
  unfold CreateSession.execute Command.requireScope
  split_ifs
  · apply heeds_bind (heeds_pure ())
    intro _ first
    apply heeds_bind (heeds_replay mint _)
    intro existing later
    cases existing with
    | some existing => exact heeds_pure _
    | none =>
        refine heeds_port_bind ⟨⟨happlication, rfl, hwindow 1⟩, fun _ h => nomatch h⟩
          fun decision => ?_
        by_cases hallowed : decision.allowed = true
        · simp only [if_pos hallowed]
          have hpassed : Passed (past ++ first ++ later ++
              [⟨.quotaCheck caller.application "sessions" (epochMs 1), .ok decision⟩]) :=
            ⟨_, _, _, decision, List.mem_append_right _ List.mem_cons_self, hallowed⟩
          apply heeds_ofExcept_bind
          intro capabilities _
          refine heeds_port_bind ⟨trivial, fun _ h => nomatch h⟩ fun snapshot => ?_
          apply heeds_ofExcept_bind
          intro session _
          refine heeds_bind ?_ fun replayed later' => ?_
          · unfold CreateSession.claim
            cases command.idempotencyKey with
            | none => exact heeds_pure _
            | some key =>
                refine heeds_port_bind ⟨trivial, fun _ h => nomatch h⟩ fun claimed => ?_
                cases claimed
                · exact heeds_replay mint _
                · exact heeds_pure _
          · cases replayed with
            | some replayed => exact heeds_pure _
            | none =>
                exact heeds_insert mint happlication ((hpassed.append _).append _) _ _ _ _
                  (hwindow 4)
        · simp only [if_neg hallowed]
          exact heeds_raise _
  · exact heeds_raise _

end Course

section Run

variable {W ι : Type}

/-- A creation that passed its check and has added its session or may still do so. -/
def Admitted (t : Thread Port Port.Answer Failure CreatedSession) : Prop :=
  Passed t.past ∧ (Added t.past ∨ t.outcome = none)

/-- An admitted creation whose unit is not counted yet. -/
def Outstanding (t : Thread Port Port.Answer Failure CreatedSession) : Prop :=
  Admitted t ∧ ¬Counted t.past

/-- If a quota check is served next and finds room, the units counted and the creations still
outstanding leave room too. -/
def LeavesRoom (used : W → ℤ) (limit : ℤ)
    (c : Config Port Port.Answer Failure CreatedSession W ι) (s : Choice Failure ι) : Prop :=
  ∀ application unit epochMs next,
    (c.threads s.1).rest = .call (.quotaCheck application unit epochMs) next → s.2 = none →
      used c.world < limit →
        ∀ others : Finset ι, (∀ j ∈ others, j ≠ s.1 ∧ Outstanding (c.threads j)) →
          used c.world + others.card < limit

variable {ports : Program.Ports Port Port.Answer Failure W} {limit : ℕ}
  (meter : Meter W ports application InWindow limit)

/-- No more creations are admitted than the limit, and none is counted that the meter misses. -/
structure WithinLimit (c : Config Port Port.Answer Failure CreatedSession W ι) : Prop where
  valid : meter.Valid c.world
  heeds : ∀ i, Heeds (Disciplined application InWindow) (c.threads i).rest (c.threads i).past
  passed : ∀ i, Added (c.threads i).past → Passed (c.threads i).past
  counted : ∀ s : Finset ι, (∀ i ∈ s, Counted (c.threads i).past) →
    (s.card : ℤ) ≤ meter.used c.world
  admitted : ∀ s : Finset ι, (∀ i ∈ s, Admitted (c.threads i)) → s.card ≤ limit

variable {meter} [DecidableEq ι] {c : Config Port Port.Answer Failure CreatedSession W ι}

theorem admitted_of_resume {t : Thread Port Port.Answer Failure CreatedSession} {o : Port}
    {next : Except Failure o.Answer → Command CreatedSession} (hrest : t.rest = .call o next)
    (hpassed : Passed t.past) : Admitted t :=
  ⟨hpassed, Or.inr (by rw [Thread.outcome, hrest])⟩

section Resume

variable {i : ι} {o : Port} {next : Except Failure o.Answer → Command CreatedSession}
  {r : Except Failure o.Answer}

theorem counted_resume (h : WithinLimit meter c) {w : W}
    (hused : meter.used c.world ≤ meter.used w)
    (hcount : ∀ a unit epochMs, (⟨o, r⟩ : Event Port Port.Answer Failure) =
      ⟨.quotaConsume a unit epochMs, .ok ()⟩ → meter.used c.world < meter.used w)
    (s : Finset ι) (hs : ∀ j ∈ s, Counted
      ((Function.update c.threads i ((c.threads i).resume o next r)) j).past) :
    (s.card : ℤ) ≤ meter.used w := by
  have hothers : ∀ j ∈ s, j ≠ i → Counted (c.threads j).past := fun j hj hne => by
    simpa only [Function.update_of_ne hne] using hs j hj
  by_cases hi : i ∈ s → Counted (c.threads i).past
  · refine (h.counted s fun j hj => ?_).trans hused
    by_cases hne : j = i
    · subst hne
      exact hi hj
    · exact hothers j hj hne
  · obtain ⟨hmem, hnot⟩ := Classical.not_imp.1 hi
    have hself := hs i hmem
    rw [Function.update_self] at hself
    obtain ⟨a, unit, epochMs, heq⟩ := hself.of_concat.resolve_left hnot
    have hfewer := h.counted (s.erase i) fun j hj =>
      hothers j (Finset.mem_of_mem_erase hj) (Finset.ne_of_mem_erase hj)
    have hcard := Finset.card_erase_add_one hmem
    have hmore := hcount a unit epochMs heq
    omega

theorem admitted_resume (h : WithinLimit meter c) (hrest : (c.threads i).rest = .call o next)
    (hcheck : ∀ a unit epochMs decision, (⟨o, r⟩ : Event Port Port.Answer Failure) =
      ⟨.quotaCheck a unit epochMs, .ok decision⟩ → decision.allowed = true →
        ∀ others : Finset ι, (∀ j ∈ others, j ≠ i ∧ Outstanding (c.threads j)) →
          meter.used c.world + others.card < limit)
    (s : Finset ι) (hs : ∀ j ∈ s,
      Admitted ((Function.update c.threads i ((c.threads i).resume o next r)) j)) :
    s.card ≤ limit := by
  have hothers : ∀ j ∈ s, j ≠ i → Admitted (c.threads j) := fun j hj hne => by
    simpa only [Function.update_of_ne hne] using hs j hj
  by_cases hi : i ∈ s → Passed (c.threads i).past
  · apply h.admitted s
    intro j hj
    by_cases hne : j = i
    · subst hne
      exact admitted_of_resume hrest (hi hj)
    · exact hothers j hj hne
  · obtain ⟨hmem, hnot⟩ := Classical.not_imp.1 hi
    have hself := hs i hmem
    rw [Function.update_self] at hself
    obtain ⟨a, unit, epochMs, decision, heq, hallowed⟩ := hself.1.of_concat.resolve_left hnot
    classical
    let counted := (s.erase i).filter fun j => Counted (c.threads j).past
    let outstanding := (s.erase i).filter fun j => ¬Counted (c.threads j).past
    have hcounted : (counted.card : ℤ) ≤ meter.used c.world :=
      h.counted counted fun j hj => (Finset.mem_filter.1 hj).2
    have hroom : meter.used c.world + outstanding.card < limit := by
      apply hcheck a unit epochMs decision heq hallowed outstanding
      intro j hj
      obtain ⟨hj, hnone⟩ := Finset.mem_filter.1 hj
      have hne := Finset.ne_of_mem_erase hj
      exact ⟨hne, hothers j (Finset.mem_of_mem_erase hj) hne, hnone⟩
    have hsplit : counted.card + outstanding.card = (s.erase i).card :=
      Finset.card_filter_add_card_filter_not _
    have hcard := Finset.card_erase_add_one hmem
    omega

theorem WithinLimit.resume (h : WithinLimit meter c) (hrest : (c.threads i).rest = .call o next)
    {w : W} (hvalid : meter.Valid w) (hused : meter.used c.world ≤ meter.used w)
    (hcount : ∀ a unit epochMs, (⟨o, r⟩ : Event Port Port.Answer Failure) =
      ⟨.quotaConsume a unit epochMs, .ok ()⟩ → meter.used c.world < meter.used w)
    (hcheck : ∀ a unit epochMs decision, (⟨o, r⟩ : Event Port Port.Answer Failure) =
      ⟨.quotaCheck a unit epochMs, .ok decision⟩ → decision.allowed = true →
        ∀ others : Finset ι, (∀ j ∈ others, j ≠ i ∧ Outstanding (c.threads j)) →
          meter.used c.world + others.card < limit) :
    WithinLimit meter ⟨w, Function.update c.threads i ((c.threads i).resume o next r)⟩ where
  valid := hvalid
  heeds j := by
    by_cases hj : j = i
    · subst hj
      have hcall := h.heeds j
      rw [hrest] at hcall
      simpa only [Function.update_self, Thread.resume] using hcall.2 r
    · simpa only [Function.update_of_ne hj] using h.heeds j
  passed j hadded := by
    by_cases hj : j = i
    · subst hj
      simp only [Function.update_self, Thread.resume] at hadded ⊢
      rcases hadded.of_concat with hbefore | ⟨session, heq⟩
      · exact (h.passed j hbefore).append _
      · have hcall := h.heeds j
        rw [hrest] at hcall
        exact (hcall.1.2 session (congrArg Event.op heq)).append _
    · simp only [Function.update_of_ne hj] at hadded ⊢
      exact h.passed j hadded
  counted := counted_resume h hused hcount
  admitted := admitted_resume h hrest hcheck

end Resume

theorem WithinLimit.step (h : WithinLimit meter c) {choice : Choice Failure ι}
    (hroom : LeavesRoom meter.used limit c choice) :
    WithinLimit meter (Interleaving.step ports c choice) := by
  rcases step_cases ports c choice with
    ⟨r, -, hstep⟩ | ⟨o, next, hrest, ⟨e, -, hstep⟩ | ⟨hserved, hstep⟩⟩
  · rw [hstep]
    exact h
  · rw [hstep]
    refine h.resume hrest h.valid le_rfl (fun _ _ _ heq => ?_) fun _ _ _ _ heq => ?_ <;> cases heq
  · rw [hstep]
    have hcall := h.heeds choice.1
    rw [hrest] at hcall
    have htimely := hcall.1.1
    refine h.resume hrest (meter.valid_step o c.world h.valid htimely)
      (meter.used_step o c.world h.valid htimely) (fun a unit epochMs heq => ?_)
      fun a unit epochMs decision heq hallowed => ?_
    · obtain rfl : o = .quotaConsume a unit epochMs := congrArg Event.op heq
      obtain ⟨rfl, rfl, hwindow⟩ := htimely
      exact meter.used_consume epochMs c.world h.valid hwindow
    · obtain rfl : o = .quotaCheck a unit epochMs := congrArg Event.op heq
      obtain ⟨rfl, rfl, hwindow⟩ := htimely
      have hanswer := eq_of_heq (Event.mk.inj heq).2
      exact hroom _ _ _ next hrest hserved
        (meter.used_check epochMs c.world decision h.valid hwindow hanswer hallowed)

omit [DecidableEq ι] in
theorem withinLimit_start {calls : ι → CreateSession.Call} {w : W} (hvalid : meter.Valid w)
    (happlication : ∀ i, (calls i).caller.application = application)
    (hwindow : ∀ i n, InWindow ((calls i).epochMs n)) :
    WithinLimit meter ⟨w, fun i => .start (calls i).program⟩ where
  valid := hvalid
  heeds i := heeds_execute (calls i).mint (happlication i) (calls i).sessionId (hwindow i)
  passed i h := by
    obtain ⟨session, hmem⟩ := h
    cases hmem
  counted s hs := by
    have hnone : s = ∅ := Finset.eq_empty_of_forall_notMem fun i hi => by
      obtain ⟨a, unit, epochMs, hmem⟩ := hs i hi
      cases hmem
    rw [hnone]
    exact meter.used_nonneg w hvalid
  admitted s hs := by
    have hnone : s = ∅ := Finset.eq_empty_of_forall_notMem fun i hi => by
      obtain ⟨⟨a, unit, epochMs, decision, hmem, -⟩, -⟩ := hs i hi
      cases hmem
    rw [hnone]
    exact Nat.zero_le limit

variable (meter) in
/-- Whatever counts the units, no more creations add a session than the limit. -/
theorem card_added_le {calls : ι → CreateSession.Call} {w : W} (hvalid : meter.Valid w)
    (happlication : ∀ i, (calls i).caller.application = application)
    (hwindow : ∀ i n, InWindow ((calls i).epochMs n)) {schedule : List (Choice Failure ι)}
    (hroom : Runs.EveryStep (Interleaving.step ports) (LeavesRoom meter.used limit)
      ⟨w, fun i => .start (calls i).program⟩ schedule) (s : Finset ι)
    (hs : ∀ i ∈ s, Added ((run ports (⟨w, fun i => .start (calls i).program⟩ :
      Config Port Port.Answer Failure CreatedSession W ι) schedule).threads i).past) :
    s.card ≤ limit := by
  have hend := Runs.foldl_induction (I := WithinLimit meter) (fun _ _ h hstep => h.step hstep)
    (withinLimit_start hvalid happlication hwindow) hroom
  exact hend.admitted s fun i hi => ⟨hend.passed i (hs i hi), Or.inl (hs i hi)⟩

end Run

theorem quota_inMemory (o : Port) (w : World)
    (h : ∀ a unit epochMs, o ≠ .quotaConsume a unit epochMs) :
    (inMemory o w).2.quotaLimits = w.quotaLimits ∧ (inMemory o w).2.quotaCounts = w.quotaCounts ∧
      (inMemory o w).2.quotaWindowMs = w.quotaWindowMs := by
  cases o with
  | quotaConsume a unit epochMs => exact absurd rfl (h a unit epochMs)
  | claimIdempotencyKey a key sessionId =>
      simp only [inMemory, World.claimIdempotencyKey]
      split_ifs <;> exact ⟨rfl, rfl, rfl⟩
  | evidenceDeleteForSession tenant sessionId =>
      simp only [inMemory, World.deleteEvidenceForSession_snd, and_self]
  | _ => exact ⟨rfl, rfl, rfl⟩

theorem unitsCounted_quotaConsume {application : ApplicationId} {unit : String}
    {epochMs window : ℤ} {w : World} (h : Int.fdiv epochMs w.quotaWindowMs = window) :
    (w.quotaConsume application unit epochMs).unitsCounted application unit window =
      w.unitsCounted application unit window + 1 := by
  have hkey : w.quotaKey application unit epochMs = (application.value, unit, window) := by
    rw [World.quotaKey, h]
  rw [World.unitsCounted, World.quotaConsume, World.quotaUsed, hkey, Dict.get?_set_self]
  rfl

theorem inMemory_cases {application : ApplicationId} {windowMs window : ℤ} {o : Port} {w : World}
    (hwindow : w.quotaWindowMs = windowMs)
    (ho : Timely application (fun epochMs => Int.fdiv epochMs windowMs = window) o) :
    (inMemory o w).2.quotaLimits = w.quotaLimits ∧ (inMemory o w).2.quotaWindowMs = windowMs ∧
      w.unitsCounted application "sessions" window ≤
        (inMemory o w).2.unitsCounted application "sessions" window := by
  by_cases hconsume : ∃ a unit epochMs, o = .quotaConsume a unit epochMs
  · obtain ⟨a, unit, epochMs, rfl⟩ := hconsume
    obtain ⟨rfl, rfl, hin⟩ := ho
    refine ⟨rfl, hwindow, ?_⟩
    change _ ≤ (w.quotaConsume a "sessions" epochMs).unitsCounted a "sessions" window
    rw [unitsCounted_quotaConsume (by rw [hwindow]; exact hin)]
    omega
  · obtain ⟨hlimits, hcounts, hms⟩ := quota_inMemory o w
      fun a unit epochMs h => hconsume ⟨a, unit, epochMs, h⟩
    refine ⟨hlimits, hms.trans hwindow, ?_⟩
    rw [World.unitsCounted, World.unitsCounted, hcounts]

def inMemoryMeter (application : ApplicationId) (limit windowMs window : ℤ) :
    Meter World inMemory application (fun epochMs => Int.fdiv epochMs windowMs = window) limit where
  Valid w := w.quotaLimits.get? "sessions" = some limit ∧ w.quotaWindowMs = windowMs ∧
    0 ≤ w.unitsCounted application "sessions" window
  used w := w.unitsCounted application "sessions" window
  used_nonneg w h := h.2.2
  valid_step o w h ho := by
    obtain ⟨hlimits, hms, hused⟩ := inMemory_cases h.2.1 ho
    exact ⟨by rw [hlimits]; exact h.1, hms, h.2.2.trans hused⟩
  used_step o w h ho := (inMemory_cases h.2.1 ho).2.2
  used_consume epochMs w h hin := by
    change _ < (w.quotaConsume application "sessions" epochMs).unitsCounted application "sessions"
      window
    rw [unitsCounted_quotaConsume (by rw [h.2.1]; exact hin)]
    omega
  used_check epochMs w decision h hin hanswer hallowed := by
    obtain rfl : w.quotaCheck application "sessions" epochMs = decision := Except.ok.inj hanswer
    have hused : w.quotaUsed application "sessions" epochMs =
        w.unitsCounted application "sessions" window := by
      rw [World.quotaUsed, World.quotaKey, h.2.1, hin]
      rfl
    unfold World.quotaCheck at hallowed
    rw [h.1, hused] at hallowed
    dsimp only at hallowed
    split_ifs at hallowed with hfull
    omega

theorem lastMs_bounds {windowSeconds window epochMs : ℤ} (hpos : 0 < windowSeconds)
    (h : Int.fdiv (Int.fdiv epochMs 1000) windowSeconds = window) :
    epochMs ≤ lastMs windowSeconds window ∧
      lastMs windowSeconds window < epochMs + windowSeconds * 1000 := by
  rw [Int.fdiv_eq_ediv_of_nonneg _ hpos.le, Int.fdiv_eq_ediv_of_nonneg _ (by decide)] at h
  have hlow := Int.ediv_mul_le (epochMs / 1000) hpos.ne'
  have hhigh := Int.lt_ediv_add_one_mul_self (epochMs / 1000) hpos
  rw [h] at hlow hhigh
  have hlast : lastMs windowSeconds window =
      1000 * (window * windowSeconds + windowSeconds) - 1 := by
    unfold lastMs
    ring
  have hnext : (window + 1) * windowSeconds = window * windowSeconds + windowSeconds := by ring
  rw [hnext] at hhigh
  omega

theorem unitsAt_nonneg {keys : RedisKeys ℤ} {key : String}
    (h : ∀ entry, keys.get? key = some entry → 0 ≤ entry.value) (nowMs : ℤ) :
    0 ≤ unitsAt keys nowMs key := by
  unfold unitsAt RedisKeys.find?
  cases hget : keys.get? key with
  | none => exact le_rfl
  | some entry =>
      rw [Option.filter_some]
      split_ifs
      · exact h entry hget
      · exact le_rfl

theorem unitsAt_antitone {keys : RedisKeys ℤ} {key : String}
    (h : ∀ entry, keys.get? key = some entry → 0 ≤ entry.value) {nowMs laterMs : ℤ}
    (hle : nowMs ≤ laterMs) : unitsAt keys laterMs key ≤ unitsAt keys nowMs key := by
  by_cases hthere : ∃ entry, keys.get? key = some entry ∧ laterMs ≤ entry.expiresAtMs
  · obtain ⟨entry, hget, hlive⟩ := hthere
    have hnow := hle.trans hlive
    simp only [unitsAt, RedisKeys.find?, hget, Option.filter_some, hlive, hnow, decide_true,
      if_true, le_refl]
  · have hgone : keys.find? laterMs key = none := RedisKeys.find?_eq_none_iff.2
      fun entry hget => not_le.1 fun hlive => hthere ⟨entry, hget, hlive⟩
    rw [unitsAt, hgone]
    exact unitsAt_nonneg h nowMs

section Redis

variable {application : ApplicationId} {limit windowSeconds window epochMs : ℤ} {w : RedisWorld}

theorem key_of_window (h : w.Configured application limit windowSeconds window)
    (hin : Int.fdiv (Int.fdiv epochMs 1000) windowSeconds = window) :
    w.quota.key application "sessions" epochMs =
      RedisQuotaGuard.windowKey application "sessions" window := by
  rw [RedisQuotaGuard.key, RedisQuotaGuard.window, h.windowSeconds, hin]

theorem configured_consume (hpos : 0 < windowSeconds)
    (h : w.Configured application limit windowSeconds window)
    (hin : Int.fdiv (Int.fdiv epochMs 1000) windowSeconds = window) :
    let w' : RedisWorld := { w with quota := w.quota.consume application "sessions" epochMs }
    w'.Configured application limit windowSeconds window ∧
      w.unitsCounted application windowSeconds window <
        w'.unitsCounted application windowSeconds window := by
  intro w'
  obtain ⟨hnow, hlive⟩ := lastMs_bounds hpos hin
  have hkeys : w'.quota.keys = w.quota.keys.set
      (RedisQuotaGuard.windowKey application "sessions" window)
      ⟨unitsAt w.quota.keys epochMs (RedisQuotaGuard.windowKey application "sessions" window) + 1,
        epochMs + windowSeconds * 1000⟩ := by
    simp only [w', RedisQuotaGuard.consume, RedisKeys.incrByExpire, key_of_window h hin,
      h.windowSeconds, if_neg (not_le.2 hpos)]
    rfl
  have hunits := unitsAt_nonneg h.nonneg epochMs
  refine ⟨⟨h.limit, h.windowSeconds, fun entry hentry => ?_⟩, ?_⟩
  · rw [hkeys, Dict.get?_set_self] at hentry
    cases hentry
    exact hunits.trans (Int.le_add_one le_rfl)
  · have hafter : w'.unitsCounted application windowSeconds window =
        unitsAt w.quota.keys epochMs
          (RedisQuotaGuard.windowKey application "sessions" window) + 1 := by
      rw [RedisWorld.unitsCounted, unitsAt, hkeys, RedisKeys.find?, Dict.get?_set_self,
        Option.filter_some, if_pos (by simpa using hlive.le)]
      rfl
    rw [hafter]
    exact Int.lt_add_one_of_le (unitsAt_antitone h.nonneg hnow)

theorem withRedisQuota_cases (hpos : 0 < windowSeconds) {o : Port}
    (h : w.Configured application limit windowSeconds window)
    (ho : Timely application
      (fun epochMs => Int.fdiv (Int.fdiv epochMs 1000) windowSeconds = window) o) :
    (withRedisQuota o w).2.Configured application limit windowSeconds window ∧
      w.unitsCounted application windowSeconds window ≤
        (withRedisQuota o w).2.unitsCounted application windowSeconds window := by
  by_cases hconsume : ∃ a unit epochMs, o = .quotaConsume a unit epochMs
  · obtain ⟨a, unit, epochMs, rfl⟩ := hconsume
    obtain ⟨rfl, rfl, hin⟩ := ho
    obtain ⟨hconfigured, hless⟩ := configured_consume hpos h hin
    exact ⟨hconfigured, hless.le⟩
  · have hquota : (withRedisQuota o w).2.quota = w.quota := by
      cases o with
      | quotaConsume a unit epochMs => exact absurd ⟨a, unit, epochMs, rfl⟩ hconsume
      | _ => rfl
    refine ⟨⟨by rw [hquota]; exact h.limit, by rw [hquota]; exact h.windowSeconds,
      by rw [hquota]; exact h.nonneg⟩, ?_⟩
    rw [RedisWorld.unitsCounted, RedisWorld.unitsCounted, hquota]

end Redis

def redisMeter (application : ApplicationId) (limit : ℤ) {windowSeconds : ℤ}
    (hpos : 0 < windowSeconds) (window : ℤ) :
    Meter RedisWorld withRedisQuota application
      (fun epochMs => Int.fdiv (Int.fdiv epochMs 1000) windowSeconds = window) limit where
  Valid := RedisWorld.Configured application limit windowSeconds window
  used := RedisWorld.unitsCounted application windowSeconds window
  used_nonneg _ h := unitsAt_nonneg h.nonneg _
  valid_step _ _ h ho := (withRedisQuota_cases hpos h ho).1
  used_step _ _ h ho := (withRedisQuota_cases hpos h ho).2
  used_consume _ _ h hin := (configured_consume hpos h hin).2
  used_check epochMs w decision h hin hanswer hallowed := by
    obtain rfl : w.quota.check application "sessions" epochMs = decision := Except.ok.inj hanswer
    unfold RedisQuotaGuard.check at hallowed
    rw [h.limit, key_of_window h hin] at hallowed
    dsimp only at hallowed
    split_ifs at hallowed with hfull
    have hlater := unitsAt_antitone h.nonneg (lastMs_bounds hpos hin).1
    unfold RedisWorld.unitsCounted
    unfold unitsAt at hlater ⊢
    omega

/-- In one window, and as long as every check that is served leaves room for the creations that
are outstanding, no more creations of an application add a session than the limit. -/
theorem card_added_le_limit {ι : Type} [DecidableEq ι] {calls : ι → CreateSession.Call}
    {application : ApplicationId} (limit : ℕ) (window : ℤ)
    (happlication : ∀ i, (calls i).caller.application = application) :
    (∀ (w : World) (schedule : List (Choice Failure ι)),
        w.quotaLimits.get? "sessions" = some (limit : ℤ) →
        0 ≤ w.unitsCounted application "sessions" window →
        (∀ i n, Int.fdiv ((calls i).epochMs n) w.quotaWindowMs = window) →
        Runs.EveryStep (Interleaving.step inMemory)
          (LeavesRoom (World.unitsCounted application "sessions" window) limit)
          ⟨w, fun i => .start (calls i).program⟩ schedule →
        ∀ s : Finset ι, (∀ i ∈ s, Added ((run inMemory
          (⟨w, fun i => .start (calls i).program⟩ : Config _ _ _ _ _ ι) schedule).threads i).past) →
          s.card ≤ limit) ∧
      ∀ (w : RedisWorld) (schedule : List (Choice Failure ι)), 0 < w.quota.windowSeconds →
        w.Configured application limit w.quota.windowSeconds window →
        (∀ i n, Int.fdiv (Int.fdiv ((calls i).epochMs n) 1000) w.quota.windowSeconds = window) →
        Runs.EveryStep (Interleaving.step withRedisQuota)
          (LeavesRoom (RedisWorld.unitsCounted application w.quota.windowSeconds window) limit)
          ⟨w, fun i => .start (calls i).program⟩ schedule →
        ∀ s : Finset ι, (∀ i ∈ s, Added ((run withRedisQuota
          (⟨w, fun i => .start (calls i).program⟩ : Config _ _ _ _ _ ι) schedule).threads i).past) →
          s.card ≤ limit := by
  constructor
  · intro w schedule hlimit hused hwindow hroom
    exact card_added_le (inMemoryMeter application limit w.quotaWindowMs window)
      ⟨hlimit, rfl, hused⟩ happlication hwindow hroom
  · intro w schedule hpos hconfigured hwindow hroom
    exact card_added_le (redisMeter application limit hpos window) hconfigured
      happlication hwindow hroom

/-- Two creations of one application, without idempotency keys. -/
def visitors (second : Bool) : CreateSession.Call :=
  { CreateSession.rivals second with command := studyCommand none }

def oneSession : Dict String ℤ := Dict.empty.set "sessions" 1

/-- A quota of one session per window, in process memory and on Redis. -/
def oneSessionLeft : World :=
  { World.fresh defaultConfiguration with quotaLimits := oneSession }

def oneSessionLeftOnRedis : RedisWorld :=
  ⟨World.fresh defaultConfiguration, ⟨Dict.empty, oneSession, 60⟩⟩

def visit {W : Type} (w : W) : Config Port Port.Answer Failure CreatedSession W Bool :=
  ⟨w, fun i => .start (visitors i).program⟩

/-- The first creation runs to its end before the second one asks. -/
def secondIsLate : List (Choice Failure Bool) :=
  [(false, none), (false, none), (false, none), (false, none), (false, none), (false, none),
    (true, none)]

def bothAsk : List (Choice Failure Bool) :=
  [(false, none), (true, none), (false, none), (false, none), (true, none), (true, none)]

theorem leavesRoom_visit {W : Type} (used : W → ℤ) (limit : ℤ) (w : W)
    (choice : Choice Failure Bool) : LeavesRoom used limit (visit w) choice := by
  intro application unit epochMs next hrest hserved hused others hothers
  have hnone : others = ∅ := Finset.eq_empty_of_forall_notMem fun j hj => by
    obtain ⟨-, ⟨⟨a, unit', epochMs', decision, hmem, -⟩, -⟩, -⟩ := hothers j hj
    cases hmem
  rw [hnone]
  simpa using hused

theorem leavesRoom_secondIsLate : Runs.EveryStep (Interleaving.step inMemory)
    (LeavesRoom (World.unitsCounted studyApplication "sessions" 0) 1) (visit oneSessionLeft)
    secondIsLate := by
  refine Runs.everyStep_cons.2 ⟨leavesRoom_visit _ _ _ _, ?_⟩
  iterate 5
    refine Runs.everyStep_cons.2 ⟨?_, ?_⟩
    · exact fun _ _ _ _ hrest => nomatch hrest
  refine Runs.everyStep_cons.2 ⟨fun _ _ _ _ _ _ hused => ?_, Runs.everyStep_nil _⟩
  exact absurd hused (by decide)

theorem leavesRoom_secondIsLate_redis : Runs.EveryStep (Interleaving.step withRedisQuota)
    (LeavesRoom (RedisWorld.unitsCounted studyApplication 60 0) 1) (visit oneSessionLeftOnRedis)
    secondIsLate := by
  refine Runs.everyStep_cons.2 ⟨leavesRoom_visit _ _ _ _, ?_⟩
  iterate 5
    refine Runs.everyStep_cons.2 ⟨?_, ?_⟩
    · exact fun _ _ _ _ hrest => nomatch hrest
  refine Runs.everyStep_cons.2 ⟨fun _ _ _ _ _ _ hused => ?_, Runs.everyStep_nil _⟩
  exact absurd hused (by decide +kernel)

theorem card_added_secondIsLate :
    (∀ s : Finset Bool,
      (∀ i ∈ s, Added ((run inMemory (visit oneSessionLeft) secondIsLate).threads i).past) →
        s.card ≤ 1) ∧
    ∀ s : Finset Bool, (∀ i ∈ s,
      Added ((run withRedisQuota (visit oneSessionLeftOnRedis) secondIsLate).threads i).past) →
        s.card ≤ 1 := by
  have h := @card_added_le_limit Bool _ visitors studyApplication 1 0 fun _ => rfl
  constructor
  · exact h.1 oneSessionLeft secondIsLate rfl le_rfl (fun _ _ => rfl) leavesRoom_secondIsLate
  · exact h.2 oneSessionLeftOnRedis secondIsLate (by decide) ⟨rfl, rfl, nofun⟩ (fun _ _ => rfl)
      leavesRoom_secondIsLate_redis

/-- With a quota of one session, both creations add theirs. -/
theorem not_card_added_le_bothAsk :
    (¬∀ s : Finset Bool,
      (∀ i ∈ s, Added ((run inMemory (visit oneSessionLeft) bothAsk).threads i).past) →
        s.card ≤ 1) ∧
    ¬∀ s : Finset Bool,
      (∀ i ∈ s, Added ((run withRedisQuota (visit oneSessionLeftOnRedis) bothAsk).threads i).past) →
        s.card ≤ 1 := by
  constructor
  · intro h
    have hadded : ∀ i, Added ((run inMemory (visit oneSessionLeft) bothAsk).threads i).past := by
      intro i
      cases i
      · exact ⟨_, List.mem_of_getElem? (i := 2) rfl⟩
      · exact ⟨_, List.mem_of_getElem? (i := 2) rfl⟩
    exact absurd (h Finset.univ fun i _ => hadded i) (by decide)
  · intro h
    have hadded : ∀ i,
        Added ((run withRedisQuota (visit oneSessionLeftOnRedis) bothAsk).threads i).past := by
      intro i
      cases i
      · exact ⟨_, List.mem_of_getElem? (i := 2) rfl⟩
      · exact ⟨_, List.mem_of_getElem? (i := 2) rfl⟩
    exact absurd (h Finset.univ fun i _ => hadded i) (by decide)

end SessionQuota

end OratoriaEngine
