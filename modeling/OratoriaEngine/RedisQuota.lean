import OratoriaEngine.Lib.Delimited
import OratoriaEngine.RedisState
import OratoriaEngine.RetryDelay

/-!
# The two quota guards

The guard in process memory keys its counts by application, unit and window. The one on Redis
writes the three into the text of a key, counts whole seconds of the server, and lets every key
expire a window after its last unit. On one clock the two decide alike.
-/

namespace OratoriaEngine

namespace RedisQuotaGuard

variable (guard : RedisQuotaGuard)

def checkAmount (application : ApplicationId) (unit : String) (amount nowMs : ℤ) :
    QuotaDecision :=
  match guard.limits.get? unit with
  | none => ⟨true, -1, 0, ""⟩
  | some limit =>
      let key := guard.key application unit nowMs
      let used := ((guard.keys.find? nowMs key).map (·.value)).getD 0
      let remaining := limit - used
      if limit < used + amount then
        ⟨false, max remaining 0, max (guard.keys.ttl nowMs key) 1,
          s!"{unit} quota of {limit} per window exhausted"⟩
      else ⟨true, remaining - amount, 0, ""⟩

def consumeAmount (application : ApplicationId) (unit : String) (amount nowMs : ℤ) :
    RedisQuotaGuard :=
  { guard with
    keys := guard.keys.incrByExpire nowMs (guard.key application unit nowMs) amount
      guard.windowSeconds }

/-- A guard that has counted nothing. -/
def of (limits : Dict String ℤ) (windowSeconds : ℤ) : RedisQuotaGuard :=
  ⟨.empty, limits, windowSeconds⟩

def serve (guard : RedisQuotaGuard) : QuotaCall → RedisQuotaGuard
  | .check _ _ _ _ => guard
  | .consume application unit amount epochMs => guard.consumeAmount application unit amount epochMs

/-- The guard after some calls. -/
def after (guard : RedisQuotaGuard) (calls : List QuotaCall) : RedisQuotaGuard :=
  calls.foldl serve guard

theorem after_limits (guard : RedisQuotaGuard) (calls : List QuotaCall) :
    (guard.after calls).limits = guard.limits := by
  induction calls generalizing guard with
  | nil => rfl
  | cons call calls ih =>
      rw [after, List.foldl_cons]
      refine (ih (guard.serve call)).trans ?_
      cases call <;> rfl

theorem toList_windowKey (application : ApplicationId) (unit : String) (window : ℤ) :
    (windowKey application unit window).toList =
      ("quota:".toList ++ application.value.toList ++ ':' :: unit.toList) ++
        ':' :: (Int.repr window).toList := by
  have htext : windowKey application unit window =
      "quota:" ++ application.value ++ ":" ++ unit ++ ":" ++ Int.repr window := by
    simp [windowKey, toString]
  rw [htext]
  simp only [String.toList_append, List.append_assoc, List.cons_append]
  rfl

theorem windowKey_inj {application application' : ApplicationId} {unit unit' : String}
    {window window' : ℤ} (hunit : ':' ∉ unit.toList) (hunit' : ':' ∉ unit'.toList) :
    windowKey application unit window = windowKey application' unit' window' ↔
      application = application' ∧ unit = unit' ∧ window = window' := by
  refine ⟨fun h => ?_, fun h => by rw [h.1, h.2.1, h.2.2]⟩
  have hsign : ∀ n : ℤ, ':' ∉ (Int.repr n).toList := by
    intro n hmem
    rcases Delimited.mem_toList_repr hmem with hdigit | hsign
    · cases hdigit
    · cases hsign
  have hlist := congrArg String.toList h
  rw [toList_windowKey, toList_windowKey,
    Delimited.append_cons_inj_of_not_mem_right (hsign _) (hsign _),
    Delimited.append_cons_inj_of_not_mem_right hunit hunit', List.append_cancel_left_eq,
    String.toList_inj, String.toList_inj, String.toList_inj] at hlist
  obtain ⟨⟨happlication, rfl⟩, hwindow⟩ := hlist
  refine ⟨?_, rfl, Delimited.repr_injective hwindow⟩
  cases application
  cases application'
  exact congrArg ApplicationId.mk (Identifier.ext_value happlication)

theorem window_eq {guard : RedisQuotaGuard} (hwindow : 0 < guard.windowSeconds) (nowMs : ℤ) :
    guard.window nowMs = Int.fdiv nowMs (guard.windowSeconds * 1000) := by
  have hms : 0 ≤ guard.windowSeconds * 1000 := by omega
  rw [window, Int.fdiv_eq_ediv_of_nonneg _ hwindow.le,
    Int.fdiv_eq_ediv_of_nonneg nowMs (by decide), Int.fdiv_eq_ediv_of_nonneg _ hms,
    Int.ediv_ediv_of_nonneg (by decide), mul_comm]

end RedisQuotaGuard

theorem RedisKeys.find?_set {ν : Type} (keys : RedisKeys ν) (nowMs : ℤ) (key key' : String)
    (entry : Expiring ν) :
    RedisKeys.find? (keys.set key entry) nowMs key' =
      if key' = key then (some entry).filter fun e => nowMs ≤ e.expiresAtMs
      else keys.find? nowMs key' := by
  rw [RedisKeys.find?, Dict.get?_set]
  split_ifs <;> rfl

def QuotaCall.unit : QuotaCall → String
  | check _ unit _ _ => unit
  | consume _ unit _ _ => unit

/-- From a moment on both guards find the same units counted, and what Redis finds outlasts its
window. -/
structure CountsAlike (redis : RedisQuotaGuard) (memory : InMemoryQuotaGuard) (nowMs : ℤ) :
    Prop where
  limits : redis.limits = memory.limits
  window : memory.windowMs = redis.windowSeconds * 1000
  positive : 0 < redis.windowSeconds
  counts : ∀ application unit t, ':' ∉ unit.toList → nowMs ≤ t →
    ((redis.keys.find? t (redis.key application unit t)).map (·.value)).getD 0 =
      memory.used application unit t
  lasting : ∀ application unit t entry, ':' ∉ unit.toList → nowMs ≤ t →
    redis.keys.find? t (redis.key application unit t) = some entry →
      t + memory.restMs t ≤ entry.expiresAtMs

namespace CountsAlike

variable {redis : RedisQuotaGuard} {memory : InMemoryQuotaGuard} {nowMs : ℤ}
  {application : ApplicationId} {unit : String} {amount epochMs : ℤ}

theorem fresh (limits : Dict String ℤ) {windowSeconds : ℤ} (h : 0 < windowSeconds) (nowMs : ℤ) :
    CountsAlike (.of limits windowSeconds) (.of limits windowSeconds) nowMs :=
  ⟨rfl, rfl, h, fun _ _ _ _ _ => rfl, fun _ _ _ _ _ _ hfound => by cases hfound⟩

theorem window_eq (h : CountsAlike redis memory nowMs) (t : ℤ) :
    redis.window t = Int.fdiv t memory.windowMs := by
  rw [RedisQuotaGuard.window_eq h.positive, h.window]

/-- A key on Redis is another one exactly when the key in memory is. -/
theorem key_inj (h : CountsAlike redis memory nowMs) {application' : ApplicationId}
    {unit' : String} {t : ℤ} (hunit : ':' ∉ unit.toList) (hunit' : ':' ∉ unit'.toList) :
    redis.key application' unit' t = redis.key application unit epochMs ↔
      memory.key application' unit' t = memory.key application unit epochMs := by
  rw [RedisQuotaGuard.key, RedisQuotaGuard.key, RedisQuotaGuard.windowKey_inj hunit' hunit,
    h.window_eq, h.window_eq, InMemoryQuotaGuard.key, InMemoryQuotaGuard.key, Prod.mk.injEq,
    Prod.mk.injEq]
  refine and_congr_left fun _ => ⟨fun heq => by rw [heq], fun heq => ?_⟩
  cases application
  cases application'
  exact congrArg ApplicationId.mk (Identifier.ext_value heq)

theorem windowMs_pos (h : CountsAlike redis memory nowMs) : 0 < memory.windowMs := by
  rw [h.window]
  exact mul_pos h.positive (by decide)

theorem window_end_le (h : CountsAlike redis memory nowMs) {t : ℤ}
    (hwindow : Int.fdiv t memory.windowMs = Int.fdiv epochMs memory.windowMs) :
    t + memory.restMs t ≤ epochMs + redis.windowSeconds * 1000 := by
  have ht := Int.fmod_add_mul_fdiv t memory.windowMs
  have hepoch := Int.fmod_add_mul_fdiv epochMs memory.windowMs
  have hnonneg := Int.fmod_nonneg_of_pos epochMs h.windowMs_pos
  rw [hwindow] at ht
  rw [← h.window, InMemoryQuotaGuard.restMs]
  linarith

theorem restMs_pos (h : CountsAlike redis memory nowMs) (t : ℤ) : 0 < memory.restMs t := by
  have hlt := Int.fmod_lt_of_pos t h.windowMs_pos
  rw [InMemoryQuotaGuard.restMs]
  linarith

theorem mono (h : CountsAlike redis memory nowMs) (hle : nowMs ≤ epochMs) :
    CountsAlike redis memory epochMs :=
  ⟨h.limits, h.window, h.positive,
    fun application unit t hunit ht => h.counts application unit t hunit (hle.trans ht),
    fun application unit t entry hunit ht =>
      h.lasting application unit t entry hunit (hle.trans ht)⟩

theorem consume (h : CountsAlike redis memory nowMs) (hunit : ':' ∉ unit.toList)
    (hle : nowMs ≤ epochMs) :
    CountsAlike (redis.consumeAmount application unit amount epochMs)
      (memory.consume application unit amount epochMs) epochMs := by
  have hset : (redis.consumeAmount application unit amount epochMs).keys =
      redis.keys.set (redis.key application unit epochMs)
        ⟨memory.used application unit epochMs + amount,
          epochMs + redis.windowSeconds * 1000⟩ := by
    rw [← h.counts application unit epochMs hunit hle]
    exact if_neg (not_le.2 h.positive)
  have hend : ∀ application' unit' t, ':' ∉ unit'.toList →
      redis.key application' unit' t = redis.key application unit epochMs →
        t + memory.restMs t ≤ epochMs + redis.windowSeconds * 1000 := by
    intro application' unit' t hunit' hkey
    have hkey' := (h.key_inj hunit hunit').1 hkey
    exact h.window_end_le (congrArg (fun key : String × String × ℤ => key.2.2) hkey')
  refine ⟨h.limits, h.window, h.positive, fun application' unit' t hunit' ht => ?_,
    fun application' unit' t entry hunit' ht hfound => ?_⟩
  · change ((RedisKeys.find? (redis.consumeAmount application unit amount epochMs).keys t
        (redis.key application' unit' t)).map (·.value)).getD 0 =
      ((memory.counts.set (memory.key application unit epochMs)
        (memory.used application unit epochMs + amount)).get?
          (memory.key application' unit' t)).getD 0
    rw [hset, RedisKeys.find?_set, Dict.get?_set]
    by_cases hkey : redis.key application' unit' t = redis.key application unit epochMs
    · have hlive : t ≤ epochMs + redis.windowSeconds * 1000 := by
        linarith [hend application' unit' t hunit' hkey, h.restMs_pos t]
      rw [if_pos hkey, if_pos ((h.key_inj hunit hunit').1 hkey), Option.filter_some,
        if_pos (decide_eq_true hlive)]
      rfl
    · rw [if_neg hkey, if_neg (fun hkey' => hkey ((h.key_inj hunit hunit').2 hkey'))]
      exact h.counts application' unit' t hunit' (hle.trans ht)
  · change RedisKeys.find? (redis.consumeAmount application unit amount epochMs).keys t
      (redis.key application' unit' t) = some entry at hfound
    rw [hset, RedisKeys.find?_set] at hfound
    split_ifs at hfound with hkey
    · obtain ⟨heq, -⟩ := Option.filter_eq_some_iff.1 hfound
      cases heq
      exact hend application' unit' t hunit' hkey
    · exact h.lasting application' unit' t entry hunit' (hle.trans ht) hfound

theorem serve (h : CountsAlike redis memory nowMs) {call : QuotaCall}
    (hunit : ':' ∉ call.unit.toList) (hle : nowMs ≤ call.epochMs) :
    CountsAlike (redis.serve call) (memory.serve call) call.epochMs := by
  cases call with
  | check application unit amount epochMs => exact h.mono hle
  | consume application unit amount epochMs => exact h.consume hunit hle

theorem after (h : CountsAlike redis memory nowMs) {calls : List QuotaCall}
    (hunits : ∀ call ∈ calls, ':' ∉ call.unit.toList)
    (hclock : (calls.map QuotaCall.epochMs).Pairwise (· ≤ ·))
    (hnow : ∀ call ∈ calls, nowMs ≤ call.epochMs)
    (hlast : ∀ call ∈ calls, call.epochMs ≤ epochMs) (hle : nowMs ≤ epochMs) :
    CountsAlike (redis.after calls) (memory.after calls) epochMs := by
  induction calls generalizing redis memory nowMs with
  | nil => exact h.mono hle
  | cons call calls ih =>
      rw [List.map_cons, List.pairwise_cons] at hclock
      have hserve := h.serve (hunits call List.mem_cons_self) (hnow call List.mem_cons_self)
      exact ih hserve (fun c hc => hunits c (List.mem_cons_of_mem _ hc)) hclock.2
        (fun c hc => hclock.1 _ (List.mem_map_of_mem hc))
        (fun c hc => hlast c (List.mem_cons_of_mem _ hc)) (hlast call List.mem_cons_self)

variable (application amount) in
/-- The checks agree, and for an amount that the limit could admit the delay on Redis is no
shorter than the one in memory. -/
theorem checks (h : CountsAlike redis memory epochMs) (hunit : ':' ∉ unit.toList) :
    let onRedis := redis.checkAmount application unit amount epochMs
    let inMemory := memory.check application unit amount epochMs
    onRedis.allowed = inMemory.allowed ∧ onRedis.remaining = inMemory.remaining ∧
      onRedis.reason = inMemory.reason ∧
        ((∀ limit, redis.limits.get? unit = some limit → amount ≤ limit) →
          inMemory.retryAfterSeconds ≤ onRedis.retryAfterSeconds) := by
  have hcounts := h.counts application unit epochMs hunit le_rfl
  dsimp only
  unfold RedisQuotaGuard.checkAmount InMemoryQuotaGuard.check
  rw [← h.limits]
  cases hlimit : redis.limits.get? unit with
  | none => exact ⟨rfl, rfl, rfl, fun _ => le_rfl⟩
  | some limit =>
      simp only [hcounts]
      split_ifs with hfull
      · refine ⟨rfl, rfl, rfl, fun hamount => ?_⟩
        have hamount := hamount limit rfl
        change memory.secondsToWindowEnd epochMs ≤
          max (redis.keys.ttl epochMs (redis.key application unit epochMs)) 1
        cases hfound : redis.keys.find? epochMs (redis.key application unit epochMs) with
        | none =>
            rw [hfound] at hcounts
            change 0 = memory.used application unit epochMs at hcounts
            omega
        | some entry =>
            have hlasting := h.lasting application unit epochMs entry hunit le_rfl hfound
            have hrest := h.restMs_pos epochMs
            have hseconds : Int.fdiv (memory.restMs epochMs) 1000 ≤
                Int.fdiv (entry.expiresAtMs - epochMs + 500) 1000 := by
              rw [Int.fdiv_eq_ediv_of_nonneg _ (by decide),
                Int.fdiv_eq_ediv_of_nonneg _ (by decide)]
              omega
            rw [RedisKeys.ttl, hfound, InMemoryQuotaGuard.secondsToWindowEnd, max_comm]
            exact max_le_max hseconds le_rfl
      · exact ⟨rfl, rfl, rfl, fun _ => le_rfl⟩

end CountsAlike

/-- After any calls on a clock that does not go back, the guard on Redis and the guard in memory
decide alike for every application and every unit without a colon in its name. -/
theorem redisQuota_decides_alike (limits : Dict String ℤ) {windowSeconds : ℤ}
    (hwindow : 0 < windowSeconds) (calls : List QuotaCall)
    (hunits : ∀ call ∈ calls, ':' ∉ call.unit.toList)
    (hclock : (calls.map QuotaCall.epochMs).Pairwise (· ≤ ·))
    (application : ApplicationId) {unit : String} (hunit : ':' ∉ unit.toList) (amount : ℤ)
    {epochMs : ℤ} (hlast : ∀ call ∈ calls, call.epochMs ≤ epochMs) :
    let onRedis := ((RedisQuotaGuard.of limits windowSeconds).after calls).checkAmount
      application unit amount epochMs
    let inMemory := ((InMemoryQuotaGuard.of limits windowSeconds).after calls).check
      application unit amount epochMs
    onRedis.allowed = inMemory.allowed ∧ onRedis.remaining = inMemory.remaining ∧
      onRedis.reason = inMemory.reason ∧
        ((∀ limit, limits.get? unit = some limit → amount ≤ limit) →
          inMemory.retryAfterSeconds ≤ onRedis.retryAfterSeconds) := by
  have halike : CountsAlike ((RedisQuotaGuard.of limits windowSeconds).after calls)
      ((InMemoryQuotaGuard.of limits windowSeconds).after calls) epochMs := by
    cases calls with
    | nil => exact CountsAlike.fresh limits hwindow epochMs
    | cons call calls =>
        have hfirst : ∀ c ∈ call :: calls, call.epochMs ≤ c.epochMs := by
          rintro c (_ | ⟨_, hc⟩)
          · exact le_rfl
          · exact (List.pairwise_cons.1 hclock).1 _ (List.mem_map_of_mem hc)
        exact (CountsAlike.fresh limits hwindow call.epochMs).after hunits hclock hfirst hlast
          (hlast call List.mem_cons_self)
  obtain ⟨hallowed, hremaining, hreason, hdelay⟩ :=
    halike.checks application amount hunit
  refine ⟨hallowed, hremaining, hreason, fun hamount => hdelay fun limit hlimit => ?_⟩
  rw [RedisQuotaGuard.after_limits] at hlimit
  exact hamount limit hlimit

theorem redisQuota_decides_alike_study :
    let calls := [QuotaCall.check studyApplication "sessions" 1 61000,
      .consume studyApplication "sessions" 1 90000]
    let onRedis := ((RedisQuotaGuard.of (Dict.empty.set "sessions" 1) 60).after calls).checkAmount
      studyApplication "sessions" 1 90000
    let inMemory := ((InMemoryQuotaGuard.of (Dict.empty.set "sessions" 1) 60).after calls).check
      studyApplication "sessions" 1 90000
    onRedis.allowed = false ∧ inMemory.retryAfterSeconds = 30 ∧
      (onRedis.allowed = inMemory.allowed ∧ onRedis.remaining = inMemory.remaining ∧
        onRedis.reason = inMemory.reason ∧
          ((∀ limit, (Dict.empty.set "sessions" (1 : ℤ)).get? "sessions" = some limit →
            1 ≤ limit) → inMemory.retryAfterSeconds ≤ onRedis.retryAfterSeconds)) :=
  ⟨by decide +kernel, by decide +kernel,
    redisQuota_decides_alike (Dict.empty.set "sessions" 1) (by decide) _ (by decide)
      (by decide) studyApplication (by decide) 1 (by decide)⟩

end OratoriaEngine
