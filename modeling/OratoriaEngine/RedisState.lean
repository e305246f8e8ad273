import OratoriaEngine.Adapters

/-!
# Ephemeral state on Redis

Every key the adapters write expires. A key is gone once the server's time has passed the
moment it was given; until then it holds its value.
-/

namespace OratoriaEngine

structure Expiring (ν : Type) where
  value : ν
  expiresAtMs : ℤ
  deriving DecidableEq

/-- The keys of one kind on a server. -/
abbrev RedisKeys (ν : Type) := Dict String (Expiring ν)

namespace RedisKeys

variable {ν : Type} (keys : RedisKeys ν) (nowMs : ℤ)

def find? (key : String) : Option (Expiring ν) :=
  (keys.get? key).filter fun entry => nowMs ≤ entry.expiresAtMs

/-- `SET key value NX EX seconds`: whether the key was set. -/
def setNxEx (key : String) (value : ν) (seconds : ℤ) : Except Failure Bool × RedisKeys ν :=
  if seconds ≤ 0 then
    (.error (.foreign "ResponseError" "invalid expire time in 'set' command"), keys)
  else
    match keys.find? nowMs key with
    | some _ => (.ok false, keys)
    | none => (.ok true, keys.set key ⟨value, nowMs + seconds * 1000⟩)

def delete (key : String) : RedisKeys ν := keys.erase key

def ttl (key : String) : ℤ :=
  match keys.find? nowMs key with
  | none => -2
  | some entry => Int.fdiv (entry.expiresAtMs - nowMs + 500) 1000

/-- `INCRBY key amount` and `EXPIRE key seconds` in one transaction, on counts within 64 bits. -/
def incrByExpire (keys : RedisKeys ℤ) (nowMs : ℤ) (key : String) (amount seconds : ℤ) :
    RedisKeys ℤ :=
  let value := ((keys.find? nowMs key).map (·.value)).getD 0 + amount
  if seconds ≤ 0 then keys.erase key else keys.set key ⟨value, nowMs + seconds * 1000⟩

variable {keys : RedisKeys ν} {nowMs seconds : ℤ} {key : String} {value : ν}

theorem find?_eq_none_iff :
    keys.find? nowMs key = none ↔
      ∀ entry, keys.get? key = some entry → entry.expiresAtMs < nowMs := by
  simp only [find?, Option.filter_eq_none_iff, decide_eq_true_eq, not_le]

theorem setNxEx_eq_ok_true_iff :
    (keys.setNxEx nowMs key value seconds).1 = .ok true ↔
      0 < seconds ∧ keys.find? nowMs key = none := by
  unfold setNxEx
  by_cases h : seconds ≤ 0
  · rw [if_pos h]
    exact iff_of_false (fun heq => nomatch heq) fun hset => absurd hset.1 (not_lt.2 h)
  · rw [if_neg h]
    cases keys.find? nowMs key with
    | none => simp [not_le.1 h]
    | some entry => simp

theorem snd_setNxEx_of_set (h : (keys.setNxEx nowMs key value seconds).1 = .ok true) :
    (keys.setNxEx nowMs key value seconds).2 =
      keys.set key ⟨value, nowMs + seconds * 1000⟩ := by
  obtain ⟨hpos, hnone⟩ := setNxEx_eq_ok_true_iff.1 h
  simp only [setNxEx, if_neg (not_le.2 hpos), hnone]

theorem snd_setNxEx_of_not_set (h : (keys.setNxEx nowMs key value seconds).1 ≠ .ok true) :
    (keys.setNxEx nowMs key value seconds).2 = keys := by
  unfold setNxEx at h ⊢
  split_ifs at h ⊢
  · rfl
  · cases hfind : keys.find? nowMs key with
    | some entry => rfl
    | none => simp [hfind] at h

end RedisKeys

namespace RedisStreamState

def leaseKey (sessionId : SessionId) : String := "stream:lease:" ++ sessionId.value

def acquireLease (sessionId : SessionId) (nowMs ttlSeconds : ℤ) (keys : RedisKeys String) :
    Except Failure Bool × RedisKeys String :=
  keys.setNxEx nowMs (leaseKey sessionId) "held" ttlSeconds

def releaseLease (sessionId : SessionId) (keys : RedisKeys String) : RedisKeys String :=
  keys.delete (leaseKey sessionId)

end RedisStreamState

/-- Fixed-window quotas per application and unit; the windows follow the server's time. -/
structure RedisQuotaGuard where
  keys : RedisKeys ℤ
  limits : Dict String ℤ
  windowSeconds : ℤ

namespace RedisQuotaGuard

variable (guard : RedisQuotaGuard) (application : ApplicationId) (unit : String) (nowMs : ℤ)

/-- The window of the server's time, in whole seconds. -/
def window : ℤ := Int.fdiv (Int.fdiv nowMs 1000) guard.windowSeconds

def windowKey (window : ℤ) : String := s!"quota:{application.value}:{unit}:{window}"

def key : String := windowKey application unit (guard.window nowMs)

def check : QuotaDecision :=
  match guard.limits.get? unit with
  | none => ⟨true, -1, 0, ""⟩
  | some limit =>
      let key := guard.key application unit nowMs
      let used := ((guard.keys.find? nowMs key).map (·.value)).getD 0
      if limit < used + 1 then
        ⟨false, max (limit - used) 0, max (guard.keys.ttl nowMs key) 1,
          s!"{unit} quota of {limit} per window exhausted"⟩
      else ⟨true, limit - used - 1, 0, ""⟩

def consume : RedisQuotaGuard :=
  { guard with
    keys := guard.keys.incrByExpire nowMs (guard.key application unit nowMs) 1
      guard.windowSeconds }

end RedisQuotaGuard

end OratoriaEngine
