import OratoriaEngine.Commands
import OratoriaEngine.Lib.Lease
import OratoriaEngine.RedisState

/-!
# One handler for each session

A connection takes the lease of its session, runs for as long as the client stays, and
releases the lease in the end. Neither adapter remembers who holds a lease: a handler that
outlived its own time to live releases the lease of its successor.
-/

namespace OratoriaEngine

namespace World

def acquireLease (sessionId : SessionId) (nowMs ttlSeconds : ℤ) (w : World) : Bool × World :=
  match w.leases.get? sessionId.value with
  | some heldUntil =>
      if nowMs < heldUntil then (false, w)
      else (true, { w with leases := w.leases.set sessionId.value (nowMs + ttlSeconds * 1000) })
  | none =>
      (true, { w with leases := w.leases.set sessionId.value (nowMs + ttlSeconds * 1000) })

def releaseLease (sessionId : SessionId) (w : World) : World :=
  { w with leases := w.leases.erase sessionId.value }

end World

/-- The lease of a session in process memory. -/
def inMemoryLease (sessionId : SessionId) : Lease.Keeper World where
  acquire nowMs ttlSeconds w := w.acquireLease sessionId nowMs ttlSeconds
  release w := w.releaseLease sessionId
  deadline w := w.leases.get? sessionId.value
  expiry nowMs ttlSeconds := nowMs + ttlSeconds * 1000
  Lapsed heldUntil nowMs := heldUntil ≤ nowMs
  le_of_lapsed _ _ h := h
  lapsed_of_acquire nowMs ttlSeconds w h heldUntil hheld := by
    simp only [World.acquireLease, hheld] at h
    split_ifs at h with hlt
    exact not_lt.1 hlt
  exists_acquire nowMs w h := by
    refine ⟨1, ?_⟩
    unfold World.acquireLease
    cases hheld : w.leases.get? sessionId.value with
    | none => rfl
    | some heldUntil => simp [not_lt.2 (h heldUntil hheld)]
  deadline_granted nowMs ttlSeconds w h := by
    unfold World.acquireLease at h ⊢
    cases hheld : w.leases.get? sessionId.value with
    | none => simp
    | some heldUntil =>
        simp only [hheld] at h ⊢
        split_ifs at h ⊢
        simp
  deadline_refused nowMs ttlSeconds w heldUntil hheld hlt _ := by
    simp only [World.acquireLease, hheld, if_pos hlt]
  deadline_release w := w.leases.get?_erase_self sessionId.value

/-- The lease of a session on Redis. A command that raises grants nothing. -/
def redisLease (sessionId : SessionId) : Lease.Keeper (RedisKeys String) where
  acquire nowMs ttlSeconds keys :=
    let outcome := RedisStreamState.acquireLease sessionId nowMs ttlSeconds keys
    (outcome.1 = .ok true, outcome.2)
  release keys := RedisStreamState.releaseLease sessionId keys
  deadline keys := (keys.get? (RedisStreamState.leaseKey sessionId)).map (·.expiresAtMs)
  expiry nowMs ttlSeconds := nowMs + ttlSeconds * 1000
  Lapsed heldUntil nowMs := heldUntil < nowMs
  le_of_lapsed _ _ h := h.le
  lapsed_of_acquire nowMs ttlSeconds keys h heldUntil hheld := by
    obtain ⟨entry, hentry, rfl⟩ := Option.map_eq_some_iff.1 hheld
    obtain ⟨-, hnone⟩ := RedisKeys.setNxEx_eq_ok_true_iff.1 (of_decide_eq_true h)
    exact RedisKeys.find?_eq_none_iff.1 hnone entry hentry
  exists_acquire nowMs keys h := by
    refine ⟨1, decide_eq_true (RedisKeys.setNxEx_eq_ok_true_iff.2 ⟨one_pos, ?_⟩)⟩
    exact RedisKeys.find?_eq_none_iff.2 fun entry hentry =>
      h entry.expiresAtMs (by rw [hentry]; rfl)
  deadline_granted nowMs ttlSeconds keys h := by
    have hset := RedisKeys.snd_setNxEx_of_set (of_decide_eq_true h)
    simp only [RedisStreamState.acquireLease, hset, Dict.get?_set_self, Option.map_some]
  deadline_refused nowMs ttlSeconds keys heldUntil hheld _ hrefused := by
    have hsame := RedisKeys.snd_setNxEx_of_not_set (of_decide_eq_false hrefused)
    simp only [RedisStreamState.acquireLease, hsame, hheld]
  deadline_release keys := by
    simp only [RedisStreamState.releaseLease, RedisKeys.delete, Dict.get?_erase_self,
      Option.map_none]

/-- In both adapters nobody is granted the lease of a handler that has neither released it nor
outlived its time to live, exactly while no handler releases it from under another one. -/
theorem leaseExclusive_iff_rightful {ι : Type} [DecidableEq ι] (sessionId : SessionId) (w : World)
    (keys : RedisKeys String) (nowMs : ℤ) (events : List (Lease.Event ι)) :
    (Runs.Throughout (Lease.Desk.step (inMemoryLease sessionId))
          (Lease.Desk.Exclusive (inMemoryLease sessionId)) ⟨w, nowMs, fun _ => none⟩ events ↔
        Runs.EveryStep (Lease.Desk.step (inMemoryLease sessionId)) Lease.Desk.Rightful
          ⟨w, nowMs, fun _ => none⟩ events) ∧
      (Runs.Throughout (Lease.Desk.step (redisLease sessionId))
          (Lease.Desk.Exclusive (redisLease sessionId)) ⟨keys, nowMs, fun _ => none⟩ events ↔
        Runs.EveryStep (Lease.Desk.step (redisLease sessionId)) Lease.Desk.Rightful
          ⟨keys, nowMs, fun _ => none⟩ events) :=
  ⟨Lease.Desk.exclusive_iff_rightful w nowMs events,
    Lease.Desk.exclusive_iff_rightful keys nowMs events⟩

def lateRelease : List (Lease.Event (Fin 3)) :=
  [.acquire 0 60, .pass 60001, .acquire 1 60, .release 0]

theorem not_leaseExclusive_lateRelease :
    let inMemory : Lease.Desk World (Fin 3) := ⟨.fresh defaultConfiguration, 0, fun _ => none⟩
    let redis : Lease.Desk (RedisKeys String) (Fin 3) := ⟨.empty, 0, fun _ => none⟩
    (¬Runs.Throughout (Lease.Desk.step (inMemoryLease lectureId))
          (Lease.Desk.Exclusive (inMemoryLease lectureId)) inMemory lateRelease ∧
        ∀ i : Fin 3, i ≠ 0 → ((lateRelease ++ [Lease.Event.acquire 2 60]).foldl
          (Lease.Desk.step (inMemoryLease lectureId)) inMemory).holders i = some 120001) ∧
      ¬Runs.Throughout (Lease.Desk.step (redisLease lectureId))
          (Lease.Desk.Exclusive (redisLease lectureId)) redis lateRelease ∧
        ∀ i : Fin 3, i ≠ 0 → ((lateRelease ++ [Lease.Event.acquire 2 60]).foldl
          (Lease.Desk.step (redisLease lectureId)) redis).holders i = some 120001 := by
  intro inMemory redis
  refine ⟨⟨fun h => ?_, by decide +kernel⟩, fun h => ?_, by decide +kernel⟩
  · have hrefused := h lateRelease [] (List.append_nil _).symm 1
      ⟨120001, by decide +kernel, by decide +kernel⟩ 60
    exact absurd hrefused (by decide +kernel)
  · have hrefused := h lateRelease [] (List.append_nil _).symm 1
      ⟨120001, by decide +kernel, by decide +kernel⟩ 60
    exact absurd hrefused (by decide +kernel)

end OratoriaEngine
