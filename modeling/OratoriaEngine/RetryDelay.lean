import OratoriaEngine.Commands
import Mathlib.Data.Int.DivMod
import Mathlib.Tactic.Linarith

/-!
# The delay that a refused call is told

The guard in process memory counts the units of every window, and tells a refused call how many
seconds are left of its window. The seconds are rounded down, so a caller who waits as told is
refused again, unless the rest of the window is below one second or a whole number of seconds.
-/

namespace OratoriaEngine

/-- `InMemoryQuotaGuard`; a count that is not there is zero. -/
structure InMemoryQuotaGuard where
  limits : Dict String ℤ
  windowMs : ℤ
  counts : Dict (String × String × ℤ) ℤ

namespace InMemoryQuotaGuard

def of (limits : Dict String ℤ) (windowSeconds : ℤ) : InMemoryQuotaGuard :=
  ⟨limits, windowSeconds * 1000, .empty⟩

variable (guard : InMemoryQuotaGuard)

def key (application : ApplicationId) (unit : String) (epochMs : ℤ) : String × String × ℤ :=
  (application.value, unit, Int.fdiv epochMs guard.windowMs)

def used (application : ApplicationId) (unit : String) (epochMs : ℤ) : ℤ :=
  (guard.counts.get? (guard.key application unit epochMs)).getD 0

def secondsToWindowEnd (epochMs : ℤ) : ℤ :=
  let elapsed := Int.fmod epochMs guard.windowMs
  max 1 (Int.fdiv (guard.windowMs - elapsed) 1000)

def check (application : ApplicationId) (unit : String) (amount epochMs : ℤ) : QuotaDecision :=
  match guard.limits.get? unit with
  | none => ⟨true, -1, 0, ""⟩
  | some limit =>
      let used := guard.used application unit epochMs
      let remaining := limit - used
      if limit < used + amount then
        ⟨false, max remaining 0, guard.secondsToWindowEnd epochMs,
          s!"{unit} quota of {limit} per window exhausted"⟩
      else ⟨true, remaining - amount, 0, ""⟩

def consume (application : ApplicationId) (unit : String) (amount epochMs : ℤ) :
    InMemoryQuotaGuard :=
  { guard with
    counts := guard.counts.set (guard.key application unit epochMs)
      (guard.used application unit epochMs + amount) }

end InMemoryQuotaGuard

/-- A call of the guard. -/
inductive QuotaCall
  | check (application : ApplicationId) (unit : String) (amount epochMs : ℤ)
  | consume (application : ApplicationId) (unit : String) (amount epochMs : ℤ)

namespace QuotaCall

def epochMs : QuotaCall → ℤ
  | check _ _ _ epochMs => epochMs
  | consume _ _ _ epochMs => epochMs

def consumes : QuotaCall → Bool
  | check _ _ _ _ => false
  | consume _ _ _ _ => true

end QuotaCall

namespace InMemoryQuotaGuard

def serve (guard : InMemoryQuotaGuard) : QuotaCall → InMemoryQuotaGuard
  | .check _ _ _ _ => guard
  | .consume application unit amount epochMs => guard.consume application unit amount epochMs

/-- The guard after some calls. -/
def after (guard : InMemoryQuotaGuard) (calls : List QuotaCall) : InMemoryQuotaGuard :=
  calls.foldl serve guard

/-- Whoever is refused and waits as told is admitted, if nobody consumes units meanwhile. -/
def DelaySuffices (guard : InMemoryQuotaGuard) (application : ApplicationId) (unit : String)
    (amount epochMs : ℤ) : Prop :=
  (guard.check application unit amount epochMs).allowed = false →
    ∀ meanwhile : List QuotaCall, (∀ call ∈ meanwhile, call.consumes = false) →
      ∀ laterMs, epochMs +
          1000 * (guard.check application unit amount epochMs).retryAfterSeconds ≤ laterMs →
        ((guard.after meanwhile).check application unit amount laterMs).allowed = true

/-- What is left of the window. -/
def restMs (guard : InMemoryQuotaGuard) (epochMs : ℤ) : ℤ :=
  guard.windowMs - Int.fmod epochMs guard.windowMs

/-- The amount fits into what is left of the limit. -/
def Fits (guard : InMemoryQuotaGuard) (application : ApplicationId) (unit : String)
    (amount epochMs : ℤ) : Prop :=
  ∀ limit, guard.limits.get? unit = some limit →
    guard.used application unit epochMs + amount ≤ limit

section Windows

variable {windowMs epochMs laterMs : ℤ} (hwindow : 0 < windowMs)

include hwindow

theorem window_mono (h : epochMs ≤ laterMs) :
    Int.fdiv epochMs windowMs ≤ Int.fdiv laterMs windowMs := by
  rw [Int.fdiv_eq_ediv_of_nonneg _ hwindow.le, Int.fdiv_eq_ediv_of_nonneg _ hwindow.le]
  exact Int.ediv_le_ediv hwindow h

theorem window_lt_of_le (h : epochMs + (windowMs - Int.fmod epochMs windowMs) ≤ laterMs) :
    Int.fdiv epochMs windowMs < Int.fdiv laterMs windowMs := by
  have hsplit := Int.fmod_add_mul_fdiv epochMs windowMs
  rw [Int.fdiv_eq_ediv_of_nonneg laterMs hwindow.le, ← Int.add_one_le_iff,
    Int.le_ediv_iff_mul_le hwindow]
  linarith

theorem window_eq_of_lt (hle : epochMs ≤ laterMs)
    (h : laterMs < epochMs + (windowMs - Int.fmod epochMs windowMs)) :
    Int.fdiv laterMs windowMs = Int.fdiv epochMs windowMs := by
  have hsplit := Int.fmod_add_mul_fdiv epochMs windowMs
  apply le_antisymm _ (window_mono hwindow hle)
  rw [Int.fdiv_eq_ediv_of_nonneg laterMs hwindow.le, ← Int.lt_add_one_iff,
    Int.ediv_lt_iff_lt_mul hwindow]
  linarith

end Windows

variable {guard : InMemoryQuotaGuard}

theorem check_allowed_iff {application : ApplicationId} {unit : String} {amount epochMs : ℤ} :
    (guard.check application unit amount epochMs).allowed = true ↔
      guard.Fits application unit amount epochMs := by
  unfold check Fits
  cases guard.limits.get? unit with
  | none => simp
  | some limit =>
      simp only [Option.some.injEq, forall_eq']
      split_ifs with hfull
      · exact iff_of_false (by simp) (not_le.2 hfull)
      · exact iff_of_true rfl (not_lt.1 hfull)

theorem check_retryAfterSeconds {application : ApplicationId} {unit : String}
    {amount epochMs : ℤ} (h : (guard.check application unit amount epochMs).allowed = false) :
    (guard.check application unit amount epochMs).retryAfterSeconds =
      guard.secondsToWindowEnd epochMs := by
  unfold check at h ⊢
  cases hlimit : guard.limits.get? unit with
  | none => simp [hlimit] at h
  | some limit =>
      simp only [hlimit] at h ⊢
      split_ifs at h ⊢
      rfl

def Untouched (guard : InMemoryQuotaGuard) (window : ℤ) : Prop :=
  ∀ application unit k, window < k → guard.counts.get? (application, unit, k) = none

theorem after_of_checks (calls : List QuotaCall) (h : ∀ call ∈ calls, call.consumes = false) :
    guard.after calls = guard := by
  induction calls with
  | nil => rfl
  | cons call calls ih =>
      have hserve : guard.serve call = guard := by
        cases call with
        | check => rfl
        | consume => cases h _ List.mem_cons_self
      rw [after, List.foldl_cons, hserve]
      exact ih fun call hcall => h call (List.mem_cons_of_mem _ hcall)

theorem Untouched.serve {window : ℤ} (h : guard.Untouched window) {call : QuotaCall}
    (hcall : Int.fdiv call.epochMs guard.windowMs ≤ window) :
    (guard.serve call).Untouched window := by
  intro application unit k hk
  cases call with
  | check => exact h application unit k hk
  | consume application' unit' amount epochMs =>
      have hne : (application, unit, k) ≠ guard.key application' unit' epochMs := by
        intro heq
        have hwindow : k = Int.fdiv epochMs guard.windowMs :=
          congrArg (fun key : String × String × ℤ => key.2.2) heq
        exact absurd hcall (not_le.2 (hwindow ▸ hk))
      exact (guard.counts.get?_set_ne _ hne).trans (h application unit k hk)

theorem serve_config (guard : InMemoryQuotaGuard) (call : QuotaCall) :
    (guard.serve call).limits = guard.limits ∧ (guard.serve call).windowMs = guard.windowMs := by
  cases call <;> exact ⟨rfl, rfl⟩

/-- Calls up to a moment leave the later windows untouched, and the configuration as it is. -/
theorem after_spec (hwindow : 0 < guard.windowMs) {epochMs : ℤ} {calls : List QuotaCall}
    (hpast : ∀ call ∈ calls, call.epochMs ≤ epochMs)
    (h : guard.Untouched (Int.fdiv epochMs guard.windowMs)) :
    (guard.after calls).limits = guard.limits ∧
      (guard.after calls).windowMs = guard.windowMs ∧
        (guard.after calls).Untouched (Int.fdiv epochMs guard.windowMs) := by
  induction calls generalizing guard with
  | nil => exact ⟨rfl, rfl, h⟩
  | cons call calls ih =>
      obtain ⟨hlimits, hwindowMs⟩ := guard.serve_config call
      have hcall := window_mono hwindow (hpast call List.mem_cons_self)
      have hrest := @ih (guard.serve call) (by rwa [hwindowMs])
        (fun call hcall => hpast call (List.mem_cons_of_mem _ hcall))
        (by rw [hwindowMs]; exact h.serve hcall)
      rwa [hlimits, hwindowMs] at hrest

section Fits

variable {application : ApplicationId} {unit : String} {amount epochMs laterMs : ℤ}

theorem fits_congr (h : Int.fdiv laterMs guard.windowMs = Int.fdiv epochMs guard.windowMs) :
    guard.Fits application unit amount laterMs ↔ guard.Fits application unit amount epochMs := by
  rw [Fits, Fits, used, used, key, key, h]

theorem fits_of_untouched {window : ℤ} (h : guard.Untouched window)
    (hlater : window < Int.fdiv laterMs guard.windowMs)
    (hamount : ∀ limit, guard.limits.get? unit = some limit → amount ≤ limit) :
    guard.Fits application unit amount laterMs := by
  intro limit hlimit
  rw [used, key, h _ _ _ hlater, Option.getD_none, zero_add]
  exact hamount limit hlimit

end Fits

theorem restMs_bounds (hwindow : 0 < guard.windowMs) (epochMs : ℤ) :
    0 < guard.restMs epochMs ∧ guard.restMs epochMs ≤ guard.windowMs := by
  have hnonneg := Int.fmod_nonneg_of_pos epochMs hwindow
  have hlt := Int.fmod_lt_of_pos epochMs hwindow
  rw [restMs]
  omega

/-- The delay reaches the end of the window exactly if the rest of it is below one second or a
whole number of seconds. -/
theorem restMs_le_delay_iff (hwindow : 0 < guard.windowMs) (epochMs : ℤ) :
    guard.restMs epochMs ≤ 1000 * guard.secondsToWindowEnd epochMs ↔
      guard.restMs epochMs < 1000 ∨ 1000 ∣ guard.restMs epochMs := by
  have hpos := (restMs_bounds hwindow epochMs).1
  have hseconds : guard.secondsToWindowEnd epochMs = max 1 (guard.restMs epochMs / 1000) := by
    rw [secondsToWindowEnd, ← Int.fdiv_eq_ediv_of_nonneg _ (by decide)]
    rfl
  rw [hseconds]
  omega

theorem delaySuffices_iff_of_untouched (hwindow : 0 < guard.windowMs) {application : ApplicationId}
    {unit : String} {amount epochMs : ℤ}
    (hamount : ∀ limit, guard.limits.get? unit = some limit → amount ≤ limit)
    (h : guard.Untouched (Int.fdiv epochMs guard.windowMs)) :
    guard.DelaySuffices application unit amount epochMs ↔
      guard.Fits application unit amount epochMs ∨
        guard.restMs epochMs ≤ 1000 * guard.secondsToWindowEnd epochMs := by
  rw [← check_allowed_iff]
  cases hallowed : (guard.check application unit amount epochMs).allowed with
  | true => simp [DelaySuffices, hallowed]
  | false =>
      simp only [DelaySuffices, hallowed, check_retryAfterSeconds hallowed, check_allowed_iff,
        Bool.false_eq_true, false_or, true_implies]
      constructor
      · intro hsuffices
        by_contra hshort
        have hadmitted := hsuffices [] (by simp) _ le_rfl
        have hone : 1 ≤ guard.secondsToWindowEnd epochMs := le_max_left _ _
        have hsame : Int.fdiv (epochMs + 1000 * guard.secondsToWindowEnd epochMs) guard.windowMs =
            Int.fdiv epochMs guard.windowMs := by
          apply window_eq_of_lt hwindow
          · omega
          · rw [restMs] at hshort
            omega
        rw [after_of_checks [] (by simp), fits_congr hsame, ← check_allowed_iff, hallowed]
          at hadmitted
        cases hadmitted
      · intro hreaches meanwhile hchecks laterMs hlater
        rw [after_of_checks meanwhile hchecks]
        apply fits_of_untouched h _ hamount
        apply window_lt_of_le hwindow
        rw [restMs] at hreaches
        omega

/-- After any calls up to a moment, the delay told to a call that is refused at that moment
suffices exactly if the rest of the window is below one second or a whole number of seconds. -/
theorem delaySuffices_iff (limits : Dict String ℤ) {windowSeconds : ℤ} (hwindow : 0 < windowSeconds)
    {epochMs : ℤ} {calls : List QuotaCall} (hpast : ∀ call ∈ calls, call.epochMs ≤ epochMs)
    (application : ApplicationId) {unit : String} {amount : ℤ}
    (hamount : ∀ limit, limits.get? unit = some limit → amount ≤ limit) :
    ((of limits windowSeconds).after calls).DelaySuffices application unit amount epochMs ↔
      ((of limits windowSeconds).after calls).Fits application unit amount epochMs ∨
        ((of limits windowSeconds).after calls).restMs epochMs < 1000 ∨
          1000 ∣ ((of limits windowSeconds).after calls).restMs epochMs := by
  have hwindowMs : 0 < (of limits windowSeconds).windowMs := by
    change 0 < windowSeconds * 1000
    omega
  have hnew : (of limits windowSeconds).Untouched
      (Int.fdiv epochMs (of limits windowSeconds).windowMs) := fun _ _ _ _ => rfl
  obtain ⟨hlimits, hsame, huntouched⟩ := after_spec hwindowMs hpast hnew
  rw [← hsame] at hwindowMs huntouched
  rw [delaySuffices_iff_of_untouched hwindowMs (by rwa [hlimits]) huntouched,
    restMs_le_delay_iff hwindowMs]

def oneSession : Dict String ℤ := Dict.empty.set "sessions" 1

def firstSession : List QuotaCall := [.consume studyApplication "sessions" 1 100]

def onePerMinute : InMemoryQuotaGuard := (of oneSession 60).after firstSession

theorem oneSession_le {limit : ℤ} (h : oneSession.get? "sessions" = some limit) : 1 ≤ limit := by
  rw [oneSession, Dict.get?_set_self] at h
  cases h
  exact le_rfl

theorem delaySuffices_onePerMinute :
    (onePerMinute.check studyApplication "sessions" 1 30000).allowed = false ∧
      onePerMinute.DelaySuffices studyApplication "sessions" 1 30000 := by
  refine ⟨by decide +kernel, ?_⟩
  have hwindow : (0 : ℤ) < 60 := by decide
  have hpast : ∀ call ∈ firstSession, call.epochMs ≤ 30000 := by
    simp [firstSession, QuotaCall.epochMs]
  apply (delaySuffices_iff oneSession hwindow hpast studyApplication fun _ => oneSession_le).2
  exact Or.inr (Or.inr (by decide +kernel))

/-- The second caller is told to wait for 59 seconds, and refused again at their end. -/
theorem not_delaySuffices_onePerMinute :
    (onePerMinute.check studyApplication "sessions" 1 100).retryAfterSeconds = 59 ∧
      (onePerMinute.check studyApplication "sessions" 1 59100).allowed = false ∧
        ¬onePerMinute.DelaySuffices studyApplication "sessions" 1 100 := by
  have hrefused : (onePerMinute.check studyApplication "sessions" 1 59100).allowed = false := by
    decide +kernel
  refine ⟨by decide +kernel, hrefused, fun hsuffices => ?_⟩
  have hadmitted := hsuffices (by decide +kernel) [] (by simp) 59100 (by decide +kernel)
  rw [after_of_checks [] (by simp), hrefused] at hadmitted
  cases hadmitted

end InMemoryQuotaGuard

end OratoriaEngine
