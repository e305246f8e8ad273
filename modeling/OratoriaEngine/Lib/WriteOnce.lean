import OratoriaEngine.Lib.Runs

/-!
# Stores that keep what they accept

An event that is accepted promises that something holds from then on, at least as long as no
event comes that does not spare it. Where only such events can end what holds, the promises of
a run are kept exactly when each of them is kept at once.
-/

namespace Runs

variable {σ ε ν : Type*} {step : σ → ε → σ} {Holds : σ → ν → Prop}
  {accepts : σ → ε → ν → Prop} {spares : ν → ε → Prop}

/-- Whatever an accepted event promises holds after it and after every run of events that
spare it. -/
def Honoured (step : σ → ε → σ) (Holds : σ → ν → Prop) (accepts : σ → ε → ν → Prop)
    (spares : ν → ε → Prop) (s : σ) (events : List ε) : Prop :=
  ∀ before e during rest v, events = before ++ e :: (during ++ rest) →
    accepts (before.foldl step s) e v → (∀ e' ∈ during, spares v e') →
      Holds (during.foldl step (step (before.foldl step s) e)) v

theorem holds_foldl (hstable : ∀ s e v, Holds s v → spares v e → Holds (step s e) v) {s : σ}
    {v : ν} (h : Holds s v) {events : List ε} (hspared : ∀ e ∈ events, spares v e) :
    Holds (events.foldl step s) v := by
  induction events generalizing s with
  | nil => exact h
  | cons e events ih =>
      have hnext := hstable s e v h (hspared e List.mem_cons_self)
      exact ih hnext fun e' he' => hspared e' (List.mem_cons_of_mem _ he')

theorem honoured_iff_everyStep
    (hstable : ∀ s e v, Holds s v → spares v e → Holds (step s e) v) {s : σ}
    {events : List ε} :
    Honoured step Holds accepts spares s events ↔
      EveryStep step (fun s e => ∀ v, accepts s e v → Holds (step s e) v) s events := by
  constructor
  · intro h before e rest heq v haccepts
    exact h before e [] rest v heq haccepts fun e' he' => absurd he' List.not_mem_nil
  · intro h before e during rest v heq haccepts hspared
    exact holds_foldl hstable (h before e (during ++ rest) heq v haccepts) hspared

end Runs
