import OratoriaEngine.Lib.Stateful
import Mathlib.Data.List.Basic

/-!
# Noninterference by unwinding

A view shows a part of a state. Two computations are alike to a view when, started from
states it cannot tell apart, they end alike. A run in which the others' steps do not show
and one's own steps depend on nothing but the view looks as if the others had not run.
-/

namespace Stateful

variable {σ ε α β γ : Type} {f : σ → γ}

/-- From states the view cannot tell apart, both computations end in the same way, in states
it cannot tell apart. -/
def Alike (f : σ → γ) (m m' : Stateful σ ε α) : Prop :=
  ∀ s s', f s = f s' → (exec m s).1 = (exec m' s').1 ∧ f (exec m s).2 = f (exec m' s').2

theorem alike_pure (a : α) : Alike f (pure a : Stateful σ ε α) (pure a) :=
  fun _ _ h => ⟨rfl, h⟩

theorem alike_throw (e : ε) : Alike f (throw e : Stateful σ ε α) (throw e) :=
  fun _ _ h => ⟨rfl, h⟩

theorem alike_modify {g g' : σ → σ} (h : ∀ s s', f s = f s' → f (g s) = f (g' s')) :
    Alike f (modify g : Stateful σ ε PUnit) (modify g') := fun s s' hs => ⟨rfl, h s s' hs⟩

theorem alike_ofExcept (r : Except ε α) : Alike f (ofExcept r : Stateful σ ε α) (ofExcept r) := by
  cases r with
  | ok a => exact alike_pure a
  | error e => exact alike_throw e

theorem alike_raiseIf (e : Option ε) : Alike f (raiseIf e : Stateful σ ε Unit) (raiseIf e) := by
  cases e with
  | none => exact alike_pure ()
  | some e => exact alike_throw e

theorem alike_bind {m m' : Stateful σ ε α} {k k' : α → Stateful σ ε β} (hm : Alike f m m')
    (hk : ∀ a, Alike f (k a) (k' a)) : Alike f (m >>= k) (m' >>= k') := by
  intro s s' hs
  obtain ⟨hout, hview⟩ := hm s s' hs
  rcases hx : exec m s with ⟨r, t⟩
  rcases hx' : exec m' s' with ⟨r', t'⟩
  rw [hx, hx'] at hout hview
  change r = r' at hout
  subst hout
  cases r with
  | error e =>
      rw [exec_bind_error hx, exec_bind_error hx']
      exact ⟨rfl, hview⟩
  | ok a =>
      rw [exec_bind_ok hx, exec_bind_ok hx']
      exact hk a t t' hview

theorem alike_get_bind {k k' : σ → Stateful σ ε α}
    (hk : ∀ s s', f s = f s' → Alike f (k s) (k' s')) : Alike f (get >>= k) (get >>= k') :=
  fun s s' hs => hk s s' hs s s' hs

end Stateful

/-- Steps that do not show can be left out of a run. -/
theorem foldl_view_eq_filter {σ ι γ : Type*} (view : σ → γ) (step : σ → ι → σ) (own : ι → Bool)
    (hhidden : ∀ s i, own i = false → view (step s i) = view s)
    (hown : ∀ s s' i, own i = true → view s = view s' → view (step s i) = view (step s' i))
    {s s' : σ} (h : view s = view s') (l : List ι) :
    view (l.foldl step s) = view ((l.filter own).foldl step s') := by
  induction l generalizing s s' with
  | nil => exact h
  | cons i rest ih =>
      cases hi : own i with
      | true =>
          rw [List.filter_cons_of_pos hi]
          exact ih (hown s s' i hi h)
      | false =>
          rw [List.filter_cons_of_neg (by simp [hi])]
          exact ih ((hhidden s i hi).trans h)
