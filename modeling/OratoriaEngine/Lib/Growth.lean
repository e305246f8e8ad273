import Mathlib.Data.Option.Basic

/-!
# Growing partial maps

A partial map grows into another when every binding it has is kept. This is the
order of append-only histories: nothing already bound is rebound or removed.
-/

variable {κ ν : Type*}

/-- Every binding of `f` is a binding of `g`. -/
def Grows (f g : κ → Option ν) : Prop := ∀ k v, f k = some v → g k = some v

namespace Grows

theorem refl (f : κ → Option ν) : Grows f f := fun _ _ h => h

theorem trans {f g h : κ → Option ν} (hfg : Grows f g) (hgh : Grows g h) : Grows f h :=
  fun k v hk => hgh k v (hfg k v hk)

theorem eq_none {f g : κ → Option ν} (h : Grows f g) {k : κ} (hk : g k = none) : f k = none := by
  cases hf : f k with
  | none => rfl
  | some v =>
      rw [h k v hf] at hk
      cases hk

end Grows
