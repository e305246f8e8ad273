import OratoriaEngine.Lib.Program

/-!
# Programs run side by side

A program is confined when it makes only allowed calls, as long as the answers it builds them
from can be trusted. Where the ports answer allowed calls alike in related worlds, a confined
program returns the same from both and leaves them related.
-/

namespace Program

variable {O : Type} {A : O → Type} {ε α β W : Type} {allowed : O → Prop}
  {trusted : ∀ o, A o → Prop}

/-- Every call is allowed, whatever trusted answers the calls before it had. -/
def Confined (allowed : O → Prop) (trusted : ∀ o, A o → Prop) : Program O A ε α → Prop
  | .done _ => True
  | .call o next =>
      allowed o ∧ ∀ r, (∀ a, r = .ok a → trusted o a) → Confined allowed trusted (next r)

theorem confined_pure (a : α) : Confined allowed trusted (pure a : Program O A ε α) := trivial

theorem confined_raise (e : ε) : Confined allowed trusted (raise e : Program O A ε α) := trivial

theorem confined_bind {p : Program O A ε β} {f : β → Program O A ε α}
    (hp : Confined allowed trusted p) (hf : ∀ b, Confined allowed trusted (f b)) :
    Confined allowed trusted (p >>= f) := by
  induction p with
  | done r =>
      cases r with
      | ok b => exact hf b
      | error e => exact confined_raise e
  | call o next ih => exact ⟨hp.1, fun r hr => ih r (hp.2 r hr)⟩

theorem confined_ofExcept_bind {r : Except ε β} {f : β → Program O A ε α}
    (h : ∀ b, r = .ok b → Confined allowed trusted (f b)) :
    Confined allowed trusted (ofExcept r >>= f) := by
  cases r with
  | ok b => exact h b rfl
  | error e => exact confined_raise e

theorem confined_port_bind {o : O} {f : A o → Program O A ε α} (hallowed : allowed o)
    (h : ∀ a, trusted o a → Confined allowed trusted (f a)) :
    Confined allowed trusted (port o >>= f) := by
  refine ⟨hallowed, fun r hr => ?_⟩
  cases r with
  | ok a => exact h a (hr a rfl)
  | error e => exact confined_raise e

variable {p : Program O A ε α}

theorem Confined.run_related (hp : Confined allowed trusted p) (ports : Ports O A ε W)
    (R : W → W → Prop)
    (hports : ∀ o w w', allowed o → R w w' → (ports o w).1 = (ports o w').1 ∧
      R (ports o w).2 (ports o w').2 ∧ ∀ a, (ports o w).1 = .ok a → trusted o a)
    (n : ℕ) {w w' : W} (h : R w w') :
    (p.run ports noFault n w).1 = (p.run ports noFault n w').1 ∧
      R (p.run ports noFault n w).2 (p.run ports noFault n w').2 := by
  induction p generalizing n w w' with
  | done r => exact ⟨rfl, h⟩
  | call o next ih =>
      obtain ⟨hanswer, hafter, htrusted⟩ := hports o w w' hp.1 h
      simp only [run, noFault]
      rw [← hanswer]
      exact ih _ (hp.2 _ htrusted) (n + 1) hafter

theorem Confined.run_keeps (hp : Confined allowed trusted p) (ports : Ports O A ε W)
    (P : W → Prop)
    (hports : ∀ o w, allowed o → P w →
      P (ports o w).2 ∧ ∀ a, (ports o w).1 = .ok a → trusted o a)
    (n : ℕ) {w : W} (h : P w) :
    P (p.run ports noFault n w).2 := by
  induction p generalizing n w with
  | done r => exact h
  | call o next ih =>
      obtain ⟨hafter, htrusted⟩ := hports o w hp.1 h
      simp only [run, noFault]
      exact ih _ (hp.2 _ htrusted) (n + 1) hafter

/-- Every result the program can end with satisfies `P`, as long as the answers it had can be
trusted. -/
def Ensures (trusted : ∀ o, A o → Prop) (P : α → Prop) : Program O A ε α → Prop
  | .done r => ∀ a, r = .ok a → P a
  | .call o next => ∀ r, (∀ a, r = .ok a → trusted o a) → Ensures trusted P (next r)

section Ensures

variable {P : α → Prop}

theorem ensures_pure {a : α} (h : P a) : Ensures trusted P (pure a : Program O A ε α) := by
  rintro _ ⟨⟩
  exact h

theorem ensures_raise (e : ε) : Ensures trusted P (raise e : Program O A ε α) := by
  rintro _ ⟨⟩

theorem ensures_bind {Q : β → Prop} {p : Program O A ε β} {f : β → Program O A ε α}
    (hp : Ensures trusted Q p) (hf : ∀ b, Q b → Ensures trusted P (f b)) :
    Ensures trusted P (p >>= f) := by
  induction p with
  | done r =>
      cases r with
      | ok b => exact hf b (hp b rfl)
      | error e => exact ensures_raise e
  | call o next ih => exact fun r hr => ih r (hp r hr)

theorem ensures_ofExcept_bind {r : Except ε β} {f : β → Program O A ε α}
    (h : ∀ b, r = .ok b → Ensures trusted P (f b)) : Ensures trusted P (ofExcept r >>= f) := by
  cases r with
  | ok b => exact h b rfl
  | error e => exact ensures_raise e

theorem ensures_port_bind {o : O} {f : A o → Program O A ε α}
    (h : ∀ a, trusted o a → Ensures trusted P (f a)) : Ensures trusted P (port o >>= f) := by
  intro r hr
  cases r with
  | ok a => exact h a (hr a rfl)
  | error e => exact ensures_raise e

/-- A run whose answers can be trusted, while it makes only allowed calls, ends as ensured. -/
theorem Ensures.of_run (h : Ensures trusted P p) (hp : Confined allowed trusted p)
    (ports : Ports O A ε W) (I : W → Prop)
    (hports : ∀ o w, allowed o → I w →
      I (ports o w).2 ∧ ∀ a, (ports o w).1 = .ok a → trusted o a)
    (n : ℕ) {w : W} (hw : I w) {a : α} (hrun : (p.run ports noFault n w).1 = .ok a) : P a := by
  induction p generalizing n w with
  | done r => exact h a hrun
  | call o next ih =>
      obtain ⟨hafter, htrusted⟩ := hports o w hp.1 hw
      simp only [run, noFault] at hrun
      exact ih _ (h _ htrusted) (hp.2 _ htrusted) (n + 1) hafter hrun

end Ensures

end Program
