import Mathlib.Control.Basic
import Mathlib.Data.Nat.Notation

/-!
# Programs over ports

A program is a tree of port calls: it asks for one operation, continues with the
answer, which may be an exception, and ends with a result or an exception. What
the ports do is supplied from outside, so that one program can be run alone,
with failing ports, or interleaved with others.
-/

/-- Programs calling the ports `O`, where `o : O` answers in `A o` or raises. -/
inductive Program (O : Type) (A : O → Type) (ε α : Type) : Type
  | done (r : Except ε α) : Program O A ε α
  | call (o : O) (next : Except ε (A o) → Program O A ε α) : Program O A ε α

namespace Program

variable {O : Type} {A : O → Type} {ε α β W : Type}

/-- An exception ends the program; nothing after it is executed. -/
def bind : Program O A ε α → (α → Program O A ε β) → Program O A ε β
  | .done (.ok a), f => f a
  | .done (.error e), _ => .done (.error e)
  | .call o next, f => .call o fun r => (next r).bind f

instance : Monad (Program O A ε) where
  pure a := .done (.ok a)
  bind := Program.bind

/-- One port call. -/
def port (o : O) : Program O A ε (A o) := .call o .done

def raise (e : ε) : Program O A ε α := .done (.error e)

def ofExcept (r : Except ε α) : Program O A ε α := .done r

@[simp] theorem pure_eq (a : α) : (pure a : Program O A ε α) = .done (.ok a) := rfl

@[simp] theorem done_ok_bind (a : α) (f : α → Program O A ε β) :
    (Program.done (.ok a) : Program O A ε α) >>= f = f a := rfl

@[simp] theorem call_bind (o : O) (next : Except ε (A o) → Program O A ε α)
    (f : α → Program O A ε β) : Program.call o next >>= f = .call o fun r => next r >>= f := rfl

@[simp] theorem raise_bind (e : ε) (f : α → Program O A ε β) :
    (raise e : Program O A ε α) >>= f = raise e := rfl

@[simp] theorem port_bind (o : O) (f : A o → Program O A ε β) :
    (port o : Program O A ε (A o)) >>= f = .call o fun r => .done r >>= f := rfl

theorem bind_assoc {γ : Type} (p : Program O A ε α) (f : α → Program O A ε β)
    (g : β → Program O A ε γ) : p >>= f >>= g = p >>= fun a => f a >>= g := by
  induction p with
  | done r => cases r <;> rfl
  | call o next ih =>
      simp only [call_bind]
      congr 1
      funext r
      exact ih r

/-- How the ports answer an operation, and what they do to the world. -/
abbrev Ports (O : Type) (A : O → Type) (ε W : Type) := (o : O) → W → Except ε (A o) × W

/-- One call, which is served or raises without effect. -/
def attempt (ports : Ports O A ε W) (fault : Option ε) (o : O) (w : W) : Except ε (A o) × W :=
  match fault with
  | some e => (.error e, w)
  | none => ports o w

/-- Which calls of a run raise instead of being served; such a call has no effect. -/
abbrev FaultPlan (ε : Type) := ℕ → Option ε

def noFault : FaultPlan ε := fun _ => none

/-- Run alone, where call number `n` is the next one. -/
def run (ports : Ports O A ε W) (fault : FaultPlan ε) :
    Program O A ε α → ℕ → W → Except ε α × W
  | .done r, _, w => (r, w)
  | .call o next, n, w =>
      match fault n with
      | some e => (next (.error e)).run ports fault (n + 1) w
      | none => (next (ports o w).1).run ports fault (n + 1) (ports o w).2

section Run

variable (ports : Ports O A ε W) (fault : FaultPlan ε)

theorem run_port_bind_of_fault {n : ℕ} {e : ε} (h : fault n = some e) (o : O)
    (f : A o → Program O A ε α) (w : W) :
    (port o >>= f).run ports fault n w = (.error e, w) := by
  rw [port_bind, run, h]
  rfl

theorem run_port_bind_of_served {n : ℕ} (h : fault n = none) {o : O} {a : A o} {w w' : W}
    (ho : ports o w = (.ok a, w')) (f : A o → Program O A ε α) :
    (port o >>= f).run ports fault n w = (f a).run ports fault (n + 1) w' := by
  rw [port_bind, run, h]
  simp only [ho]
  rfl

variable {ports fault}

theorem run_port_bind_eq_ok {o : O} {f : A o → Program O A ε α} {n : ℕ} {w w' : W} {b : α}
    (h : (port o >>= f).run ports fault n w = (.ok b, w')) :
    ∃ a u, ports o w = (.ok a, u) ∧ (f a).run ports fault (n + 1) u = (.ok b, w') := by
  cases hf : fault n with
  | some e =>
      rw [run_port_bind_of_fault ports fault hf] at h
      cases h
  | none =>
      rcases hp : ports o w with ⟨e | a, u⟩
      · rw [port_bind, run, hf] at h
        simp only [hp] at h
        cases h
      · exact ⟨a, u, rfl, by rwa [run_port_bind_of_served ports fault hf hp] at h⟩

theorem run_ofExcept_bind_eq_ok {r : Except ε β} {f : β → Program O A ε α} {n : ℕ} {w w' : W}
    {b : α} (h : (ofExcept r >>= f).run ports fault n w = (.ok b, w')) :
    ∃ a, r = .ok a ∧ (f a).run ports fault n w = (.ok b, w') := by
  cases r with
  | error e => cases h
  | ok a => exact ⟨a, rfl, h⟩

end Run

/-- If the run raises, the world it leaves satisfies `P`. -/
def RaisesIn (ports : Ports O A ε W) (fault : FaultPlan ε) (P : W → Prop) (p : Program O A ε α)
    (n : ℕ) (w : W) : Prop :=
  ∀ e w', p.run ports fault n w = (.error e, w') → P w'

section RaisesIn

variable {ports : Ports O A ε W} {fault : FaultPlan ε} {P : W → Prop} {w : W} {n : ℕ}

@[simp] theorem raisesIn_pure (a : α) :
    RaisesIn ports fault P (.done (.ok a) : Program O A ε α) n w := by
  rintro e w' ⟨⟩

@[simp] theorem raisesIn_error_iff (e : ε) :
    RaisesIn ports fault P (.done (.error e) : Program O A ε α) n w ↔ P w := by
  refine ⟨fun h => h e w rfl, ?_⟩
  rintro h e' w' ⟨⟩
  exact h

theorem raisesIn_port_bind_of_fault {e : ε} (h : fault n = some e) (o : O)
    (f : A o → Program O A ε α) :
    RaisesIn ports fault P (port o >>= f) n w ↔ P w := by
  rw [RaisesIn, run_port_bind_of_fault ports fault h]
  constructor
  · exact fun hw => hw e w rfl
  · rintro hw _ _ ⟨⟩
    exact hw

theorem raisesIn_port_bind_of_served (h : fault n = none) {o : O} {a : A o} {w' : W}
    (ho : ports o w = (.ok a, w')) (f : A o → Program O A ε α) :
    RaisesIn ports fault P (port o >>= f) n w ↔ RaisesIn ports fault P (f a) (n + 1) w' := by
  rw [RaisesIn, run_port_bind_of_served ports fault h ho, RaisesIn]

end RaisesIn

/-- Every result the program can end with satisfies `P`, whatever its calls are answered. -/
def Yields (P : α → Prop) : Program O A ε α → Prop
  | .done r => ∀ a, r = .ok a → P a
  | .call _ next => ∀ r, (next r).Yields P

section Yields

variable {P : α → Prop}

theorem yields_pure {a : α} (h : P a) : Yields P (pure a : Program O A ε α) := by
  rintro _ ⟨⟩
  exact h

theorem yields_bind {p : Program O A ε β} {f : β → Program O A ε α} (h : ∀ b, Yields P (f b)) :
    Yields P (p >>= f) := by
  induction p with
  | done r =>
      cases r with
      | ok b => exact h b
      | error e =>
          rintro a ⟨⟩
  | call o next ih => exact fun r => ih r

theorem yields_ofExcept_bind {r : Except ε β} {f : β → Program O A ε α}
    (h : ∀ b, r = .ok b → Yields P (f b)) : Yields P (ofExcept r >>= f) := by
  cases r with
  | ok b => exact h b rfl
  | error e =>
      rintro a ⟨⟩

theorem Yields.of_run {p : Program O A ε α} (h : Yields P p) {ports : Ports O A ε W}
    {fault : FaultPlan ε} {n : ℕ} {w w' : W} {a : α}
    (hrun : p.run ports fault n w = (.ok a, w')) : P a := by
  induction p generalizing n w with
  | done r =>
      cases hrun
      exact h a rfl
  | call o next ih =>
      rw [run] at hrun
      cases hf : fault n with
      | some e =>
          rw [hf] at hrun
          exact ih _ (h _) hrun
      | none =>
          rw [hf] at hrun
          exact ih _ (h _) hrun

end Yields

/-- Every call the program can make satisfies `C`, whatever the calls before it are answered. -/
def Calls (C : O → Prop) : Program O A ε α → Prop
  | .done _ => True
  | .call o next => C o ∧ ∀ r, (next r).Calls C

section Calls

variable {C : O → Prop}

theorem calls_pure (a : α) : Calls C (pure a : Program O A ε α) := trivial

theorem calls_raise (e : ε) : Calls C (raise e : Program O A ε α) := trivial

theorem calls_ofExcept (r : Except ε α) : Calls C (ofExcept r : Program O A ε α) := trivial

theorem calls_port {o : O} (h : C o) : Calls C (port o : Program O A ε (A o)) :=
  ⟨h, fun _ => trivial⟩

theorem calls_bind {p : Program O A ε α} {f : α → Program O A ε β} (hp : Calls C p)
    (hf : ∀ a, Calls C (f a)) : Calls C (p >>= f) := by
  induction p with
  | done r =>
      cases r with
      | ok a => exact hf a
      | error e => trivial
  | call o next ih => exact ⟨hp.1, fun r => ih r (hp.2 r)⟩

theorem calls_ofExcept_bind {r : Except ε β} {f : β → Program O A ε α}
    (h : ∀ b, r = .ok b → Calls C (f b)) : Calls C (ofExcept r >>= f) := by
  cases r with
  | ok b => exact h b rfl
  | error e => trivial

end Calls

/-- The calls before number `n` are all served. -/
def Served (fault : FaultPlan ε) (n : ℕ) : Prop := ∀ k < n, fault k = none

theorem served_zero (fault : FaultPlan ε) : Served fault 0 := fun k hk => absurd hk k.not_lt_zero

theorem Served.succ {fault : FaultPlan ε} {n : ℕ} (h : Served fault n) (hn : fault n = none) :
    Served fault (n + 1) := by
  intro k hk
  rcases Nat.lt_succ_iff_lt_or_eq.1 hk with hlt | rfl
  · exact h k hlt
  · exact hn

/-- Call number `k` is the first one the plan fails. -/
def FirstFault (fault : FaultPlan ε) (k : ℕ) : Prop := fault k ≠ none ∧ Served fault k

theorem FirstFault.eq {fault : FaultPlan ε} {k k' : ℕ} (h : FirstFault fault k)
    (h' : FirstFault fault k') : k = k' := by
  rcases Nat.lt_trichotomy k k' with hlt | heq | hgt
  · exact absurd (h'.2 k hlt) h.1
  · exact heq
  · exact absurd (h.2 k' hgt) h'.1

end Program
