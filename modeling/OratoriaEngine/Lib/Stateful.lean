import Mathlib.Control.Basic

/-!
# Stateful computations whose effects survive an exception

A stateful computation runs on a state and ends with a result or an exception. Unlike a
transaction it keeps the effects performed before the exception, which is the
meaning of assignments to mutable objects in a language with exceptions.
-/

abbrev Stateful (σ ε : Type) : Type → Type := ExceptT ε (StateM σ)

namespace Stateful

variable {σ ε α β : Type}

/-- The outcome of a computation together with the state it leaves behind. -/
def exec (m : Stateful σ ε α) (s : σ) : Except ε α × σ := StateT.run (ExceptT.run m) s

@[simp] theorem exec_pure (a : α) (s : σ) : exec (pure a : Stateful σ ε α) s = (.ok a, s) := rfl

@[simp] theorem exec_throw (e : ε) (s : σ) :
    exec (throw e : Stateful σ ε α) s = (.error e, s) := rfl

@[simp] theorem exec_get (s : σ) : exec (get : Stateful σ ε σ) s = (.ok s, s) := rfl

@[simp] theorem exec_modify (f : σ → σ) (s : σ) :
    exec (modify f : Stateful σ ε PUnit) s = (.ok ⟨⟩, f s) := rfl

theorem exec_bind (m : Stateful σ ε α) (f : α → Stateful σ ε β) (s : σ) :
    exec (m >>= f) s =
      match exec m s with
      | (.ok a, t) => exec (f a) t
      | (.error e, t) => (.error e, t) := by
  change StateT.run (ExceptT.run (m >>= f)) s = _
  rw [ExceptT.run_bind, StateT.run_bind]
  change _ = match StateT.run (ExceptT.run m) s with
    | (.ok a, t) => exec (f a) t
    | (.error e, t) => (.error e, t)
  rcases StateT.run (ExceptT.run m) s with ⟨_ | _, t⟩ <;> rfl

theorem exec_bind_ok {m : Stateful σ ε α} {f : α → Stateful σ ε β} {s t : σ} {a : α}
    (h : exec m s = (.ok a, t)) : exec (m >>= f) s = exec (f a) t := by
  rw [exec_bind, h]

theorem exec_bind_error {m : Stateful σ ε α} {f : α → Stateful σ ε β} {s t : σ} {e : ε}
    (h : exec m s = (.error e, t)) : exec (m >>= f) s = (.error e, t) := by
  rw [exec_bind, h]

theorem exec_bind_congr {m m' : Stateful σ ε α} {f : α → Stateful σ ε β} {s : σ}
    (h : exec m s = exec m' s) : exec (m >>= f) s = exec (m' >>= f) s := by
  rw [exec_bind, exec_bind, h]

@[simp] theorem exec_get_bind (f : σ → Stateful σ ε β) (s : σ) :
    exec (get >>= f) s = exec (f s) s := rfl

@[simp] theorem exec_modify_bind (g : σ → σ) (f : PUnit → Stateful σ ε β) (s : σ) :
    exec ((modify g : Stateful σ ε PUnit) >>= f) s = exec (f ⟨⟩) (g s) := rfl

/-- Turn a pure outcome into an action without effects. -/
def ofExcept : Except ε α → Stateful σ ε α
  | .ok a => pure a
  | .error e => throw e

@[simp] theorem exec_ofExcept (r : Except ε α) (s : σ) : exec (ofExcept r) s = (r, s) := by
  cases r <;> rfl

@[simp] theorem exec_ofExcept_ok_bind (a : α) (f : α → Stateful σ ε β) (s : σ) :
    exec (ofExcept (.ok a) >>= f) s = exec (f a) s := rfl

@[simp] theorem exec_ofExcept_error_bind (e : ε) (f : α → Stateful σ ε β) (s : σ) :
    exec (ofExcept (.error e) >>= f) s = (.error e, s) := rfl

def raiseIf : Option ε → Stateful σ ε Unit
  | none => pure ()
  | some e => throw e

@[simp] theorem exec_raiseIf_none (s : σ) :
    exec (raiseIf (none : Option ε)) s = (.ok (), s) := rfl

@[simp] theorem exec_raiseIf_some (e : ε) (s : σ) :
    exec (raiseIf (some e)) s = (.error e, s) := rfl

/-- Run `m`, then its cleanup, whether `m` returned or raised. -/
def finallyDo (m : Stateful σ ε α) (cleanup : σ → σ) : Stateful σ ε α :=
  ExceptT.mk fun s => ((exec m s).1, cleanup (exec m s).2)

@[simp] theorem exec_finallyDo (m : Stateful σ ε α) (cleanup : σ → σ) (s : σ) :
    exec (finallyDo m cleanup) s = ((exec m s).1, cleanup (exec m s).2) := rfl

def Returns (m : Stateful σ ε α) (s : σ) : Prop := ∃ a, (exec m s).1 = .ok a

theorem returns_iff {m : Stateful σ ε α} {s : σ} :
    Returns m s ↔ ∀ e, (exec m s).1 ≠ .error e := by
  unfold Returns
  cases (exec m s).1 <;> simp

theorem returns_congr {m m' : Stateful σ ε α} {s s' : σ} (h : exec m s = exec m' s') :
    Returns m s ↔ Returns m' s' := by
  rw [Returns, Returns, h]

theorem returns_bind_of_ok {m : Stateful σ ε α} {f : α → Stateful σ ε β} {s t : σ} {a : α}
    (h : exec m s = (.ok a, t)) : Returns (m >>= f) s ↔ Returns (f a) t := by
  rw [Returns, exec_bind_ok h, Returns]

theorem not_returns_bind_of_error {m : Stateful σ ε α} {f : α → Stateful σ ε β} {s t : σ} {e : ε}
    (h : exec m s = (.error e, t)) : ¬Returns (m >>= f) s := by
  rw [Returns, exec_bind_error h]
  simp

theorem returns_of_bind {m : Stateful σ ε α} {f : α → Stateful σ ε β} {s : σ}
    (h : Returns (m >>= f) s) : Returns m s := by
  rcases hx : exec m s with ⟨e | a, t⟩
  · exact absurd h (not_returns_bind_of_error hx)
  · exact ⟨a, by rw [hx]⟩

theorem returns_bind_pure_iff {m : Stateful σ ε α} {g : α → β} {s : σ} :
    Returns (m >>= fun a => pure (g a)) s ↔ Returns m s := by
  refine ⟨returns_of_bind, fun ⟨a, h⟩ => ?_⟩
  exact ⟨g a, by rw [exec_bind_ok (Prod.ext h rfl), exec_pure]⟩

theorem returns_finallyDo_iff {m : Stateful σ ε α} {cleanup : σ → σ} {s : σ} :
    Returns (finallyDo m cleanup) s ↔ Returns m s := Iff.rfl

/-- Whether it returns or raises, the action leaves the component `f` of the state as it was. -/
def Keeps (f : σ → β) (m : Stateful σ ε α) : Prop := ∀ s, f (exec m s).2 = f s

section Keeps

variable {γ : Type} {f : σ → γ}

theorem keeps_pure (a : α) : Keeps f (pure a : Stateful σ ε α) := fun _ => rfl

theorem keeps_throw (e : ε) : Keeps f (throw e : Stateful σ ε α) := fun _ => rfl

theorem keeps_get : Keeps f (get : Stateful σ ε σ) := fun _ => rfl

theorem keeps_modify {g : σ → σ} (h : ∀ s, f (g s) = f s) :
    Keeps f (modify g : Stateful σ ε PUnit) := h

theorem keeps_ofExcept (r : Except ε α) : Keeps f (ofExcept r : Stateful σ ε α) := fun s => by
  rw [exec_ofExcept]

theorem keeps_raiseIf (e : Option ε) : Keeps f (raiseIf e : Stateful σ ε Unit) := by
  cases e with
  | none => exact keeps_pure _
  | some e => exact keeps_throw e

theorem keeps_bind {m : Stateful σ ε α} {k : α → Stateful σ ε β} (hm : Keeps f m)
    (hk : ∀ a, Keeps f (k a)) : Keeps f (m >>= k) := by
  intro s
  have hs := hm s
  rcases hx : exec m s with ⟨e | a, t⟩ <;> rw [hx] at hs
  · rw [exec_bind_error hx]
    exact hs
  · rw [exec_bind_ok hx]
    exact (hk a t).trans hs

end Keeps

/-- Every exception of the action is one of `E`. -/
def RaisesOnly (E : ε → Prop) (m : Stateful σ ε α) : Prop :=
  ∀ s e, (exec m s).1 = .error e → E e

section RaisesOnly

variable {E : ε → Prop}

theorem raisesOnly_pure (a : α) : RaisesOnly E (pure a : Stateful σ ε α) := fun _ _ h => nomatch h

theorem raisesOnly_get : RaisesOnly E (get : Stateful σ ε σ) := fun _ _ h => nomatch h

theorem raisesOnly_modify (g : σ → σ) : RaisesOnly E (modify g : Stateful σ ε PUnit) :=
  fun _ _ h => nomatch h

theorem raisesOnly_raiseIf {x : Option ε} (h : ∀ e, x = some e → E e) :
    RaisesOnly E (raiseIf x : Stateful σ ε Unit) := by
  intro s e he
  cases x with
  | none => exact nomatch he
  | some raised => exact h e (congrArg some (Except.error.inj he))

theorem raisesOnly_bind {m : Stateful σ ε α} {k : α → Stateful σ ε β} (hm : RaisesOnly E m)
    (hk : ∀ a, RaisesOnly E (k a)) : RaisesOnly E (m >>= k) := by
  intro s e he
  rcases hx : exec m s with ⟨e' | a, t⟩
  · rw [exec_bind_error hx] at he
    exact hm s e (by rw [hx, Except.error.inj he])
  · rw [exec_bind_ok hx] at he
    exact hk a t e he

theorem raisesOnly_finallyDo {m : Stateful σ ε α} (hm : RaisesOnly E m) (cleanup : σ → σ) :
    RaisesOnly E (finallyDo m cleanup) := fun s e he => hm s e he

end RaisesOnly

/-- The action does on `g s` what it does on `s`, and what it leaves behind differs by `g`. -/
def Commutes (g : σ → σ) (m : Stateful σ ε α) : Prop :=
  ∀ s, exec m (g s) = ((exec m s).1, g (exec m s).2)

section Commutes

variable {g : σ → σ}

theorem commutes_pure (a : α) : Commutes g (pure a : Stateful σ ε α) := fun _ => rfl

theorem commutes_throw (e : ε) : Commutes g (throw e : Stateful σ ε α) := fun _ => rfl

theorem commutes_modify {h : σ → σ} (hg : ∀ s, h (g s) = g (h s)) :
    Commutes g (modify h : Stateful σ ε PUnit) := fun s => by
  rw [exec_modify, exec_modify, hg]

theorem commutes_ofExcept (r : Except ε α) : Commutes g (ofExcept r : Stateful σ ε α) :=
  fun s => by rw [exec_ofExcept, exec_ofExcept]

theorem commutes_raiseIf (e : Option ε) : Commutes g (raiseIf e : Stateful σ ε Unit) := by
  cases e with
  | none => exact commutes_pure _
  | some e => exact commutes_throw e

theorem commutes_bind {m : Stateful σ ε α} {k : α → Stateful σ ε β} (hm : Commutes g m)
    (hk : ∀ a, Commutes g (k a)) : Commutes g (m >>= k) := by
  intro s
  have hs := hm s
  rcases hx : exec m s with ⟨e | a, t⟩ <;> rw [hx] at hs
  · rw [exec_bind_error hx, exec_bind_error hs]
  · rw [exec_bind_ok hx, exec_bind_ok hs]
    exact hk a t

/-- Reading the state is harmless where what is read is not what `g` changes. -/
theorem commutes_get_bind {k : σ → Stateful σ ε β} (hg : ∀ s, k (g s) = k s)
    (hk : ∀ s, Commutes g (k s)) : Commutes g (get >>= k) := by
  intro s
  rw [exec_get_bind, exec_get_bind, hg]
  exact hk s s

theorem commutes_finallyDo {m : Stateful σ ε α} {cleanup : σ → σ} (hm : Commutes g m)
    (hcleanup : ∀ s, cleanup (g s) = g (cleanup s)) : Commutes g (finallyDo m cleanup) := by
  intro s
  rw [exec_finallyDo, exec_finallyDo, hm, hcleanup]

end Commutes

end Stateful
