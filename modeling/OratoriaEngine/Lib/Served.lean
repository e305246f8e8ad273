import OratoriaEngine.Lib.Program

/-!
# Programs whose calls are all answered

Where no call fails, a run is what the program makes of the answers. The answers may come from
anything: a store, or a store that others write to between two calls.
-/

namespace Program

variable {O : Type} {A : O → Type} {ε α β W : Type}

/-- How every operation is answered, and what that does to the world. -/
abbrev Answers (O : Type) (A : O → Type) (W : Type) := (o : O) → W → A o × W

/-- What the program returns or raises. -/
def result (answers : Answers O A W) : Program O A ε α → W → Except ε α
  | .done r, _ => r
  | .call o next, w => (next (.ok (answers o w).1)).result answers (answers o w).2

def asked (answers : Answers O A W) : Program O A ε α → W → List O
  | .done _, _ => []
  | .call o next, w => o :: (next (.ok (answers o w).1)).asked answers (answers o w).2

def rescue (handler : ε → Option (Program O A ε α)) : Program O A ε α → Program O A ε α
  | .done (.ok a) => .done (.ok a)
  | .done (.error e) => (handler e).getD (.done (.error e))
  | .call o next => .call o fun r => (next r).rescue handler

variable (answers : Answers O A W) {w : W}

@[simp] theorem result_port_bind (o : O) (f : A o → Program O A ε α) :
    (port o >>= f).result answers w = (f (answers o w).1).result answers (answers o w).2 := rfl

section Bind

variable {answers} {p : Program O A ε α}

theorem result_bind_of_error {e : ε} (h : p.result answers w = .error e)
    (f : α → Program O A ε β) : (p >>= f).result answers w = .error e := by
  induction p generalizing w with
  | done r =>
      change r = .error e at h
      subst h
      rfl
  | call o next ih => exact ih _ h

theorem exists_result_bind {a : α} (h : p.result answers w = .ok a) (f : α → Program O A ε β) :
    ∃ w', (p >>= f).result answers w = (f a).result answers w' := by
  induction p generalizing w with
  | done r =>
      change r = .ok a at h
      subst h
      exact ⟨w, rfl⟩
  | call o next ih => exact ih _ h

theorem mem_asked_bind {o : O} (h : o ∈ p.asked answers w) (f : α → Program O A ε β) :
    o ∈ (p >>= f).asked answers w := by
  induction p generalizing w with
  | done r => cases h
  | call o' next ih =>
      rcases List.mem_cons.1 h with rfl | h
      · exact List.mem_cons_self ..
      · exact List.mem_cons_of_mem _ (ih _ h)

end Bind

section Rescue

variable {answers} {p : Program O A ε α} {handler : ε → Option (Program O A ε α)} {e : ε}

theorem result_rescue_of_ok {a : α} (h : p.result answers w = .ok a) :
    (p.rescue handler).result answers w = .ok a := by
  induction p generalizing w with
  | done r =>
      change r = .ok a at h
      subst h
      rfl
  | call o next ih => exact ih _ h

theorem result_rescue_of_unhandled (h : p.result answers w = .error e) (he : handler e = none) :
    (p.rescue handler).result answers w = .error e := by
  induction p generalizing w with
  | done r =>
      change r = .error e at h
      subst h
      rw [rescue, he]
      rfl
  | call o next ih => exact ih _ h

theorem exists_result_rescue {q : Program O A ε α} (h : p.result answers w = .error e)
    (he : handler e = some q) :
    ∃ w', (p.rescue handler).result answers w = q.result answers w' ∧
      ∀ o ∈ q.asked answers w', o ∈ (p.rescue handler).asked answers w := by
  induction p generalizing w with
  | done r =>
      change r = .error e at h
      subst h
      rw [rescue, he]
      exact ⟨w, rfl, fun _ ho => ho⟩
  | call o next ih =>
      obtain ⟨w', hresult, hasked⟩ := ih _ h
      exact ⟨w', hresult, fun o' ho' => List.mem_cons_of_mem _ (hasked o' ho')⟩

end Rescue

end Program
