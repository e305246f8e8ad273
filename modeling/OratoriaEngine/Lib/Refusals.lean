import OratoriaEngine.Lib.Monitor

/-!
# Refusals before effects

A program refuses first when it makes only quiet calls up to some point, and from there on ends
in no exception that counts as a refusal unless a call of it does. Where quiet calls show nothing
in the world, a run that ends in a refusal has shown nothing.
-/

namespace Program

variable {O O' : Type} {A : O → Type} {A' : O' → Type} {ε α β W V : Type}

/-- Every exception the program can end with is benign, as long as those of its calls are. -/
def EndsWell (benign : ε → Prop) : Program O A ε α → Prop
  | .done r => ∀ e, r = .error e → benign e
  | .call _ next => ∀ r, (∀ e, r = .error e → benign e) → EndsWell benign (next r)

/-- The calls are quiet, on answers that can be trusted, up to a point from which on every
exception is benign. -/
def RefusesFirst (quiet : O → Prop) (trusted : ∀ o, A o → Prop) (benign : ε → Prop) :
    Program O A ε α → Prop
  | .done _ => True
  | .call o next =>
      (quiet o ∧ ∀ r, (∀ e, r = .error e → benign e) → (∀ a, r = .ok a → trusted o a) →
        RefusesFirst quiet trusted benign (next r)) ∨
      ∀ r, (∀ e, r = .error e → benign e) → EndsWell benign (next r)

section EndsWell

variable {benign : ε → Prop}

theorem endsWell_pure (a : α) : EndsWell benign (pure a : Program O A ε α) := by
  rintro e ⟨⟩

theorem endsWell_raise {e : ε} (h : benign e) : EndsWell benign (raise e : Program O A ε α) := by
  rintro _ ⟨⟩
  exact h

theorem endsWell_bind {p : Program O A ε β} {f : β → Program O A ε α} (hp : EndsWell benign p)
    (hf : ∀ b, EndsWell benign (f b)) : EndsWell benign (p >>= f) := by
  induction p with
  | done r =>
      cases r with
      | ok b => exact hf b
      | error e => exact endsWell_raise (hp e rfl)
  | call o next ih => exact fun r hr => ih r (hp r hr)

theorem endsWell_ofExcept_bind {r : Except ε β} {f : β → Program O A ε α}
    (hok : ∀ b, r = .ok b → EndsWell benign (f b)) (herror : ∀ e, r = .error e → benign e) :
    EndsWell benign (ofExcept r >>= f) := by
  cases r with
  | ok b => exact hok b rfl
  | error e => exact endsWell_raise (herror e rfl)

theorem endsWell_port_bind {o : O} {f : A o → Program O A ε α}
    (h : ∀ a, EndsWell benign (f a)) : EndsWell benign (port o >>= f) := by
  intro r hr
  cases r with
  | ok a => exact h a
  | error e => exact endsWell_raise (hr e rfl)

end EndsWell

section RefusesFirst

variable {quiet : O → Prop} {trusted : ∀ o, A o → Prop} {benign : ε → Prop}

theorem EndsWell.refusesFirst {p : Program O A ε α} (h : EndsWell benign p) :
    RefusesFirst quiet trusted benign p := by
  cases p with
  | done r => trivial
  | call o next => exact .inr h

theorem refusesFirst_pure (a : α) :
    RefusesFirst quiet trusted benign (pure a : Program O A ε α) := trivial

theorem refusesFirst_raise (e : ε) :
    RefusesFirst quiet trusted benign (raise e : Program O A ε α) := trivial

theorem refusesFirst_ofExcept_bind {r : Except ε β} {f : β → Program O A ε α}
    (h : ∀ b, r = .ok b → RefusesFirst quiet trusted benign (f b)) :
    RefusesFirst quiet trusted benign (ofExcept r >>= f) := by
  cases r with
  | ok b => exact h b rfl
  | error e => exact refusesFirst_raise e

theorem refusesFirst_port_bind {o : O} {f : A o → Program O A ε α} (hquiet : quiet o)
    (h : ∀ a, trusted o a → RefusesFirst quiet trusted benign (f a)) :
    RefusesFirst quiet trusted benign (port o >>= f) := by
  refine .inl ⟨hquiet, fun r _ hr => ?_⟩
  cases r with
  | ok a => exact h a (hr a rfl)
  | error e => exact refusesFirst_raise e

theorem refusesFirst_bind {p : Program O A ε β} {f : β → Program O A ε α}
    (hp : RefusesFirst quiet trusted benign p) (hf : ∀ b, EndsWell benign (f b)) :
    RefusesFirst quiet trusted benign (p >>= f) := by
  induction p with
  | done r =>
      cases r with
      | ok b => exact (hf b).refusesFirst
      | error e => exact refusesFirst_raise e
  | call o next ih =>
      rcases hp with ⟨hquiet, hnext⟩ | hnext
      · exact .inl ⟨hquiet, fun r hr ha => ih r (hnext r hr ha)⟩
      · exact .inr fun r hr => endsWell_bind (hnext r hr) hf

theorem refusesFirst_calls_bind {p : Program O A ε β} {f : β → Program O A ε α}
    (hp : Calls quiet p) (hf : ∀ b, RefusesFirst quiet trusted benign (f b)) :
    RefusesFirst quiet trusted benign (p >>= f) := by
  induction p with
  | done r =>
      cases r with
      | ok b => exact hf b
      | error e => exact refusesFirst_raise e
  | call o next ih => exact .inl ⟨hp.1, fun r _ _ => ih r (hp.2 r)⟩

theorem endsWell_via {benign : ε → Prop} {f : O → O'} {p : Program O (fun o => A' (f o)) ε α}
    (h : EndsWell benign p) : EndsWell benign (p.via f) := by
  induction p with
  | done r => exact h
  | call o next ih => exact fun r hr => ih r (h r hr)

theorem refusesFirst_via {quiet : O' → Prop} {trusted : ∀ o, A' o → Prop} {f : O → O'}
    {p : Program O (fun o => A' (f o)) ε α}
    (h : RefusesFirst (fun o => quiet (f o)) (fun o a => trusted (f o) a) benign p) :
    RefusesFirst quiet trusted benign (p.via f) := by
  induction p with
  | done r => trivial
  | call o next ih =>
      rcases h with ⟨hquiet, hnext⟩ | hnext
      · exact .inl ⟨hquiet, fun r hr ha => ih r (hnext r hr ha)⟩
      · exact .inr fun r hr => endsWell_via (hnext r hr)

variable {ports : Ports O A ε W} {fault : FaultPlan ε}
  (hports : ∀ o w e, (ports o w).1 = .error e → benign e)
  (hfault : ∀ n e, fault n = some e → benign e)

include hports hfault

theorem EndsWell.run {p : Program O A ε α} (hp : EndsWell benign p) (n : ℕ) (w : W) :
    ∀ e, (p.run ports fault n w).1 = .error e → benign e := by
  induction p generalizing n w with
  | done r => exact hp
  | call o next ih =>
      rw [Program.run]
      cases hn : fault n with
      | some e => exact ih _ (hp _ (by rintro _ ⟨⟩; exact hfault n e hn)) _ _
      | none => exact ih _ (hp _ (hports o w)) _ _

theorem RefusesFirst.run {p : Program O A ε α} (hp : RefusesFirst quiet trusted benign p)
    {view : W → V} {v : V}
    (hserved : ∀ o w, view w = v → quiet o →
      view (ports o w).2 = v ∧ ∀ a, (ports o w).1 = .ok a → trusted o a)
    (n : ℕ) {w : W} (hw : view w = v) :
    ∀ e, (p.run ports fault n w).1 = .error e →
      benign e ∨ view (p.run ports fault n w).2 = v := by
  induction p generalizing n w with
  | done r => exact fun _ _ => .inr hw
  | call o next ih =>
      intro e he
      rw [Program.run] at he ⊢
      rcases hp with ⟨hquiet, hnext⟩ | hnext
      · cases hn : fault n with
        | some raised =>
            simp only [hn] at he ⊢
            refine ih _ (hnext _ ?_ ?_) _ hw e he
            · rintro _ ⟨⟩
              exact hfault n raised hn
            · rintro _ ⟨⟩
        | none =>
            simp only [hn] at he ⊢
            obtain ⟨hview, htrusted⟩ := hserved o w hw hquiet
            exact ih _ (hnext _ (hports o w) htrusted) _ hview e he
      · left
        cases hn : fault n with
        | some raised =>
            simp only [hn] at he
            exact (hnext _ (by rintro _ ⟨⟩; exact hfault n raised hn)).run hports hfault _ _ e he
        | none =>
            simp only [hn] at he
            exact (hnext _ (hports o w)).run hports hfault _ _ e he

end RefusesFirst

theorem run_rescue_pure (ports : Ports O A ε W) (fault : FaultPlan ε) (p : Program O A ε α)
    (handler : ε → α) (n : ℕ) (w : W) :
    ∃ a, (p.rescue fun e => some (pure (handler e))).run ports fault n w =
        (.ok a, (p.run ports fault n w).2) ∧
      ((p.run ports fault n w).1 = .ok a ∨
        ∃ e, (p.run ports fault n w).1 = .error e ∧ a = handler e) := by
  induction p generalizing n w with
  | done r =>
      cases r with
      | ok a => exact ⟨a, rfl, .inl rfl⟩
      | error e => exact ⟨handler e, rfl, .inr ⟨e, rfl, rfl⟩⟩
  | call o next ih =>
      rw [rescue]
      simp only [Program.run]
      cases fault n with
      | some e => exact ih _ _ _
      | none => exact ih _ _ _

end Program
