import Mathlib.Data.List.Induction

/-!
# Runs of a step function

A run applies a list of events one after the other. Where a condition on a step decides
whether an invariant survives it, the condition holds all along a run exactly when the
property the invariant guards does.
-/

namespace Runs

variable {σ ε : Type*} {step : σ → ε → σ} {I J : σ → Prop} {P : σ → ε → Prop}

/-- Every event of the run meets the condition in the state it happens in. -/
def EveryStep (step : σ → ε → σ) (P : σ → ε → Prop) (s : σ) (events : List ε) : Prop :=
  ∀ before e rest, events = before ++ e :: rest → P (before.foldl step s) e

/-- The property holds before, between and after the events of the run. -/
def Throughout (step : σ → ε → σ) (J : σ → Prop) (s : σ) (events : List ε) : Prop :=
  ∀ before rest, events = before ++ rest → J (before.foldl step s)

theorem everyStep_nil (s : σ) : EveryStep step P s [] := fun before e rest h => by simp at h

theorem everyStep_cons {s : σ} {e : ε} {events : List ε} :
    EveryStep step P s (e :: events) ↔ P s e ∧ EveryStep step P (step s e) events := by
  constructor
  · intro h
    exact ⟨h [] e events rfl, fun before e' rest heq => h (e :: before) e' rest (congrArg _ heq)⟩
  · rintro ⟨hfirst, hrest⟩ before e' rest heq
    cases before with
    | nil =>
        obtain ⟨rfl, -⟩ := List.cons_eq_cons.1 heq
        exact hfirst
    | cons e'' before =>
        obtain rfl := (List.cons.inj heq).1
        exact hrest before e' rest (List.cons.inj heq).2

theorem everyStep_append {s : σ} {first second : List ε} :
    EveryStep step P s (first ++ second) ↔
      EveryStep step P s first ∧ EveryStep step P (first.foldl step s) second := by
  induction first generalizing s with
  | nil => exact (and_iff_right (everyStep_nil s)).symm
  | cons e first ih => rw [List.cons_append, everyStep_cons, everyStep_cons, ih, and_assoc]; rfl

theorem throughout_cons {s : σ} {e : ε} {events : List ε} :
    Throughout step J s (e :: events) ↔ J s ∧ Throughout step J (step s e) events := by
  constructor
  · intro h
    exact ⟨h [] (e :: events) rfl, fun before rest heq => h (e :: before) rest (congrArg _ heq)⟩
  · rintro ⟨hfirst, hrest⟩ before rest heq
    cases before with
    | nil => exact hfirst
    | cons e' before =>
        obtain rfl := (List.cons.inj heq).1
        exact hrest before rest (List.cons.inj heq).2

theorem foldl_induction (hkeep : ∀ s e, I s → P s e → I (step s e)) {s : σ} (hs : I s)
    {events : List ε} (h : EveryStep step P s events) : I (events.foldl step s) := by
  induction events generalizing s with
  | nil => exact hs
  | cons e events ih =>
      obtain ⟨hfirst, hrest⟩ := everyStep_cons.1 h
      exact ih (hkeep s e hs hfirst) hrest

/-- Steps that meet the condition keep the invariant, and a step that does not meet it breaks
the property at once: a run meets the condition exactly when it never breaks the property. The
steps may be of a kind `Q` throughout. -/
theorem everyStep_iff_throughout_of {Q : σ → ε → Prop} (hJ : ∀ s, I s → J s)
    (hkeep : ∀ s e, I s → Q s e → P s e → I (step s e))
    (hbreak : ∀ s e, I s → Q s e → ¬P s e → ¬J (step s e)) {s : σ} (hs : I s)
    {events : List ε} (hQ : EveryStep step Q s events) :
    EveryStep step P s events ↔ Throughout step J s events := by
  induction events generalizing s with
  | nil =>
      apply iff_of_true (everyStep_nil s)
      intro before rest h
      obtain ⟨rfl, -⟩ := List.append_eq_nil_iff.1 h.symm
      exact hJ s hs
  | cons e events ih =>
      obtain ⟨hkind, hkinds⟩ := everyStep_cons.1 hQ
      rw [everyStep_cons, throughout_cons, and_iff_right (hJ s hs)]
      by_cases he : P s e
      · rw [and_iff_right he]
        exact ih (hkeep s e hs hkind he) hkinds
      · refine iff_of_false (fun h => he h.1) fun h => hbreak s e hs hkind he ?_
        exact h [] events rfl

theorem everyStep_iff_throughout (hJ : ∀ s, I s → J s)
    (hkeep : ∀ s e, I s → P s e → I (step s e))
    (hbreak : ∀ s e, I s → ¬P s e → ¬J (step s e)) {s : σ} (hs : I s) (events : List ε) :
    EveryStep step P s events ↔ Throughout step J s events :=
  everyStep_iff_throughout_of hJ (fun s e h _ => hkeep s e h) (fun s e h _ => hbreak s e h) hs
    (Q := fun _ _ => True) fun _ _ _ _ => trivial

/-- Where a condition on a step says exactly that the step does what it should and keeps the
invariant, a run meets the condition exactly when all its steps do what they should and the
invariant holds throughout. -/
theorem everyStep_iff_and_throughout {A : σ → ε → Prop}
    (hstep : ∀ s e, I s → (P s e ↔ A s e ∧ I (step s e))) {s : σ} (hs : I s) {events : List ε} :
    EveryStep step P s events ↔ EveryStep step A s events ∧ Throughout step I s events := by
  induction events generalizing s with
  | nil =>
      refine iff_of_true (everyStep_nil s) ⟨everyStep_nil s, fun before rest h => ?_⟩
      obtain ⟨rfl, -⟩ := List.append_eq_nil_iff.1 h.symm
      exact hs
  | cons e events ih =>
      rw [everyStep_cons, everyStep_cons, throughout_cons, and_iff_right hs, hstep s e hs]
      constructor
      · rintro ⟨⟨hdone, hkept⟩, hrest⟩
        obtain ⟨hall, hthroughout⟩ := (ih hkept).1 hrest
        exact ⟨⟨hdone, hall⟩, hthroughout⟩
      · rintro ⟨⟨hdone, hall⟩, hthroughout⟩
        have hkept : I (step s e) := hthroughout [] events rfl
        exact ⟨⟨hdone, hkept⟩, (ih hkept).2 ⟨hall, hthroughout⟩⟩

variable (step J) in
theorem foldl_iff_last {puts touches : ε → Prop} {s : σ} (hs : ¬J s) {events : List ε}
    (hstep : EveryStep step (fun s e => J (step s e) ↔ puts e ∨ ¬touches e ∧ J s) s events) :
    J (events.foldl step s) ↔ ∃ before e rest, events = before ++ e :: rest ∧ puts e ∧
      ∀ e' ∈ rest, ¬touches e' := by
  induction events using List.reverseRecOn with
  | nil =>
      refine iff_of_false hs ?_
      rintro ⟨before, e, rest, h, -⟩
      simp at h
  | append_singleton events e ih =>
      obtain ⟨hbefore, hlast⟩ := everyStep_append.1 hstep
      rw [List.foldl_append, List.foldl_cons, List.foldl_nil, (everyStep_cons.1 hlast).1,
        ih hbefore]
      constructor
      · rintro (hputs | ⟨huntouched, before, e', rest, rfl, hputs, hrest⟩)
        · exact ⟨events, e, [], rfl, hputs, fun _ h => absurd h List.not_mem_nil⟩
        · refine ⟨before, e', rest ++ [e], by simp, hputs, fun e'' he'' => ?_⟩
          rcases List.mem_append.1 he'' with he'' | he''
          · exact hrest e'' he''
          · exact List.mem_singleton.1 he'' ▸ huntouched
      · rintro ⟨before, e', rest, heq, hputs, hrest⟩
        rcases List.eq_nil_or_concat rest with rfl | ⟨rest, e'', rfl⟩
        · obtain ⟨-, hsame⟩ := List.append_inj' heq rfl
          exact .inl ((List.cons.inj hsame).1 ▸ hputs)
        · rw [List.concat_eq_append, ← List.cons_append, ← List.append_assoc] at heq
          obtain ⟨rfl, hsame⟩ := List.append_inj' heq rfl
          obtain rfl := (List.cons.inj hsame).1
          rw [List.concat_eq_append] at hrest
          exact .inr ⟨hrest e (by simp), before, e', rest, rfl, hputs,
            fun e'' he'' => hrest e'' (List.mem_append_left _ he'')⟩

end Runs
