import OratoriaEngine.Lib.Except

/-!
# Computations that decide

A computation decides a proposition if it succeeds where the proposition holds, with a result of
which something is known, and elsewhere fails, with an error of one kind. Decisions about the
elements of a list are a decision about all of them. A sequence of decisions reports the failures
of one kind that come before any other.
-/

namespace Except

variable {ε μ α β : Type}

theorem ok_bind (a : α) (f : α → Except ε β) : (.ok a >>= f) = f a := rfl

theorem error_bind (e : ε) (f : α → Except ε β) : ((.error e : Except ε α) >>= f) = .error e := rfl

/-- Success exactly where `p` holds, with a result that satisfies `post`; else an error of the
kind. -/
def Decides (p : Prop) (post : α → Prop) (kind : μ → ε) (x : Except ε α) : Prop :=
  (p ∧ ∃ a, x = .ok a ∧ post a) ∨ (¬p ∧ ∃ m, x = .error (kind m))

/-- No other error than those of the kind. -/
def FailsOnly (kind : μ → ε) (x : Except ε α) : Prop := ∀ e, x = .error e → ∃ m, e = kind m

theorem failsOnly_ok (kind : μ → ε) (a : α) : FailsOnly kind (.ok a : Except ε α) :=
  fun _ h => nomatch h

theorem failsOnly_error (kind : μ → ε) (m : μ) : FailsOnly kind (.error (kind m) : Except ε α) :=
  fun _ h => ⟨m, (Except.error.inj h).symm⟩

theorem decides_mapM {p : α → Prop} {post : α → β → Prop} {kind : μ → ε} {f : α → Except ε β}
    {l : List α} (h : ∀ a ∈ l, Decides (p a) (post a) kind (f a)) :
    Decides (∀ a ∈ l, p a) (List.Forall₂ post l) kind (l.mapM f) := by
  induction l with
  | nil => exact Or.inl ⟨by simp, [], rfl, .nil⟩
  | cons a l ih =>
      rw [List.mapM_cons]
      rcases h a List.mem_cons_self with ⟨hp, b, hb, hpost⟩ | ⟨hp, m, hm⟩
      · rw [hb, ok_bind]
        rcases ih fun c hc => h c (List.mem_cons_of_mem a hc) with
          ⟨hall, bs, hbs, hposts⟩ | ⟨hall, m, hm⟩
        · rw [hbs, ok_bind]
          exact Or.inl ⟨List.forall_mem_cons.2 ⟨hp, hall⟩, b :: bs, rfl, .cons hpost hposts⟩
        · rw [hm, error_bind]
          exact Or.inr ⟨fun h => hall (List.forall_mem_cons.1 h).2, m, rfl⟩
      · rw [hm, error_bind]
        exact Or.inr ⟨fun h => hp (List.forall_mem_cons.1 h).1, m, rfl⟩

/-- Success where `p` holds, with a result that satisfies `post`; an error of the kind where `r`
holds, and elsewhere another error. -/
def Reports (p r : Prop) (post : α → Prop) (kind : μ → ε) (x : Except ε α) : Prop :=
  (p ∧ ¬r ∧ ∃ a, x = .ok a ∧ post a) ∨ (¬p ∧ r ∧ ∃ m, x = .error (kind m)) ∨
    (¬p ∧ ¬r ∧ ∃ e, x = .error e ∧ ∀ m, e ≠ kind m)

section Reports

variable {p q r : Prop} {post : α → Prop} {goal : β → Prop} {kind : μ → ε} {x : Except ε α}
  {f : α → Except ε β}

theorem Reports.of_iff {p' r' : Prop} (h : Reports p r post kind x) (hp : p ↔ p') (hr : r ↔ r') :
    Reports p' r' post kind x := by
  rwa [Reports, ← hp, ← hr]

theorem Reports.mono {post' : α → Prop} (h : Reports p r post kind x)
    (himp : ∀ a, post a → post' a) : Reports p r post' kind x := by
  rcases h with ⟨hp, hr, a, hx, ha⟩ | hfails
  · exact Or.inl ⟨hp, hr, a, hx, himp a ha⟩
  · exact Or.inr hfails

theorem Reports.of_eq_ok (h : Reports p r post kind x) {a : α} (hx : x = .ok a) : p ∧ post a := by
  rcases h with ⟨hp, -, b, hb, hpost⟩ | ⟨-, -, m, hm⟩ | ⟨-, -, e, he, -⟩
  · rw [hx] at hb
    cases hb
    exact ⟨hp, hpost⟩
  · rw [hx] at hm
    cases hm
  · rw [hx] at he
    cases he

theorem Reports.ok_of (h : Reports p r post kind x) (hp : p) : ∃ a, x = .ok a := by
  rcases h with ⟨-, -, a, hx, -⟩ | ⟨hnot, -⟩ | ⟨hnot, -⟩
  · exact ⟨a, hx⟩
  · exact absurd hp hnot
  · exact absurd hp hnot

theorem Reports.error_iff (h : Reports p r post kind x) : (∃ m, x = .error (kind m)) ↔ r := by
  rcases h with ⟨-, hr, a, rfl, -⟩ | ⟨-, hr, hx⟩ | ⟨-, hr, e, rfl, hne⟩
  · exact iff_of_false (fun ⟨_, hm⟩ => nomatch hm) hr
  · exact iff_of_true hx hr
  · exact iff_of_false (fun ⟨m, hm⟩ => hne m (Except.error.inj hm)) hr

theorem Reports.failsOnly_iff (h : Reports p r post kind x) : FailsOnly kind x ↔ p ∨ r := by
  rcases h with ⟨hp, -, a, rfl, -⟩ | ⟨-, hr, m, rfl⟩ | ⟨hp, hr, e, rfl, hne⟩
  · exact iff_of_true (failsOnly_ok kind a) (Or.inl hp)
  · exact iff_of_true (failsOnly_error kind m) (Or.inr hr)
  · refine iff_of_false (fun h => ?_) (not_or.2 ⟨hp, hr⟩)
    obtain ⟨m, heq⟩ := h e rfl
    exact hne m heq

theorem Decides.bind_reports (hx : Decides p post kind x)
    (hf : ∀ a, p → post a → Reports q r goal kind (f a)) :
    Reports (p ∧ q) (¬p ∨ r) goal kind (x >>= f) := by
  rcases hx with ⟨hp, a, rfl, hpost⟩ | ⟨hp, m, rfl⟩
  · exact (hf a hp hpost).of_iff (by simp [hp]) (by simp [hp])
  · exact Or.inr (Or.inl ⟨fun h => hp h.1, Or.inl hp, m, rfl⟩)

theorem Decides.bind_reports_of_ne {ν : Type} {other : ν → ε} (hne : ∀ n m, other n ≠ kind m)
    (hx : Decides p post other x) (hf : ∀ a, p → post a → Reports q r goal kind (f a)) :
    Reports (p ∧ q) (p ∧ r) goal kind (x >>= f) := by
  rcases hx with ⟨hp, a, rfl, hpost⟩ | ⟨hp, n, rfl⟩
  · exact (hf a hp hpost).of_iff (by simp [hp]) (by simp [hp])
  · exact Or.inr (Or.inr ⟨fun h => hp h.1, fun h => hp h.1, _, rfl, hne n⟩)

theorem Decides.reports_of_ne {ν : Type} {other : ν → ε} (hne : ∀ n m, other n ≠ kind m)
    (hx : Decides p post other x) : Reports p False post kind x := by
  rcases hx with ⟨hp, a, rfl, hpost⟩ | ⟨hp, n, rfl⟩
  · exact Or.inl ⟨hp, not_false, a, rfl, hpost⟩
  · exact Or.inr (Or.inr ⟨hp, not_false, _, rfl, hne n⟩)

/-- What `bind_reports` says of success or reported failure. -/
theorem and_or_not_or_iff (p q r : Prop) : p ∧ q ∨ ¬p ∨ r ↔ (p → q ∨ r) := by
  by_cases hp : p
  · simp [hp]
  · simp [hp]

end Reports

end Except
