import Mathlib.Data.List.Forall2

/-!
# Outcomes that are values or exceptions

Inversion rules for the exception monad: how a successful sequence, a successful
map over a list, and a successful value arise.
-/

namespace Except

variable {ε α β : Type}

theorem bind_eq_ok {x : Except ε α} {f : α → Except ε β} {b : β} :
    x >>= f = .ok b ↔ ∃ a, x = .ok a ∧ f a = .ok b := by
  cases x with
  | error e => exact ⟨fun h => (nomatch h), fun ⟨_, h, _⟩ => (nomatch h)⟩
  | ok a =>
      constructor
      · intro h
        exact ⟨a, rfl, h⟩
      · rintro ⟨_, h, hf⟩
        cases h
        exact hf

theorem pure_eq_ok {a b : α} : (pure a : Except ε α) = .ok b ↔ a = b :=
  ⟨fun h => by cases h; rfl, fun h => by rw [h]; rfl⟩

theorem map_eq_ok {x : Except ε α} {f : α → β} {b : β} :
    f <$> x = .ok b ↔ ∃ a, x = .ok a ∧ f a = b := by
  cases x with
  | error e => exact ⟨fun h => (nomatch h), fun ⟨_, h, _⟩ => (nomatch h)⟩
  | ok a =>
      constructor
      · intro h
        cases h
        exact ⟨a, rfl, rfl⟩
      · rintro ⟨_, h, rfl⟩
        cases h
        rfl

theorem not_isOk_error {e : ε} : ¬∃ a : α, (.error e : Except ε α) = .ok a := by
  rintro ⟨a, h⟩
  cases h

theorem map_isOk_iff {x : Except ε α} {f : α → β} :
    (∃ b, f <$> x = .ok b) ↔ ∃ a, x = .ok a := by
  constructor
  · rintro ⟨b, h⟩
    obtain ⟨a, ha, -⟩ := map_eq_ok.1 h
    exact ⟨a, ha⟩
  · rintro ⟨a, rfl⟩
    exact ⟨f a, rfl⟩

theorem mapM_eq_ok {f : α → Except ε β} {l : List α} {r : List β} (h : l.mapM f = .ok r) :
    List.Forall₂ (fun a b => f a = .ok b) l r := by
  induction l generalizing r with
  | nil =>
      rw [List.mapM_nil] at h
      cases h
      exact .nil
  | cons a l ih =>
      rw [List.mapM_cons] at h
      obtain ⟨b, hb, h⟩ := bind_eq_ok.1 h
      obtain ⟨s, hs, h⟩ := bind_eq_ok.1 h
      cases h
      exact .cons hb (ih hs)

theorem exists_mem_of_forall₂ {r : α → β → Prop} {l : List α} {k : List β}
    (h : List.Forall₂ r l k) {b : β} (hb : b ∈ k) : ∃ a ∈ l, r a b := by
  induction h with
  | nil => cases hb
  | cons hab _ ih =>
      rcases List.mem_cons.1 hb with rfl | hb
      · exact ⟨_, List.mem_cons_self, hab⟩
      · obtain ⟨a, ha, hf⟩ := ih hb
        exact ⟨a, List.mem_cons_of_mem _ ha, hf⟩

theorem pairwise_of_forall₂ {r : α → β → Prop} {p : α → α → Prop} {q : β → β → Prop}
    (hpq : ∀ {a a' b b'}, r a b → r a' b' → p a a' → q b b') {l : List α} {k : List β}
    (h : List.Forall₂ r l k) (hl : l.Pairwise p) : k.Pairwise q := by
  induction h with
  | nil => exact List.Pairwise.nil
  | cons hab hrest ih =>
      obtain ⟨ha, hl⟩ := List.pairwise_cons.1 hl
      refine List.pairwise_cons.2 ⟨fun b' hb' => ?_, ih hl⟩
      obtain ⟨a', ha', hab'⟩ := exists_mem_of_forall₂ hrest hb'
      exact hpq hab hab' (ha a' ha')

theorem eq_map_of_forall₂ {f : α → β} {l : List α} {k : List β}
    (h : List.Forall₂ (fun a b => b = f a) l k) : k = l.map f := by
  induction h with
  | nil => rfl
  | cons hab _ ih => rw [hab, ih, List.map_cons]

theorem mem_of_mapM_eq_ok {f : α → Except ε β} {l : List α} {r : List β} (h : l.mapM f = .ok r)
    {b : β} (hb : b ∈ r) : ∃ a ∈ l, f a = .ok b := exists_mem_of_forall₂ (mapM_eq_ok h) hb

theorem mapM_isOk {f : α → Except ε β} {l : List α} (h : ∀ a ∈ l, ∃ b, f a = .ok b) :
    ∃ r, l.mapM f = .ok r := by
  induction l with
  | nil => exact ⟨[], List.mapM_nil⟩
  | cons a l ih =>
      obtain ⟨b, hb⟩ := h a List.mem_cons_self
      obtain ⟨r, hr⟩ := ih fun a' ha' => h a' (List.mem_cons_of_mem _ ha')
      exact ⟨b :: r, by rw [List.mapM_cons, hb, hr]; rfl⟩

theorem mapM_isOk_iff {f : α → Except ε β} {l : List α} :
    (∃ r, l.mapM f = .ok r) ↔ ∀ a ∈ l, ∃ b, f a = .ok b := by
  refine ⟨fun ⟨r, hr⟩ a ha => ?_, mapM_isOk⟩
  obtain ⟨b, -, hb⟩ := exists_mem_of_forall₂ (mapM_eq_ok hr).flip ha
  exact ⟨b, hb⟩

/-- A sequence succeeds if both parts do, where the second does so whatever the first gives. -/
theorem bind_isOk_iff {p : Prop} {x : Except ε α} {f : α → Except ε β}
    (hf : ∀ a, x = .ok a → ((∃ b, f a = .ok b) ↔ p)) :
    (∃ b, x >>= f = .ok b) ↔ (∃ a, x = .ok a) ∧ p := by
  constructor
  · rintro ⟨b, h⟩
    obtain ⟨a, ha, hb⟩ := bind_eq_ok.1 h
    exact ⟨⟨a, ha⟩, (hf a ha).1 ⟨b, hb⟩⟩
  · rintro ⟨⟨a, ha⟩, hp⟩
    obtain ⟨b, hb⟩ := (hf a ha).2 hp
    exact ⟨b, bind_eq_ok.2 ⟨a, ha, hb⟩⟩

theorem mapM_perm {f : α → Except ε β} {l k : List α} (hperm : l.Perm k) {r : List β}
    (h : k.mapM f = .ok r) : ∃ s, l.mapM f = .ok s ∧ s.Perm r := by
  induction hperm generalizing r with
  | nil => exact ⟨r, h, List.Perm.refl r⟩
  | cons a _ ih =>
      rw [List.mapM_cons] at h
      obtain ⟨b, hb, h⟩ := bind_eq_ok.1 h
      obtain ⟨r', hr, h⟩ := bind_eq_ok.1 h
      cases h
      obtain ⟨s, hs, hsr⟩ := ih hr
      exact ⟨b :: s, by rw [List.mapM_cons, hb, hs]; rfl, hsr.cons b⟩
  | swap a b l =>
      simp only [List.mapM_cons] at h
      obtain ⟨x, hx, h⟩ := bind_eq_ok.1 h
      obtain ⟨r', hr, h⟩ := bind_eq_ok.1 h
      obtain ⟨y, hy, hr⟩ := bind_eq_ok.1 hr
      obtain ⟨s, hs, hr⟩ := bind_eq_ok.1 hr
      cases hr
      cases h
      exact ⟨y :: x :: s, by simp only [List.mapM_cons, hx, hy, hs]; rfl, List.Perm.swap x y s⟩
  | trans _ _ ih₁ ih₂ =>
      obtain ⟨s, hs, hsr⟩ := ih₂ h
      obtain ⟨s', hs', hss⟩ := ih₁ hs
      exact ⟨s', hs', hss.trans hsr⟩

theorem mapM_map {γ : Type} {read : β → Except ε γ} {write : α → β} {g : α → γ} {l : List α}
    (h : ∀ a ∈ l, read (write a) = .ok (g a)) : (l.map write).mapM read = .ok (l.map g) := by
  induction l with
  | nil => rfl
  | cons a l ih =>
      have hrest := ih fun b hb => h b (List.mem_cons_of_mem a hb)
      rw [List.map_cons, List.mapM_cons, h a List.mem_cons_self, hrest]
      rfl

theorem mapM_perm_map {γ : Type} (read : β → Except ε γ) {write : α → β} {g : α → γ} {l : List α}
    {rows : List β} (hrows : rows.Perm (l.map write))
    (h : ∀ a ∈ l, read (write a) = .ok (g a)) :
    ∃ r, rows.mapM read = .ok r ∧ r.Perm (l.map g) := mapM_perm hrows (mapM_map h)

theorem mapM_perm_self (read : β → Except ε α) {write : α → β} {l : List α} {rows : List β}
    (hrows : rows.Perm (l.map write)) (h : ∀ a ∈ l, read (write a) = .ok a) :
    ∃ r, rows.mapM read = .ok r ∧ r.Perm l := by
  obtain ⟨r, hr, hperm⟩ := mapM_perm_map read hrows h
  exact ⟨r, hr, by rwa [List.map_id'] at hperm⟩

/-- A value meets the first condition, an exception the second. -/
def Meets (post : α → Prop) (failed : ε → Prop) : Except ε α → Prop
  | .ok a => post a
  | .error e => failed e

variable {post : β → Prop} {failed : ε → Prop}

theorem meets_bind_iff {x : Except ε α} {f : α → Except ε β} :
    (x >>= f).Meets post failed ↔ x.Meets (fun a => (f a).Meets post failed) failed := by
  cases x <;> exact Iff.rfl

theorem meets_map_iff {x : Except ε α} {f : α → β} :
    (f <$> x).Meets post failed ↔ x.Meets (fun a => post (f a)) failed := by
  cases x <;> exact Iff.rfl

theorem meets_pure_iff {b : β} : (pure b : Except ε β).Meets post failed ↔ post b := Iff.rfl

theorem meets_congr {post' : β → Prop} (h : ∀ b, post b ↔ post' b) {x : Except ε β} :
    x.Meets post failed ↔ x.Meets post' failed := by
  cases x with
  | error e => exact Iff.rfl
  | ok b => exact h b

theorem meets_iff_of_error {x : Except ε β} (h : ∀ e, x = .error e → ¬failed e) :
    x.Meets post failed ↔ ∃ b, x = .ok b ∧ post b := by
  cases x with
  | error e =>
      apply iff_of_false (h e rfl)
      rintro ⟨b, hb, -⟩
      cases hb
  | ok b =>
      constructor
      · intro hb
        exact ⟨b, rfl, hb⟩
      · rintro ⟨b', hb', hpost⟩
        cases hb'
        exact hpost

theorem meets_iff_of_failed {x : Except ε β} (h : ∀ e, x = .error e → failed e) :
    x.Meets post failed ↔ ∀ b, x = .ok b → post b := by
  cases x with
  | error e => exact iff_of_true (h e rfl) fun b hb => by cases hb
  | ok b => simp [Meets]

theorem error_of_mapM {f : α → Except ε β} {l : List α} {e : ε} (h : l.mapM f = .error e) :
    ∃ a ∈ l, f a = .error e := by
  induction l with
  | nil => cases h
  | cons a l ih =>
      rw [List.mapM_cons] at h
      cases ha : f a with
      | error e' =>
          rw [ha] at h
          cases h
          exact ⟨a, List.mem_cons_self, ha⟩
      | ok b =>
          cases hl : l.mapM f with
          | error e' =>
              rw [ha, hl] at h
              cases h
              obtain ⟨a', hmem, ha'⟩ := ih hl
              exact ⟨a', List.mem_cons_of_mem a hmem, ha'⟩
          | ok r =>
              rw [ha, hl] at h
              cases h

end Except
