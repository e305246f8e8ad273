import OratoriaEngine.Lib.Runs
import Mathlib.Logic.Function.Basic
import Mathlib.Data.Int.Order.Basic

/-!
# Leases that lapse

A store grants a lease until a deadline and lets any caller release it, whoever holds it.
While every release is made by the only holder whose own time has not run out, nobody can
take the lease from a holder in time; the first other release opens it to the next caller.
-/

namespace Lease

/-- A lease kept in a store of type `S`, granted at a time for a given term. -/
structure Keeper (S : Type*) where
  acquire : ℤ → ℤ → S → Bool × S
  release : S → S
  deadline : S → Option ℤ
  /-- When a lease granted at a time for a term runs out. -/
  expiry : ℤ → ℤ → ℤ
  /-- The lease with this deadline may be granted anew at this time. -/
  Lapsed : ℤ → ℤ → Prop
  le_of_lapsed : ∀ d now, Lapsed d now → d ≤ now
  lapsed_of_acquire : ∀ now term s, (acquire now term s).1 = true →
    ∀ d, deadline s = some d → Lapsed d now
  exists_acquire : ∀ now s, (∀ d, deadline s = some d → Lapsed d now) →
    ∃ term, (acquire now term s).1 = true
  deadline_granted : ∀ now term s, (acquire now term s).1 = true →
    deadline (acquire now term s).2 = some (expiry now term)
  deadline_refused : ∀ now term s d, deadline s = some d → now < d →
    (acquire now term s).1 = false → deadline (acquire now term s).2 = some d
  deadline_release : ∀ s, deadline (release s) = none

structure Desk (S ι : Type*) where
  store : S
  now : ℤ
  holders : ι → Option ℤ

/-- What happens at the desk. A release may come at any time after a grant. -/
inductive Event (ι : Type*)
  | acquire (holder : ι) (term : ℤ)
  | release (holder : ι)
  | pass (time : ℕ)

variable {S ι : Type*} [DecidableEq ι] (keeper : Keeper S)

namespace Desk

/-- Who holds the lease does not ask again, and who does not hold it does not release it. -/
def step (k : Desk S ι) : Event ι → Desk S ι
  | .acquire i term =>
      if (k.holders i).isSome then k
      else
        let outcome := keeper.acquire k.now term k.store
        { k with
          store := outcome.2
          holders :=
            if outcome.1 then Function.update k.holders i (some (keeper.expiry k.now term))
            else k.holders }
  | .release i =>
      if (k.holders i).isSome then
        { k with store := keeper.release k.store, holders := Function.update k.holders i none }
      else k
  | .pass time => { k with now := k.now + time }

def InTime (k : Desk S ι) (i : ι) : Prop := ∃ d, k.holders i = some d ∧ k.now < d

/-- While a holder is in time nobody is granted the lease. -/
def Exclusive (k : Desk S ι) : Prop :=
  ∀ i, k.InTime i → ∀ term, (keeper.acquire k.now term k.store).1 = false

/-- Nobody releases a lease while another holder is in time. -/
def Rightful (k : Desk S ι) : Event ι → Prop
  | .release i => (k.holders i).isSome → ∀ j, j ≠ i → ¬k.InTime j
  | _ => True

def Guarded (k : Desk S ι) : Prop :=
  ∀ i d, k.holders i = some d → k.now < d → keeper.deadline k.store = some d

variable {keeper} {k : Desk S ι}

omit [DecidableEq ι] in
theorem Guarded.exclusive (h : Guarded keeper k) : Exclusive keeper k := by
  rintro i ⟨d, hd, hlt⟩ term
  rw [← Bool.not_eq_true]
  intro hgranted
  have hlapsed := keeper.lapsed_of_acquire k.now term k.store hgranted d (h i d hd hlt)
  exact absurd (keeper.le_of_lapsed d k.now hlapsed) (not_le.2 hlt)

theorem step_acquire_of_held {i : ι} (h : (k.holders i).isSome) (term : ℤ) :
    k.step keeper (.acquire i term) = k := if_pos h

theorem step_release_of_held {i : ι} (h : (k.holders i).isSome) :
    k.step keeper (.release i) = { k with
      store := keeper.release k.store, holders := Function.update k.holders i none } := if_pos h

theorem Guarded.step_refused (h : Guarded keeper k) {i : ι} (hfree : ¬(k.holders i).isSome)
    {term : ℤ} (hrefused : (keeper.acquire k.now term k.store).1 = false) :
    Guarded keeper (k.step keeper (.acquire i term)) := by
  have hstep : k.step keeper (.acquire i term) =
      { k with store := (keeper.acquire k.now term k.store).2 } := by
    unfold Desk.step
    simp only [hfree, hrefused, Bool.false_eq_true, if_false]
  rw [hstep]
  exact fun j d hd hlt =>
    keeper.deadline_refused k.now term k.store d (h j d hd hlt) hlt hrefused

theorem Guarded.step_granted (h : Guarded keeper k) {i : ι} (hfree : ¬(k.holders i).isSome)
    {term : ℤ} (hgranted : (keeper.acquire k.now term k.store).1 = true) :
    Guarded keeper (k.step keeper (.acquire i term)) := by
  have hstep : k.step keeper (.acquire i term) = { k with
      store := (keeper.acquire k.now term k.store).2
      holders := Function.update k.holders i (some (keeper.expiry k.now term)) } := by
    unfold Desk.step
    simp only [hfree, hgranted, Bool.false_eq_true, if_false, if_true]
  rw [hstep]
  intro j d hd hlt
  by_cases hj : j = i
  · subst hj
    simp only [Function.update_self] at hd
    cases hd
    exact keeper.deadline_granted k.now term k.store hgranted
  · simp only [Function.update_of_ne hj] at hd
    have hrefused := h.exclusive j ⟨d, hd, hlt⟩ term
    rw [hgranted] at hrefused
    cases hrefused

theorem Guarded.step (h : Guarded keeper k) {e : Event ι} (he : k.Rightful e) :
    Guarded keeper (k.step keeper e) := by
  cases e with
  | acquire i term =>
      by_cases hheld : (k.holders i).isSome
      · rw [step_acquire_of_held hheld]
        exact h
      cases hgranted : (keeper.acquire k.now term k.store).1 with
      | false => exact h.step_refused hheld hgranted
      | true => exact h.step_granted hheld hgranted
  | release i =>
      by_cases hheld : (k.holders i).isSome
      · rw [step_release_of_held hheld]
        intro j d hd hlt
        by_cases hj : j = i
        · subst hj
          simp at hd
        · simp only [Function.update_of_ne hj] at hd
          exact absurd ⟨d, hd, hlt⟩ (he hheld j hj)
      · have hstep : k.step keeper (.release i) = k := if_neg hheld
        rw [hstep]
        exact h
  | pass time =>
      intro i d hd hlt
      change k.now + time < d at hlt
      exact h i d hd (by omega)

theorem not_exclusive_step {e : Event ι} (he : ¬k.Rightful e) :
    ¬Exclusive keeper (k.step keeper e) := by
  cases e with
  | acquire i term => exact absurd trivial he
  | pass time => exact absurd trivial he
  | release i =>
      unfold Rightful at he
      push Not at he
      obtain ⟨hheld, j, hj, d, hd, hlt⟩ := he
      obtain ⟨term, hterm⟩ := keeper.exists_acquire k.now (keeper.release k.store)
        fun d' hd' => by rw [keeper.deadline_release] at hd'; cases hd'
      rw [step_release_of_held hheld]
      intro hexclusive
      have hrefused := hexclusive j ⟨d, by simpa [hj] using hd, hlt⟩ term
      exact absurd (hterm.symm.trans hrefused) (by decide)

/-- From a desk without holders on, the lease is exclusive exactly while every release is
rightful. -/
theorem exclusive_iff_rightful (store : S) (now : ℤ) (events : List (Event ι)) :
    Runs.Throughout (step keeper) (Exclusive keeper) ⟨store, now, fun _ => none⟩ events ↔
      Runs.EveryStep (step keeper) Rightful ⟨store, now, fun _ => none⟩ events :=
  (Runs.everyStep_iff_throughout (I := Guarded keeper) (fun _ h => h.exclusive)
    (fun _ _ h he => h.step he) (fun _ _ _ he => not_exclusive_step he)
    (fun _ _ hd => by cases hd) events).symm

end Desk

end Lease
