import Mathlib.Data.List.Basic
import Mathlib.Data.Int.Notation

/-!
# Parts of a text around a separator

A text in parts can be taken apart again at a separator that does not occur in the parts before
it, or in the parts after it.
-/

namespace Delimited

variable {α : Type*} {c : α} {l l' r r' : List α}

theorem append_cons_inj_of_not_mem_left (hl : c ∉ l) (hl' : c ∉ l') :
    l ++ c :: r = l' ++ c :: r' ↔ l = l' ∧ r = r' := by
  refine ⟨fun h => ?_, fun h => by rw [h.1, h.2]⟩
  induction l generalizing l' with
  | nil =>
      cases l' with
      | nil => exact ⟨rfl, (List.cons.inj h).2⟩
      | cons b l' => exact absurd ((List.cons.inj h).1 ▸ List.mem_cons_self) hl'
  | cons a l ih =>
      cases l' with
      | nil => exact absurd ((List.cons.inj h).1 ▸ List.mem_cons_self) hl
      | cons b l' =>
          obtain ⟨rfl, hrest⟩ := List.cons.inj h
          obtain ⟨rfl, rfl⟩ := ih (fun hmem => hl (List.mem_cons_of_mem _ hmem))
            (fun hmem => hl' (List.mem_cons_of_mem _ hmem)) hrest
          exact ⟨rfl, rfl⟩

theorem append_cons_inj_of_not_mem_right (hr : c ∉ r) (hr' : c ∉ r') :
    l ++ c :: r = l' ++ c :: r' ↔ l = l' ∧ r = r' := by
  rw [← List.reverse_inj]
  simp only [List.reverse_append, List.reverse_cons, List.append_assoc, List.singleton_append]
  rw [append_cons_inj_of_not_mem_left (by simpa using hr) (by simpa using hr'), List.reverse_inj,
    List.reverse_inj, and_comm]

def cut [DecidableEq α] (c : α) : List α → Option (List α × List α)
  | [] => none
  | a :: l => if a = c then some ([], l) else (cut c l).map fun parts => (a :: parts.1, parts.2)

theorem cut_append_cons [DecidableEq α] (hl : c ∉ l) : cut c (l ++ c :: r) = some (l, r) := by
  induction l with
  | nil => exact if_pos rfl
  | cons a l ih =>
      have hne : a ≠ c := fun heq => hl (heq ▸ List.mem_cons_self)
      rw [List.cons_append, cut, if_neg hne, ih (fun hmem => hl (List.mem_cons_of_mem _ hmem))]
      rfl

theorem toDigits_injective {m n : ℕ} (h : Nat.toDigits 10 m = Nat.toDigits 10 n) : m = n := by
  rw [← Nat.ofDigitChars_ten_toDigits (n := m), h, Nat.ofDigitChars_ten_toDigits]

theorem toList_repr_negSucc (m : ℕ) :
    (Int.repr (Int.negSucc m)).toList = '-' :: Nat.toDigits 10 (m + 1) := by
  change ("-" ++ Nat.repr (m + 1)).toList = _
  rw [String.toList_append, Nat.toList_repr]
  rfl

theorem mem_toList_repr {n : ℤ} {c : Char} (h : c ∈ (Int.repr n).toList) :
    c.isDigit = true ∨ c = '-' := by
  cases n with
  | ofNat m =>
      change c ∈ (Nat.repr m).toList at h
      rw [Nat.toList_repr] at h
      exact .inl (Nat.isDigit_of_mem_toDigits (by decide) (by decide) h)
  | negSucc m =>
      rw [toList_repr_negSucc, List.mem_cons] at h
      exact h.symm.imp_left (Nat.isDigit_of_mem_toDigits (by decide) (by decide))

theorem sign_not_mem_toDigits (n : ℕ) : '-' ∉ Nat.toDigits 10 n := by
  intro h
  have hdigit : '-'.isDigit = true := Nat.isDigit_of_mem_toDigits (by decide) (by decide) h
  cases hdigit

theorem repr_injective : Function.Injective Int.repr := by
  intro m n h
  have hlist := congrArg String.toList h
  cases m with
  | ofNat m =>
      change (Nat.repr m).toList = _ at hlist
      rw [Nat.toList_repr] at hlist
      cases n with
      | ofNat n =>
          change _ = (Nat.repr n).toList at hlist
          rw [Nat.toList_repr] at hlist
          exact congrArg Int.ofNat (toDigits_injective hlist)
      | negSucc n =>
          rw [toList_repr_negSucc] at hlist
          exact absurd (hlist ▸ List.mem_cons_self) (sign_not_mem_toDigits m)
  | negSucc m =>
      rw [toList_repr_negSucc] at hlist
      cases n with
      | ofNat n =>
          change _ = (Nat.repr n).toList at hlist
          rw [Nat.toList_repr] at hlist
          exact absurd (hlist ▸ List.mem_cons_self) (sign_not_mem_toDigits n)
      | negSucc n =>
          rw [toList_repr_negSucc] at hlist
          have hsucc := toDigits_injective (List.cons.inj hlist).2
          exact congrArg Int.negSucc (Nat.succ.inj hsucc)

end Delimited
