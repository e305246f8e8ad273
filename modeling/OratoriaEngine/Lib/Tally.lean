import Mathlib.Algebra.BigOperators.Group.List.Basic
import Mathlib.Algebra.Ring.Nat
import OratoriaEngine.Lib.Dict

/-!
# Tallies

A dictionary of counts, to which amounts are added under a key. The counts under the keys that
satisfy a predicate sum to the amounts added under these keys; of a list that was tallied they
sum to the number of its elements that satisfy the predicate.
-/

namespace Dict

variable {κ : Type*}

def sumWhere (d : Dict κ ℕ) (p : κ → Prop) [DecidablePred p] : ℕ :=
  ((d.entries.filter fun e => p e.1).map Prod.snd).sum

theorem sumWhere_eq_sum_ite (d : Dict κ ℕ) (p : κ → Prop) [DecidablePred p] :
    d.sumWhere p = (d.entries.map fun e => if p e.1 then e.2 else 0).sum := by
  rw [sumWhere]
  induction d.entries with
  | nil => rfl
  | cons e l ih => by_cases hp : p e.1 <;> simp [hp, ih]

variable [DecidableEq κ]

def add (d : Dict κ ℕ) (k : κ) (n : ℕ) : Dict κ ℕ := d.set k ((d.get? k).getD 0 + n)

def tally (l : List κ) : Dict κ ℕ := l.foldl (fun d k => d.add k 1) empty

theorem sum_assign (p : κ → Prop) [DecidablePred p] (k : κ) (n : ℕ) (l : List (κ × ℕ)) :
    (((assign l k ((l.lookup k).getD 0 + n)).filter fun e => p e.1).map Prod.snd).sum =
      ((l.filter fun e => p e.1).map Prod.snd).sum + if p k then n else 0 := by
  induction l with
  | nil => by_cases hp : p k <;> simp [assign, hp]
  | cons e l ih =>
      obtain ⟨k', m⟩ := e
      by_cases hk : k' = k
      · subst hk
        by_cases hp : p k' <;> simp [assign, hp]
        omega
      · have hbeq : (k == k') = false := by simpa using fun h => hk h.symm
        simp only [assign, hk, if_false, List.lookup_cons, hbeq, List.filter_cons]
        by_cases hp : p k'
        · simp only [hp, decide_true, if_true, List.map_cons, List.sum_cons, ih]
          omega
        · simp only [hp, decide_false, if_false, ih, Bool.false_eq_true]

theorem sumWhere_add (d : Dict κ ℕ) (k : κ) (n : ℕ) (p : κ → Prop) [DecidablePred p] :
    (d.add k n).sumWhere p = d.sumWhere p + if p k then n else 0 :=
  sum_assign p k n d.entries

theorem sumWhere_foldl_add {β : Type*} (key : β → κ) (amount : β → ℕ) (l : List β) (d : Dict κ ℕ)
    (p : κ → Prop) [DecidablePred p] :
    (l.foldl (fun d b => d.add (key b) (amount b)) d).sumWhere p =
      d.sumWhere p + (l.map fun b => if p (key b) then amount b else 0).sum := by
  induction l generalizing d with
  | nil => simp
  | cons b l ih =>
      rw [List.foldl_cons, ih, sumWhere_add, List.map_cons, List.sum_cons, add_assoc]

omit [DecidableEq κ] in
theorem sum_map_ite (p : κ → Prop) [DecidablePred p] (l : List κ) :
    (l.map fun k => if p k then 1 else 0).sum = l.countP fun k => p k := by
  induction l with
  | nil => rfl
  | cons k l ih => by_cases hp : p k <;> simp [ih, hp, add_comm]

theorem sumWhere_tally (l : List κ) (p : κ → Prop) [DecidablePred p] :
    (tally l).sumWhere p = l.countP fun k => p k := by
  rw [tally, sumWhere_foldl_add (fun k => k) (fun _ => 1) l empty p, sum_map_ite]
  exact Nat.zero_add _

omit [DecidableEq κ] in
theorem sumWhere_true (d : Dict κ ℕ) : d.sumWhere (fun _ => True) = d.values.sum := by
  simp [sumWhere, values]

theorem sum_values_tally (l : List κ) : (tally l).values.sum = l.length := by
  rw [← sumWhere_true, sumWhere_tally]
  simp

theorem get?_add (d : Dict κ ℕ) (k k' : κ) (n : ℕ) :
    (d.add k n).get? k' = if k' = k then some ((d.get? k).getD 0 + n) else d.get? k' :=
  get?_set d k k' _

theorem getD_foldl_add (l : List κ) (d : Dict κ ℕ) (k : κ) :
    ((l.foldl (fun d k => d.add k 1) d).get? k).getD 0 =
      (d.get? k).getD 0 + l.countP fun k' => k' = k := by
  induction l generalizing d with
  | nil => simp
  | cons k' l ih =>
      rw [List.foldl_cons, ih, get?_add, List.countP_cons]
      by_cases hk : k = k'
      · subst hk
        simp
        omega
      · have hk' : k' ≠ k := fun h => hk h.symm
        simp [hk, hk']

theorem getD_tally (l : List κ) (k : κ) :
    ((tally l).get? k).getD 0 = l.countP fun k' => k' = k := by
  rw [tally, getD_foldl_add, get?_empty]
  exact Nat.zero_add _

theorem isSome_foldl_add (l : List κ) (d : Dict κ ℕ) (k : κ) :
    ((l.foldl (fun d k => d.add k 1) d).get? k).isSome ↔ (d.get? k).isSome ∨ k ∈ l := by
  induction l generalizing d with
  | nil => simp
  | cons k' l ih =>
      rw [List.foldl_cons, ih, get?_add, List.mem_cons]
      by_cases hk : k = k' <;> simp [hk]

theorem get?_tally (l : List κ) (k : κ) :
    (tally l).get? k = if k ∈ l then some (l.countP fun k' => k' = k) else none := by
  have hsome : ((tally l).get? k).isSome ↔ k ∈ l := by
    rw [tally, isSome_foldl_add, get?_empty]
    simp
  have hcount := getD_tally l k
  cases hget : (tally l).get? k with
  | none =>
      have hmem : k ∉ l := fun h => by simpa [hget] using hsome.2 h
      rw [if_neg hmem]
  | some n =>
      have hmem : k ∈ l := hsome.1 (by rw [hget]; rfl)
      rw [hget] at hcount
      rw [if_pos hmem, ← hcount]
      rfl

/-- Two tallies hold the same counts exactly when the lists are equal up to order. -/
theorem get?_tally_eq_iff (l l' : List κ) :
    (∀ k, (tally l).get? k = (tally l').get? k) ↔ l.Perm l' := by
  constructor
  · intro h
    apply List.perm_iff_count.2
    intro k
    have hcount := congrArg (fun n => Option.getD n 0) (h k)
    simp only [getD_tally] at hcount
    simpa only [List.count, beq_eq_decide] using hcount
  · intro h k
    simp only [get?_tally, h.countP_eq, h.mem_iff]

end Dict
