import OratoriaEngine.Lib.Dict

/-!
# Grouping

The elements of a list under their keys, in the order of the list.
-/

namespace Dict

variable {α κ : Type*} [DecidableEq κ]

/-- `d.setdefault(k, []).append(a)`. -/
def append (d : Dict κ (List α)) (k : κ) (a : α) : Dict κ (List α) :=
  d.set k ((d.get? k).getD [] ++ [a])

def groupBy (key : α → κ) (l : List α) : Dict κ (List α) :=
  l.foldl (fun d a => d.append (key a) a) empty

theorem get?_append (d : Dict κ (List α)) (k k' : κ) (a : α) :
    (d.append k a).get? k' = if k' = k then some ((d.get? k).getD [] ++ [a]) else d.get? k' :=
  get?_set d k k' _

theorem get?_foldl_append (key : α → κ) (l : List α) (d : Dict κ (List α)) (k : κ) :
    (l.foldl (fun d a => d.append (key a) a) d).get? k =
      if ∃ a ∈ l, key a = k then some ((d.get? k).getD [] ++ l.filter fun a => key a = k)
      else d.get? k := by
  induction l generalizing d with
  | nil => simp
  | cons a l ih =>
      rw [List.foldl_cons, ih, get?_append]
      by_cases ha : key a = k
      · subst ha
        split_ifs <;> simp_all
      · have ha' : k ≠ key a := fun h => ha h.symm
        simp [ha, ha']

theorem get?_groupBy (key : α → κ) (l : List α) (k : κ) :
    (groupBy key l).get? k =
      if ∃ a ∈ l, key a = k then some (l.filter fun a => key a = k) else none := by
  rw [groupBy, get?_foldl_append]
  rfl

theorem mem_groupBy_entries {key : α → κ} {l : List α} {k : κ} {group : List α} :
    (k, group) ∈ (groupBy key l).entries ↔
      (∃ a ∈ l, key a = k) ∧ group = l.filter fun a => key a = k := by
  rw [← get?_eq_some_iff_mem, get?_groupBy]
  split_ifs with h
  · rw [Option.some.injEq, eq_comm]
    exact (and_iff_right h).symm
  · exact iff_of_false (by simp) fun hn => h hn.1

end Dict
