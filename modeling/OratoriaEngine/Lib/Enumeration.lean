import Mathlib.Logic.Function.Basic

/-!
# Enumerations as text

A closed set of members is written as text, each member as a text of its own, so that the text
can be read back.
-/

/-- The members of an enumeration and what each is written as; no text is empty or shared. -/
structure Enumeration (α : Type) where
  typeName : String
  members : List α
  value : α → String
  stated : ∀ a, value a ≠ ""
  told : ∀ a, members.find? (fun m => decide (value m = value a)) = some a

namespace Enumeration

variable {α : Type} (e : Enumeration α)

def read? (text : String) : Option α := e.members.find? fun m => decide (e.value m = text)

@[simp] theorem read?_value (a : α) : e.read? (e.value a) = some a := e.told a

theorem read?_eq_some_iff {text : String} {a : α} : e.read? text = some a ↔ text = e.value a := by
  constructor
  · intro h
    have hvalue := List.find?_some h
    exact (of_decide_eq_true hvalue).symm
  · rintro rfl
    exact e.read?_value a

theorem mem_members (a : α) : a ∈ e.members := List.mem_of_find?_eq_some (e.told a)

theorem value_injective : Function.Injective e.value := by
  intro a b h
  have hb := e.read?_value b
  rw [← h, e.read?_value] at hb
  exact Option.some.inj hb

end Enumeration
