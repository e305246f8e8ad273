import OratoriaEngine.Floats
import Mathlib.Data.Int.Notation

/-!
# JSON trees

The trees the engine parses and renders. An object lists its members; of two members with one key
the first is read.
-/

namespace OratoriaEngine

inductive Json
  | null
  | bool (value : Bool)
  | int (value : ℤ)
  | float (value : PyFloat)
  | str (value : String)
  | arr (items : List Json)
  | obj (entries : List (String × Json))

namespace Json

/-- Some object at some depth has a key with the property. -/
inductive Mentions (p : String → Prop) : Json → Prop
  | key {entries : List (String × Json)} {k : String} {value : Json} (hmem : (k, value) ∈ entries)
      (hk : p k) : Mentions p (.obj entries)
  | field {entries : List (String × Json)} {k : String} {value : Json}
      (hmem : (k, value) ∈ entries) (hvalue : Mentions p value) : Mentions p (.obj entries)
  | item {items : List Json} {value : Json} (hmem : value ∈ items)
      (hvalue : Mentions p value) : Mentions p (.arr items)

variable {p : String → Prop}

theorem mentions_obj_iff {entries : List (String × Json)} :
    Mentions p (.obj entries) ↔ ∃ e ∈ entries, p e.1 ∨ Mentions p e.2 := by
  constructor
  · intro h
    cases h with
    | key hmem hk => exact ⟨_, hmem, Or.inl hk⟩
    | field hmem hvalue => exact ⟨_, hmem, Or.inr hvalue⟩
  · rintro ⟨⟨k, value⟩, hmem, hk | hvalue⟩
    · exact .key hmem hk
    · exact .field hmem hvalue

theorem mentions_arr_iff {items : List Json} :
    Mentions p (.arr items) ↔ ∃ value ∈ items, Mentions p value := by
  constructor
  · intro h
    cases h with
    | item hmem hvalue => exact ⟨_, hmem, hvalue⟩
  · rintro ⟨value, hmem, hvalue⟩
    exact .item hmem hvalue

end Json

end OratoriaEngine
