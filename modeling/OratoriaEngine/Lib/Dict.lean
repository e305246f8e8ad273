import Mathlib.Data.List.Nodup
import Mathlib.Data.List.Basic
import Mathlib.Data.Int.Notation

/-!
# Insertion-ordered dictionaries

A dictionary is a list of entries with distinct keys. Assigning to a present key
replaces its value in place and assigning to an absent one appends, so iterating
over the entries visits the keys in the order of their first assignment.
-/

variable {κ ν : Type*}

/-- Entries in order of first assignment; a key occurs at most once. -/
@[ext] structure Dict (κ ν : Type*) where
  entries : List (κ × ν)
  nodup : (entries.map Prod.fst).Nodup
  deriving DecidableEq

namespace Dict

def empty : Dict κ ν := ⟨[], by simp⟩

def keys (d : Dict κ ν) : List κ := d.entries.map Prod.fst

def values (d : Dict κ ν) : List ν := d.entries.map Prod.snd

/-- The entries whose key and value satisfy `p`, as a comprehension keeps them. -/
def filter (p : κ → ν → Bool) (d : Dict κ ν) : Dict κ ν :=
  ⟨d.entries.filter fun e => p e.1 e.2,
    d.nodup.sublist (List.Sublist.map _ List.filter_sublist)⟩

variable [DecidableEq κ]

def get? (d : Dict κ ν) (k : κ) : Option ν := d.entries.lookup k

@[simp] theorem get?_empty (k : κ) : (empty : Dict κ ν).get? k = none := rfl

theorem lookup_eq_some_iff_mem {l : List (κ × ν)} (hl : (l.map Prod.fst).Nodup) (k : κ) (v : ν) :
    l.lookup k = some v ↔ (k, v) ∈ l := by
  induction l with
  | nil => simp
  | cons e l ih =>
      obtain ⟨k', v'⟩ := e
      rw [List.map_cons, List.nodup_cons] at hl
      by_cases hk : k = k'
      · subst hk
        have hout : (k, v) ∉ l := fun hm => hl.1 (List.mem_map.2 ⟨_, hm, rfl⟩)
        simp [hout, eq_comm]
      · have hbeq : (k == k') = false := by simpa using hk
        simp [List.lookup_cons, hbeq, hk, ih hl.2]

theorem get?_eq_some_iff_mem (d : Dict κ ν) (k : κ) (v : ν) :
    d.get? k = some v ↔ (k, v) ∈ d.entries := lookup_eq_some_iff_mem d.nodup k v

theorem get?_eq_none_iff (d : Dict κ ν) (k : κ) : d.get? k = none ↔ k ∉ d.keys := by
  constructor
  · intro hn hk
    obtain ⟨e, he, rfl⟩ := List.mem_map.1 hk
    have hs : d.get? e.1 = some e.2 := (d.get?_eq_some_iff_mem _ _).2 he
    rw [hn] at hs
    cases hs
  · intro hk
    cases hg : d.get? k with
    | none => rfl
    | some v =>
        exact absurd (List.mem_map_of_mem (f := Prod.fst) ((d.get?_eq_some_iff_mem k v).1 hg)) hk

theorem mem_values_of_get? {d : Dict κ ν} {k : κ} {v : ν} (h : d.get? k = some v) :
    v ∈ d.values :=
  List.mem_map_of_mem (f := Prod.snd) ((d.get?_eq_some_iff_mem k v).1 h)

theorem mem_values_iff (d : Dict κ ν) (v : ν) : v ∈ d.values ↔ ∃ k, d.get? k = some v := by
  constructor
  · intro hv
    obtain ⟨e, he, rfl⟩ := List.mem_map.1 hv
    exact ⟨e.1, (d.get?_eq_some_iff_mem _ _).2 he⟩
  · rintro ⟨k, hk⟩
    exact mem_values_of_get? hk

def contains (d : Dict κ ν) (k : κ) : Bool := (d.get? k).isSome

theorem contains_eq_false_iff (d : Dict κ ν) (k : κ) :
    d.contains k = false ↔ d.get? k = none := by
  simp [contains]

def assign : List (κ × ν) → κ → ν → List (κ × ν)
  | [], k, v => [(k, v)]
  | (k', v') :: rest, k, v => if k' = k then (k, v) :: rest else (k', v') :: assign rest k v

theorem map_fst_assign (l : List (κ × ν)) (k : κ) (v : ν) :
    (assign l k v).map Prod.fst =
      if k ∈ l.map Prod.fst then l.map Prod.fst else l.map Prod.fst ++ [k] := by
  induction l with
  | nil => simp [assign]
  | cons e l ih =>
      obtain ⟨k', v'⟩ := e
      by_cases hk : k' = k
      · simp [assign, hk]
      · have hk' : k ≠ k' := fun h => hk h.symm
        simp only [assign, hk, if_false, List.map_cons, ih, List.mem_cons, hk', false_or]
        split_ifs <;> simp

def set (d : Dict κ ν) (k : κ) (v : ν) : Dict κ ν :=
  ⟨assign d.entries k v, by
    rw [map_fst_assign]
    split_ifs with hk
    · exact d.nodup
    · exact List.nodup_append.2 ⟨d.nodup, by simp, by
        intro a ha b hb hab
        simp only [List.mem_singleton] at hb
        exact hk (by rw [← hb, ← hab]; exact ha)⟩⟩

theorem lookup_assign (l : List (κ × ν)) (k k' : κ) (v : ν) :
    (assign l k v).lookup k' = if k' = k then some v else l.lookup k' := by
  induction l with
  | nil =>
      by_cases h : k' = k
      · simp [assign, h]
      · have hbeq : (k' == k) = false := by simpa using h
        simp [assign, List.lookup_cons, hbeq, h]
  | cons e l ih =>
      obtain ⟨a, b⟩ := e
      by_cases ha : a = k
      · subst ha
        by_cases h : k' = a
        · simp [assign, h]
        · have hbeq : (k' == a) = false := by simpa using h
          simp [assign, List.lookup_cons, hbeq, h]
      · by_cases h : k' = a
        · subst h
          simp [assign, ha]
        · have hbeq : (k' == a) = false := by simpa using h
          simp only [assign, ha, if_false, List.lookup_cons, hbeq, ih]

theorem get?_set (d : Dict κ ν) (k k' : κ) (v : ν) :
    (d.set k v).get? k' = if k' = k then some v else d.get? k' := lookup_assign _ _ _ _

@[simp] theorem get?_set_self (d : Dict κ ν) (k : κ) (v : ν) : (d.set k v).get? k = some v := by
  rw [get?_set, if_pos rfl]

theorem get?_set_ne (d : Dict κ ν) {k k' : κ} (v : ν) (h : k' ≠ k) :
    (d.set k v).get? k' = d.get? k' := by
  rw [get?_set, if_neg h]

def setAll (d : Dict κ ν) (l : List (κ × ν)) : Dict κ ν :=
  l.foldl (fun d e => d.set e.1 e.2) d

@[simp] theorem setAll_nil (d : Dict κ ν) : d.setAll [] = d := rfl

@[simp] theorem setAll_cons (d : Dict κ ν) (e : κ × ν) (l : List (κ × ν)) :
    d.setAll (e :: l) = (d.set e.1 e.2).setAll l := rfl

theorem get?_setAll_cases (d : Dict κ ν) (l : List (κ × ν)) (k : κ) :
    (∃ v, (k, v) ∈ l ∧ (d.setAll l).get? k = some v) ∨
      (k ∉ l.map Prod.fst ∧ (d.setAll l).get? k = d.get? k) := by
  induction l generalizing d with
  | nil => exact Or.inr ⟨by simp, rfl⟩
  | cons e l ih =>
      rcases ih (d.set e.1 e.2) with ⟨v, hv, hg⟩ | ⟨hk, hg⟩
      · exact Or.inl ⟨v, List.mem_cons_of_mem _ hv, hg⟩
      · by_cases he : k = e.1
        · refine Or.inl ⟨e.2, ?_, ?_⟩
          · rw [he]; exact List.mem_cons_self
          · rw [setAll_cons, hg, he, get?_set_self]
        · refine Or.inr ⟨?_, ?_⟩
          · rw [List.map_cons, List.mem_cons, not_or]
            exact ⟨he, hk⟩
          · rw [setAll_cons, hg, get?_set_ne _ _ he]

theorem get?_setAll_of_nodup (d : Dict κ ν) {l : List (κ × ν)} (hl : (l.map Prod.fst).Nodup)
    {k : κ} {v : ν} (hmem : (k, v) ∈ l) : (d.setAll l).get? k = some v := by
  rcases get?_setAll_cases d l k with ⟨w, hw, hget⟩ | ⟨hnot, -⟩
  · have heq : (k, w) = (k, v) := List.inj_on_of_nodup_map hl hw hmem rfl
    rw [hget, (Prod.mk.inj heq).2]
  · exact absurd (List.mem_map_of_mem hmem) hnot

theorem get?_setAll_of_perm {d : Dict κ ν} {l : List (κ × ν)} (h : l.Perm d.entries) (k : κ) :
    (Dict.empty.setAll l).get? k = d.get? k := by
  have hl : (l.map Prod.fst).Nodup := (h.map Prod.fst).nodup_iff.2 d.nodup
  cases hd : d.get? k with
  | some v => exact get?_setAll_of_nodup _ hl (h.mem_iff.2 ((d.get?_eq_some_iff_mem k v).1 hd))
  | none =>
      rcases get?_setAll_cases .empty l k with ⟨v, hv, -⟩ | ⟨-, hget⟩
      · rw [(d.get?_eq_some_iff_mem k v).2 (h.mem_iff.1 hv)] at hd
        cases hd
      · exact hget

theorem values_setAll_ne_nil {d : Dict κ ν} (l : List (κ × ν)) (h : d.values ≠ []) :
    (d.setAll l).values ≠ [] := by
  obtain ⟨v, hv⟩ := List.exists_mem_of_ne_nil _ h
  obtain ⟨k, hget⟩ := (mem_values_iff d v).1 hv
  rcases get?_setAll_cases d l k with ⟨w, -, hnew⟩ | ⟨-, hold⟩
  · exact List.ne_nil_of_mem (mem_values_of_get? hnew)
  · exact List.ne_nil_of_mem (mem_values_of_get? (hold.trans hget))

def erase (d : Dict κ ν) (k : κ) : Dict κ ν := d.filter fun k' _ => k' ≠ k

theorem get?_filter (d : Dict κ ν) (p : κ → ν → Bool) (k : κ) :
    (d.filter p).get? k = (d.get? k).filter (p k) := by
  cases hg : (d.filter p).get? k with
  | none =>
      cases hd : d.get? k with
      | none => rfl
      | some v =>
          have hm := (d.get?_eq_some_iff_mem k v).1 hd
          by_cases hp : p k v = true
          · have hf : (k, v) ∈ (d.filter p).entries := List.mem_filter.2 ⟨hm, hp⟩
            rw [(get?_eq_some_iff_mem _ _ _).2 hf] at hg
            cases hg
          · simp [Option.filter, hp]
  | some v =>
      have hm := (get?_eq_some_iff_mem _ _ _).1 hg
      obtain ⟨hd, hp⟩ := List.mem_filter.1 hm
      rw [(d.get?_eq_some_iff_mem k v).2 hd]
      simpa [Option.filter] using hp

@[simp] theorem get?_erase_self (d : Dict κ ν) (k : κ) : (d.erase k).get? k = none := by
  rw [erase, get?_filter]
  cases d.get? k <;> simp [Option.filter]

theorem get?_erase_ne (d : Dict κ ν) {k k' : κ} (h : k' ≠ k) : (d.erase k).get? k' = d.get? k' := by
  rw [erase, get?_filter]
  cases d.get? k' <;> simp [Option.filter, h]

theorem length_erase (d : Dict κ ν) (k : κ) :
    (d.erase k).entries.length + (if d.contains k then 1 else 0) = d.entries.length := by
  have hsplit := List.length_eq_length_filter_add (l := d.entries) fun e => decide (e.1 = k)
  have hkept : (d.erase k).entries = d.entries.filter fun e => !decide (e.1 = k) :=
    List.filter_congr fun e _ => decide_not
  have hgone : (d.entries.filter fun e => decide (e.1 = k)).length =
      if d.contains k then 1 else 0 := by
    have hcount : (d.entries.filter fun e => decide (e.1 = k)).length =
        (d.entries.map Prod.fst).count k := by
      rw [List.count_eq_countP, List.countP_map, List.countP_eq_length_filter]
      exact congrArg List.length (List.filter_congr fun e _ => (beq_eq_decide e.1 k).symm)
    rw [hcount]
    split_ifs with h
    · refine List.count_eq_one_of_mem d.nodup (by_contra fun hk => ?_)
      rw [contains, (d.get?_eq_none_iff k).2 hk] at h
      cases h
    · refine List.count_eq_zero.2 ((d.get?_eq_none_iff k).1 ?_)
      rwa [Bool.not_eq_true, contains_eq_false_iff] at h
  rw [hkept]
  omega

theorem filter_eq_self_iff (d : Dict κ ν) (p : κ → ν → Bool) :
    d.filter p = d ↔ ∀ k v, d.get? k = some v → p k v = true := by
  constructor
  · intro h k v hv
    rw [← h, get?_filter] at hv
    exact (Option.filter_eq_some_iff.1 hv).2
  · intro h
    refine Dict.ext (List.filter_eq_self.2 fun e he => ?_)
    exact h e.1 e.2 ((d.get?_eq_some_iff_mem e.1 e.2).2 he)

theorem erase_eq_self_iff (d : Dict κ ν) (k : κ) : d.erase k = d ↔ d.get? k = none := by
  rw [erase, filter_eq_self_iff]
  constructor
  · intro h
    rw [get?_eq_none_iff]
    intro hk
    obtain ⟨e, he, rfl⟩ := List.mem_map.1 hk
    have hne := h e.1 e.2 ((d.get?_eq_some_iff_mem e.1 e.2).2 he)
    simp at hne
  · intro h k' v hv
    have hne : k' ≠ k := fun heq => by rw [heq, h] at hv; cases hv
    simpa using hne

theorem get?_filter_of_pos {p : κ → Bool} {k : κ} (h : p k = true) (d : Dict κ ν) :
    (d.filter fun k _ => p k).get? k = d.get? k := by
  rw [get?_filter]
  cases d.get? k with
  | none => rfl
  | some v => exact Option.filter_eq_some_iff.2 ⟨rfl, h⟩

section Part

variable (p : κ → Bool)

theorem filter_assign (l : List (κ × ν)) (k : κ) (v : ν) :
    (assign l k v).filter (fun e => p e.1) =
      if p k then assign (l.filter fun e => p e.1) k v else l.filter fun e => p e.1 := by
  induction l with
  | nil => cases h : p k <;> simp [assign, h]
  | cons e l ih =>
      obtain ⟨k', v'⟩ := e
      by_cases hk : k' = k
      · subst hk
        cases h : p k' <;> simp [assign, h]
      · cases h : p k' <;> cases h' : p k <;> simp_all [assign]

theorem filter_set (d : Dict κ ν) (k : κ) (v : ν) :
    (d.set k v).filter (fun k _ => p k) =
      if p k then (d.filter fun k _ => p k).set k v else d.filter fun k _ => p k := by
  refine Dict.ext ((filter_assign p d.entries k v).trans ?_)
  cases p k <;> rfl

end Part

omit [DecidableEq κ] in
theorem filter_comm (d : Dict κ ν) (p q : κ → ν → Bool) :
    (d.filter p).filter q = (d.filter q).filter p := by
  apply Dict.ext
  change (d.entries.filter _).filter _ = (d.entries.filter _).filter _
  rw [List.filter_filter, List.filter_filter]
  simp only [Bool.and_comm]

theorem filter_erase (d : Dict κ ν) (p : κ → ν → Bool) (k : κ) :
    (d.erase k).filter p = (d.filter p).erase k := filter_comm _ _ _

omit [DecidableEq κ] in
theorem filter_filter_of_imp (d : Dict κ ν) (p q : κ → ν → Bool)
    (h : ∀ k v, p k v = true → q k v = true) : (d.filter q).filter p = d.filter p := by
  apply Dict.ext
  change (d.entries.filter _).filter _ = d.entries.filter _
  rw [List.filter_filter]
  apply List.filter_congr
  intro e _
  cases hp : p e.1 e.2 with
  | true => rw [h _ _ hp, Bool.and_self]
  | false => rw [Bool.false_and]

omit [DecidableEq κ] in
theorem length_sub_length_filter_not (d : Dict κ ν) (p : κ → ν → Bool) :
    (d.entries.length : ℤ) - (d.filter fun k v => !p k v).entries.length =
      (d.filter p).entries.length := by
  have hsplit := List.length_eq_length_filter_add (l := d.entries) fun e => p e.1 e.2
  change (d.entries.length : ℤ) - (d.entries.filter fun e => !p e.1 e.2).length =
    (d.entries.filter fun e => p e.1 e.2).length
  omega

omit [DecidableEq κ] in
theorem length_filter_eq_zero_iff (d : Dict κ ν) (p : κ → ν → Bool) :
    (d.filter p).entries.length = 0 ↔ (d.filter fun k v => !p k v) = d := by
  rw [List.length_eq_zero_iff, Dict.ext_iff]
  change (d.entries.filter fun e => p e.1 e.2) = [] ↔
    (d.entries.filter fun e => !p e.1 e.2) = d.entries
  simp only [List.filter_eq_nil_iff, List.filter_eq_self, Bool.not_eq_true, Bool.not_eq_true']

omit [DecidableEq κ] in
theorem length_sub_length_filter (d : Dict κ ν) (p q : κ → ν → Bool)
    (h : ∀ k v, p k v = true → q k v = true) :
    ((d.filter q).entries.length : ℤ) -
        ((d.filter q).filter fun k v => !p k v).entries.length =
      (d.entries.length : ℤ) - (d.filter fun k v => !p k v).entries.length := by
  rw [length_sub_length_filter_not, length_sub_length_filter_not, filter_filter_of_imp d p q h]

end Dict
