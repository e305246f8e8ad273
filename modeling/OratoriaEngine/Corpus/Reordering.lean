import OratoriaEngine.Corpus.Conservation
import OratoriaEngine.Lib.KeyOrder
import OratoriaEngine.Lib.Shuffle

/-!
# The order in which annotations are listed

Sorting by start, end and class gives the same sequence of keys whatever the order was, and the
matching depends on the keys alone. What else an annotation carries, its role, follows the order
of the input among annotations of one key: the roles of the report are the same for every order
exactly when the matched pairs settle them.
-/

namespace OratoriaEngine.Corpus

open Alignment Shuffle

/-- Start, end and class, compared in this order. -/
def DisfluencyAnnotation.key (a : DisfluencyAnnotation) : ℤ ×ₗ ℤ ×ₗ String :=
  toLex (a.interval.startMs, toLex (a.interval.endMs, classLabel a))

theorem orderingLe_iff (a b : DisfluencyAnnotation) : a.orderingLe b ↔ a.key ≤ b.key := by
  simp only [ DisfluencyAnnotation.orderingLe, DisfluencyAnnotation.key, classLabel,
    Prod.Lex.toLex_le_toLex]

instance : Std.Total DisfluencyAnnotation.orderingLe :=
  ⟨fun a b => by rw [orderingLe_iff, orderingLe_iff]; exact le_total _ _⟩

instance : IsTrans DisfluencyAnnotation DisfluencyAnnotation.orderingLe :=
  ⟨fun a b c => by rw [orderingLe_iff, orderingLe_iff, orderingLe_iff]; exact le_trans⟩

theorem startMs_eq_of_key {a b : DisfluencyAnnotation} (h : a.key = b.key) :
    a.interval.startMs = b.interval.startMs := congrArg Prod.fst h

theorem endMs_eq_of_key {a b : DisfluencyAnnotation} (h : a.key = b.key) :
    a.interval.endMs = b.interval.endMs := congrArg (fun k => k.2.1) h

theorem classLabel_eq_of_key {a b : DisfluencyAnnotation} (h : a.key = b.key) :
    classLabel a = classLabel b := congrArg (fun k => k.2.2) h

theorem interval_eq_of_key {a b : DisfluencyAnnotation} (h : a.key = b.key) :
    a.interval = b.interval := by
  have hstart := startMs_eq_of_key h
  have hend := endMs_eq_of_key h
  cases ha : a.interval
  cases hb : b.interval
  simp_all

theorem pairwise_key_ordered (l : List DisfluencyAnnotation) :
    ((ordered l).map DisfluencyAnnotation.key).Pairwise (· ≤ ·) :=
  List.pairwise_map.2 (KeyOrder.pairwise_insertionSort orderingLe_iff l)

theorem map_key_ordered {l l' : List DisfluencyAnnotation} (h : l'.Perm l) :
    (ordered l').map DisfluencyAnnotation.key = (ordered l).map DisfluencyAnnotation.key :=
  KeyOrder.map_key_insertionSort orderingLe_iff h

theorem ordered_eq_self {l l' : List DisfluencyAnnotation}
    (h : l'.map DisfluencyAnnotation.key = (ordered l).map DisfluencyAnnotation.key) :
    ordered l' = l' := by
  apply List.Pairwise.insertionSort_eq
  have hsorted := pairwise_key_ordered l
  rw [← h, List.pairwise_map] at hsorted
  exact hsorted.imp fun hle => (orderingLe_iff _ _).2 hle

def keyAt (l : List DisfluencyAnnotation) (i : ℕ) : Option (ℤ ×ₗ ℤ ×ₗ String) :=
  l[i]?.map DisfluencyAnnotation.key

def roleAt (l : List DisfluencyAnnotation) (i : ℕ) : Option String :=
  l[i]?.map fun a => roleLabel a.contextRole

theorem keyAt_eq {l l' : List DisfluencyAnnotation}
    (h : l'.map DisfluencyAnnotation.key = l.map DisfluencyAnnotation.key) :
    keyAt l' = keyAt l := by
  funext i
  rw [keyAt, keyAt, ← List.getElem?_map, h, List.getElem?_map]

theorem map_range_eq (l : List DisfluencyAnnotation) :
    ((List.range l.length).map fun i => (keyAt l i, roleAt l i)) =
      l.map fun a => (some a.key, some (roleLabel a.contextRole)) := by
  apply List.ext_getElem?
  intro i
  rw [List.getElem?_map, List.getElem?_map]
  by_cases hi : i < l.length
  · rw [List.getElem?_range hi, List.getElem?_eq_getElem hi]
    simp [keyAt, roleAt, List.getElem?_eq_getElem hi]
  · rw [List.getElem?_eq_none (by simpa using hi), List.getElem?_eq_none (by simpa using hi)]
    rfl

theorem shuffled_of_perm {l l' : List DisfluencyAnnotation} (h : l'.Perm l) :
    Shuffled l.length (keyAt (ordered l)) (roleAt (ordered l)) (roleAt (ordered l')) := by
  have hlength : (ordered l').length = l.length := (length_ordered l').trans h.length_eq
  have hperm : (ordered l).Perm (ordered l') :=
    ((List.perm_insertionSort _ l).trans h.symm).trans (List.perm_insertionSort _ l').symm
  rw [Shuffled]
  have hleft := map_range_eq (ordered l)
  have hright := map_range_eq (ordered l')
  rw [length_ordered] at hleft
  rw [hlength, keyAt_eq (map_key_ordered h)] at hright
  rw [hleft, hright]
  exact hperm.map _

theorem exists_perm_of_shuffled {l : List DisfluencyAnnotation} {r : ℕ → Option String}
    (h : Shuffled l.length (keyAt (ordered l)) (roleAt (ordered l)) r) :
    ∃ l', l'.Perm l ∧ ∀ i < l.length, roleAt (ordered l') i = r i := by
  have hread := map_range_eq (ordered l)
  rw [length_ordered] at hread
  rw [Shuffled, hread] at h
  obtain ⟨l', hmap, hperm⟩ := exists_eq_map_of_perm h.symm
  have hlength : l'.length = l.length := hperm.length_eq.trans (length_ordered l)
  have hentry : ∀ i < l.length, (keyAt (ordered l) i, r i) = (keyAt l' i, roleAt l' i) := by
    intro i hi
    have hget := congrArg (fun m => m[i]?) hmap
    have hi' : i < l'.length := hlength ▸ hi
    simpa [hi, keyAt, roleAt, List.getElem?_eq_getElem hi'] using hget
  have hkeys : l'.map DisfluencyAnnotation.key = (ordered l).map DisfluencyAnnotation.key := by
    apply List.ext_getElem?
    intro i
    by_cases hi : i < l.length
    · rw [List.getElem?_map, List.getElem?_map]
      exact (congrArg Prod.fst (hentry i hi)).symm
    · rw [List.getElem?_eq_none (by simpa [hlength] using hi),
        List.getElem?_eq_none (by simpa [length_ordered] using hi)]
  refine ⟨l', hperm.trans (List.perm_insertionSort _ l), fun i hi => ?_⟩
  rw [ordered_eq_self hkeys]
  exact (congrArg Prod.snd (hentry i hi)).symm

section Keys

variable {β : Type} (ρ : Rounding ℚ) (rule : MatchRule)
  {left left' right right' : List DisfluencyAnnotation}

theorem map_ordered_eq {f : DisfluencyAnnotation → β}
    (hf : ∀ a b, a.key = b.key → f a = f b) (h : left'.Perm left) :
    (ordered left').map f = (ordered left).map f := by
  apply List.ext_getElem?
  intro i
  have hkey := congrArg (fun l => l[i]?) (map_key_ordered h)
  simp only [List.getElem?_map] at hkey ⊢
  cases h' : (ordered left')[i]? with
  | none => cases hi : (ordered left)[i]? <;> simp_all
  | some a =>
      cases hi : (ordered left)[i]? with
      | none => simp_all
      | some b =>
          rw [h', hi] at hkey
          exact congrArg some (hf a b (Option.some.inj hkey))

theorem bind_eq_of_map_eq {α γ : Type} {f : α → β} {g h : α → Option γ} {x y : Option α}
    (hmap : x.map f = y.map f) (hgh : ∀ a b, f a = f b → g a = h b) : x.bind g = y.bind h := by
  cases x with
  | none => cases y with
    | none => rfl
    | some b => cases hmap
  | some a => cases y with
    | none => cases hmap
    | some b => exact hgh a b (Option.some.inj hmap)

theorem orderedScores_reordered (hleft : left'.Perm left) (hright : right'.Perm right) :
    orderedScores ρ rule left' right' = orderedScores ρ rule left right := by
  funext i j
  have hi := congrArg (fun l => l[i]?) (map_ordered_eq (fun _ _ => interval_eq_of_key) hleft)
  have hj := congrArg (fun l => l[j]?) (map_ordered_eq (fun _ _ => interval_eq_of_key) hright)
  simp only [List.getElem?_map] at hi hj
  apply bind_eq_of_map_eq hi
  intro a a' ha
  apply bind_eq_of_map_eq hj
  intro b b' hb
  simp only [MatchRule.score, ha, hb]

theorem indices_reordered (hleft : left'.Perm left) (hright : right'.Perm right) :
    indices ρ rule left' right' = indices ρ rule left right := by
  rw [indices_eq, indices_eq, orderedScores_reordered ρ rule hleft hright, hleft.length_eq,
    hright.length_eq]

theorem pairs_map (f g : DisfluencyAnnotation → β) :
    (matchAnnotations ρ rule left right).pairs.map (fun p => (f p.left, g p.right)) =
      (indices ρ rule left right).filterMap fun p => do
        let a ← ((ordered left).map f)[p.1]?
        let b ← ((ordered right).map g)[p.2]?
        return (a, b) := by
  change ((indices ρ rule left right).filterMap _).map _ = _
  rw [List.map_filterMap]
  apply List.filterMap_congr
  intro p _
  simp only [List.getElem?_map]
  cases (ordered left)[p.1]? with
  | none => rfl
  | some a => cases (ordered right)[p.2]? <;> rfl

theorem pairs_map_reordered {f g : DisfluencyAnnotation → β}
    (hf : ∀ a b, a.key = b.key → f a = f b) (hg : ∀ a b, a.key = b.key → g a = g b)
    (hleft : left'.Perm left) (hright : right'.Perm right) :
    (matchAnnotations ρ rule left' right').pairs.map (fun p => (f p.left, g p.right)) =
      (matchAnnotations ρ rule left right).pairs.map fun p => (f p.left, g p.right) := by
  rw [pairs_map, pairs_map, indices_reordered ρ rule hleft hright, map_ordered_eq hf hleft,
    map_ordered_eq hg hright]

theorem filter_zipIdx_map {α β : Type} (f : α → β) (p : ℕ → Bool) (l : List α) :
    ((l.zipIdx.filter fun e => p e.2).map Prod.fst).map f =
      (((l.map f).zipIdx).filter fun e => p e.2).map Prod.fst := by
  rw [List.zipIdx_map, List.filter_map, List.map_map, List.map_map]
  rfl

theorem leftOnly_map_reordered {f : DisfluencyAnnotation → β}
    (hf : ∀ a b, a.key = b.key → f a = f b) (hleft : left'.Perm left) (hright : right'.Perm right) :
    (matchAnnotations ρ rule left' right').leftOnly.map f =
      (matchAnnotations ρ rule left right).leftOnly.map f := by
  change (((ordered left').zipIdx.filter fun e => e.2 ∉ (indices ρ rule left' right').map
    Prod.fst).map Prod.fst).map f = (((ordered left).zipIdx.filter fun e => e.2 ∉
      (indices ρ rule left right).map Prod.fst).map Prod.fst).map f
  rw [filter_zipIdx_map f fun i => i ∉ (indices ρ rule left' right').map Prod.fst,
    filter_zipIdx_map f fun i => i ∉ (indices ρ rule left right).map Prod.fst,
    indices_reordered ρ rule hleft hright, map_ordered_eq hf hleft]

theorem rightOnly_map_reordered {f : DisfluencyAnnotation → β}
    (hf : ∀ a b, a.key = b.key → f a = f b) (hleft : left'.Perm left) (hright : right'.Perm right) :
    (matchAnnotations ρ rule left' right').rightOnly.map f =
      (matchAnnotations ρ rule left right).rightOnly.map f := by
  change (((ordered right').zipIdx.filter fun e => e.2 ∉ (indices ρ rule left' right').map
    Prod.snd).map Prod.fst).map f = (((ordered right).zipIdx.filter fun e => e.2 ∉
      (indices ρ rule left right).map Prod.snd).map Prod.fst).map f
  rw [filter_zipIdx_map f fun i => i ∉ (indices ρ rule left' right').map Prod.snd,
    filter_zipIdx_map f fun i => i ∉ (indices ρ rule left right).map Prod.snd,
    indices_reordered ρ rule hleft hright, map_ordered_eq hf hright]

end Keys

end OratoriaEngine.Corpus
