import Mathlib.Data.List.MinMax
import OratoriaEngine.Lib.Spans

/-!
# Gaps between spans

A gap is a maximal interval that lies between two spans and that no span meets. In a list sorted
by first points the gaps that are long enough are found by comparing neighbours, exactly when no
earlier span outlasts the neighbour that such an interval starts from.
-/

namespace Gaps

open Spans

variable {α ι : Type*} [LinearOrder ι] (first last : α → ι) {a b : ι} {l : List α}

/-- The interval is not empty, and no span of the list meets it. -/
def Free (l : List α) (a b : ι) : Prop := a < b ∧ ∀ x ∈ l, ¬(first x < b ∧ a < last x)

/-- A free interval between two spans that no larger free interval contains. -/
structure IsGap (l : List α) (a b : ι) : Prop where
  free : Free first last l a b
  after : ∃ x ∈ l, last x ≤ a
  before : ∃ x ∈ l, b ≤ first x
  maximal : ∀ a' b', a' ≤ a → b ≤ b' → Free first last l a' b' → a' = a ∧ b' = b

/-- Wherever an interval of the wanted kind lies between two neighbours, no span before them
outlasts the first of the two. -/
def NoneOutlasts (R : ι → ι → Prop) (l : List α) : Prop :=
  ∀ before p f after, l = before ++ p :: f :: after → R (last p) (first f) →
    ∀ x ∈ before, last x ≤ last p

variable {first last}

theorem free_congr {k : List α} (h : ∀ x, x ∈ l ↔ x ∈ k) :
    Free first last l a b ↔ Free first last k a b := by
  simp only [Free, h]

theorem isGap_congr {k : List α} (h : ∀ x, x ∈ l ↔ x ∈ k) :
    IsGap first last l a b ↔ IsGap first last k a b := by
  constructor
  · rintro ⟨hfree, hafter, hbefore, hmaximal⟩
    simp only [free_congr h, h] at hfree hafter hbefore hmaximal
    exact ⟨hfree, hafter, hbefore, hmaximal⟩
  · rintro ⟨hfree, hafter, hbefore, hmaximal⟩
    simp only [← free_congr h, ← h] at hfree hafter hbefore hmaximal
    exact ⟨hfree, hafter, hbefore, hmaximal⟩

theorem Free.le_or_le (h : Free first last l a b) {x : α} (hx : x ∈ l) :
    last x ≤ a ∨ b ≤ first x := by
  by_contra hmeets
  push Not at hmeets
  exact h.2 x hx ⟨hmeets.2, hmeets.1⟩

theorem isGap_iff (hle : ∀ x ∈ l, first x ≤ last x) :
    IsGap first last l a b ↔
      Free first last l a b ∧ (∃ x ∈ l, last x = a) ∧ ∃ x ∈ l, first x = b := by
  constructor
  · rintro ⟨hfree, ⟨x, hx, hxa⟩, ⟨y, hy, hyb⟩, hmaximal⟩
    refine ⟨hfree, ?_, ?_⟩
    · cases hlatest : (l.filter fun z => last z ≤ a).argmax last with
      | none =>
          have hnot := List.filter_eq_nil_iff.1 (List.argmax_eq_none.1 hlatest) x hx
          exact absurd (decide_eq_true hxa) hnot
      | some z =>
          obtain ⟨hz, hza⟩ := List.mem_filter.1 (List.argmax_mem hlatest)
          have hza : last z ≤ a := of_decide_eq_true hza
          have hwider : Free first last l (last z) b := by
            refine ⟨hza.trans_lt hfree.1, fun w hw hmeets => ?_⟩
            rcases hfree.le_or_le hw with hwa | hwb
            · have hmem : w ∈ l.filter fun z => last z ≤ a :=
                List.mem_filter.2 ⟨hw, decide_eq_true hwa⟩
              exact absurd (List.le_of_mem_argmax hmem hlatest) (not_le.2 hmeets.2)
            · exact absurd hmeets.1 (not_lt.2 hwb)
          exact ⟨z, hz, (hmaximal _ _ hza le_rfl hwider).1⟩
    · cases hearliest : (l.filter fun z => b ≤ first z).argmin first with
      | none =>
          have hnot := List.filter_eq_nil_iff.1 (List.argmin_eq_none.1 hearliest) y hy
          exact absurd (decide_eq_true hyb) hnot
      | some z =>
          obtain ⟨hz, hzb⟩ := List.mem_filter.1 (List.argmin_mem hearliest)
          have hzb : b ≤ first z := of_decide_eq_true hzb
          have hwider : Free first last l a (first z) := by
            refine ⟨hfree.1.trans_le hzb, fun w hw hmeets => ?_⟩
            rcases hfree.le_or_le hw with hwa | hwb
            · exact absurd hmeets.2 (not_lt.2 hwa)
            · have hmem : w ∈ l.filter fun z => b ≤ first z :=
                List.mem_filter.2 ⟨hw, decide_eq_true hwb⟩
              exact absurd (List.le_of_mem_argmin hmem hearliest) (not_le.2 hmeets.1)
          exact ⟨z, hz, (hmaximal _ _ le_rfl hzb hwider).2⟩
  · rintro ⟨hfree, ⟨x, hx, rfl⟩, ⟨y, hy, rfl⟩⟩
    refine ⟨hfree, ⟨x, hx, le_rfl⟩, ⟨y, hy, le_rfl⟩, fun a' b' ha hb hwider => ⟨?_, ?_⟩⟩
    · rcases hwider.le_or_le hx with h | h
      · exact le_antisymm ha h
      · exact absurd ((hle x hx).trans_lt (hfree.1.trans_le hb)) (not_lt.2 h)
    · rcases hwider.le_or_le hy with h | h
      · exact absurd (ha.trans_lt (hfree.1.trans_le (hle y hy))) (not_lt.2 h)
      · exact le_antisymm h hb

/-- A gap is still one among more spans, if each of them starts when all the old ones are over. -/
theorem IsGap.mono {k : List α} (hle : ∀ x ∈ k, first x ≤ last x) (h : IsGap first last l a b)
    (hsub : l ⊆ k) (hlater : ∀ x ∈ k, x ∈ l ∨ ∀ y ∈ l, last y ≤ first x) :
    IsGap first last k a b := by
  obtain ⟨hfree, ⟨x, hx, rfl⟩, ⟨y, hy, rfl⟩⟩ := (isGap_iff fun x hx => hle x (hsub hx)).1 h
  refine (isGap_iff hle).2 ⟨⟨hfree.1, fun z hz hmeets => ?_⟩, ⟨x, hsub hx, rfl⟩, ⟨y, hsub hy, rfl⟩⟩
  rcases hlater z hz with hold | hlate
  · exact hfree.2 z hold hmeets
  · exact absurd hmeets.1 (not_lt.2 ((hle y (hsub hy)).trans (hlate y hy)))

theorem IsGap.eq_or_le (hle : ∀ x ∈ l, first x ≤ last x) {a' b' : ι}
    (h : IsGap first last l a b) (h' : IsGap first last l a' b') :
    (a = a' ∧ b = b') ∨ b ≤ a' ∨ b' ≤ a := by
  obtain ⟨hfree, ⟨x, hx, rfl⟩, ⟨y, hy, rfl⟩⟩ := (isGap_iff hle).1 h
  obtain ⟨hfree', ⟨x', hx', rfl⟩, ⟨y', hy', rfl⟩⟩ := (isGap_iff hle).1 h'
  rcases hfree.le_or_le hx' with hx'a | hbx'
  · rcases hfree'.le_or_le hx with hxa' | hb'x
    · rcases hfree.le_or_le hy' with hy'a | hby'
      · exact absurd ((hle y' hy').trans hy'a) (not_le.2 (hxa'.trans_lt hfree'.1))
      · rcases hfree'.le_or_le hy with hya' | hb'y
        · exact absurd ((hle y hy).trans hya') (not_le.2 (hx'a.trans_lt hfree.1))
        · exact Or.inl ⟨le_antisymm hxa' hx'a, le_antisymm hby' hb'y⟩
    · exact Or.inr (Or.inr (hb'x.trans (hle x hx)))
  · exact Or.inr (Or.inl (hbx'.trans (hle x' hx')))

theorem mem_neighbours_iff {p : α × α} :
    p ∈ neighbours l ↔ ∃ before after, l = before ++ p.1 :: p.2 :: after := by
  induction l with
  | nil => simp [neighbours]
  | cons x l ih =>
      cases l with
      | nil => simp [neighbours, List.cons_eq_append_iff]
      | cons y l =>
          have hcons : p ∈ neighbours (x :: y :: l) ↔ p = (x, y) ∨ p ∈ neighbours (y :: l) := by
            simp [neighbours]
          rw [hcons, ih]
          constructor
          · rintro (rfl | ⟨before, after, heq⟩)
            · exact ⟨[], l, rfl⟩
            · exact ⟨x :: before, after, by rw [heq, List.cons_append]⟩
          · rintro ⟨before, after, heq⟩
            cases before with
            | nil =>
                simp only [List.nil_append, List.cons.injEq] at heq
                exact Or.inl (Prod.ext heq.1.symm heq.2.1.symm)
            | cons z before =>
                rw [List.cons_append, List.cons.injEq] at heq
                exact Or.inr ⟨before, after, heq.2⟩

section Sorted

variable {R : ι → ι → Prop} (hR : ∀ a b, R a b → a < b)
  (hmono : ∀ a a' b, a' ≤ a → R a b → R a' b) (hle : ∀ x ∈ l, first x ≤ last x)
  (hsorted : l.Pairwise fun x y => first x ≤ first y)

include hR hle hsorted in
/-- Between two neighbours that are far enough apart lies a gap, if nothing outlasts the first. -/
theorem isGap_of_neighbours {before after : List α} {p f : α}
    (heq : l = before ++ p :: f :: after) (hfar : R (last p) (first f))
    (hnone : ∀ x ∈ before, last x ≤ last p) : IsGap first last l (last p) (first f) := by
  refine (isGap_iff hle).2 ⟨⟨hR _ _ hfar, fun x hx hmeets => ?_⟩, ⟨p, by simp [heq], rfl⟩,
    ⟨f, by simp [heq], rfl⟩⟩
  rw [heq] at hx hsorted
  obtain ⟨-, htail, -⟩ := List.pairwise_append.1 hsorted
  have hnext := (List.pairwise_cons.1 (List.pairwise_cons.1 htail).2).1
  rcases List.mem_append.1 hx with hx | hx
  · exact absurd hmeets.2 (not_lt.2 (hnone x hx))
  · rcases List.mem_cons.1 hx with rfl | hx
    · exact lt_irrefl _ hmeets.2
    · rcases List.mem_cons.1 hx with rfl | hx
      · exact lt_irrefl _ hmeets.1
      · exact absurd hmeets.1 (not_lt.2 (hnext x hx))

include hsorted in
theorem exists_split (b : ι) : ∃ early late, l = early ++ late ∧
    (∀ x ∈ early, first x < b) ∧ ∀ x ∈ late, b ≤ first x := by
  induction l with
  | nil => exact ⟨[], [], rfl, by simp, by simp⟩
  | cons x l ih =>
      obtain ⟨hx, hl⟩ := List.pairwise_cons.1 hsorted
      by_cases hearly : first x < b
      · obtain ⟨early, late, rfl, hbefore, hafter⟩ := ih hl
        exact ⟨x :: early, late, rfl, List.forall_mem_cons.2 ⟨hearly, hbefore⟩, hafter⟩
      · have hxb := not_lt.1 hearly
        exact ⟨[], x :: l, rfl, by simp,
          List.forall_mem_cons.2 ⟨hxb, fun y hy => hxb.trans (hx y hy)⟩⟩

include hmono hle hsorted in
theorem exists_neighbours_of_isGap (hnone : NoneOutlasts first last R l)
    (hgap : IsGap first last l a b) (hfar : R a b) :
    ∃ before p f after, l = before ++ p :: f :: after ∧ last p = a ∧ first f = b := by
  obtain ⟨hfree, ⟨x, hx, hxa⟩, ⟨y, hy, hyb⟩⟩ := (isGap_iff hle).1 hgap
  obtain ⟨early, late, heq, hearly, hlate⟩ := exists_split hsorted b
  have hends : ∀ z ∈ early, last z ≤ a := by
    intro z hz
    have hmem : z ∈ l := by rw [heq]; exact List.mem_append_left _ hz
    exact (hfree.le_or_le hmem).resolve_right (not_le.2 (hearly z hz))
  have hxearly : x ∈ early := by
    rw [heq] at hx
    apply (List.mem_append.1 hx).resolve_right
    intro hxlate
    have hstart := hle x (by rw [heq]; exact List.mem_append_right _ hxlate)
    rw [hxa] at hstart
    exact absurd ((hlate x hxlate).trans hstart) (not_le.2 hfree.1)
  have hylate : y ∈ late := by
    rw [heq] at hy
    apply (List.mem_append.1 hy).resolve_left
    intro hyearly
    exact absurd (hearly y hyearly) (by rw [hyb]; exact lt_irrefl b)
  obtain ⟨f, after, rfl⟩ := List.exists_cons_of_ne_nil (List.ne_nil_of_mem hylate)
  obtain ⟨before, p, rfl⟩ : ∃ before p, early = before ++ [p] := by
    rcases List.eq_nil_or_concat early with hnil | ⟨before, p, hconcat⟩
    · rw [hnil] at hxearly
      cases hxearly
    · exact ⟨before, p, by rw [hconcat, List.concat_eq_append]⟩
  have hsplit : l = before ++ p :: f :: after := by rw [heq]; simp
  have hf : first f = b := by
    apply le_antisymm _ (hlate f List.mem_cons_self)
    rw [heq] at hsorted
    have hfirst := (List.pairwise_cons.1 (List.pairwise_append.1 hsorted).2.1).1
    rcases List.mem_cons.1 hylate with rfl | hmem
    · exact hyb.le
    · rw [← hyb]
      exact hfirst y hmem
  have hp : last p ≤ a := hends p (by simp)
  refine ⟨before, p, f, after, hsplit, le_antisymm hp ?_, hf⟩
  have hmost := hnone before p f after hsplit (hf.symm ▸ hmono _ _ _ hp hfar)
  rw [← hxa]
  rcases List.mem_append.1 hxearly with hmem | hmem
  · exact hmost x hmem
  · rw [List.mem_singleton.1 hmem]

include hR hmono hle hsorted in
/-- Comparing neighbours finds the gaps that are long enough, and only those, exactly when no
earlier span outlasts a neighbour. -/
theorem neighbours_iff_isGap :
    (∀ a b, (∃ p ∈ neighbours l, R (last p.1) (first p.2) ∧ last p.1 = a ∧ first p.2 = b) ↔
      IsGap first last l a b ∧ R a b) ↔ NoneOutlasts first last R l := by
  constructor
  · intro h before p f after heq hfar x hx
    have hgap := ((h (last p) (first f)).1
      ⟨(p, f), mem_neighbours_iff.2 ⟨before, after, heq⟩, hfar, rfl, rfl⟩).1
    have hmem : x ∈ l := by rw [heq]; exact List.mem_append_left _ hx
    apply (hgap.free.le_or_le hmem).resolve_right
    rw [heq] at hsorted
    have hxp := (List.pairwise_append.1 hsorted).2.2 x hx p List.mem_cons_self
    exact not_le.2 (hxp.trans_lt ((hle p (by simp [heq])).trans_lt (hR _ _ hfar)))
  · intro hnone a b
    constructor
    · rintro ⟨p, hp, hfar, rfl, rfl⟩
      obtain ⟨before, after, heq⟩ := mem_neighbours_iff.1 hp
      exact ⟨isGap_of_neighbours hR hle hsorted heq hfar (hnone _ _ _ _ heq hfar), hfar⟩
    · rintro ⟨hgap, hfar⟩
      obtain ⟨before, p, f, after, heq, rfl, rfl⟩ :=
        exists_neighbours_of_isGap hmono hle hsorted hnone hgap hfar
      exact ⟨(p, f), mem_neighbours_iff.2 ⟨before, after, heq⟩, hfar, rfl, rfl⟩

include hR hle hsorted in
theorem pairwise_neighbours [∀ a b, Decidable (R a b)] :
    ((neighbours l).filter fun p => R (last p.1) (first p.2)).Pairwise
      fun p q => first p.2 < first q.2 := by
  induction l with
  | nil => exact List.Pairwise.nil
  | cons x l ih =>
      cases l with
      | nil => exact List.Pairwise.nil
      | cons y l =>
          have hcons : neighbours (x :: y :: l) = (x, y) :: neighbours (y :: l) := by
            simp [neighbours]
          obtain ⟨-, hsorted⟩ := List.pairwise_cons.1 hsorted
          have hrest := ih (fun z hz => hle z (List.mem_cons_of_mem x hz)) hsorted
          rw [hcons, List.filter_cons]
          split_ifs
          · refine List.pairwise_cons.2 ⟨fun q hq => ?_, hrest⟩
            obtain ⟨hmem, hfar⟩ := List.mem_filter.1 hq
            obtain ⟨before, after, heq⟩ := mem_neighbours_iff.1 hmem
            have hq : q.1 ∈ y :: l := by simp [heq]
            have hyq : first y ≤ first q.1 := by
              rcases List.mem_cons.1 hq with h | h
              · rw [h]
              · exact (List.pairwise_cons.1 hsorted).1 _ h
            exact hyq.trans_lt ((hle _ (List.mem_cons_of_mem x hq)).trans_lt
              (hR _ _ (of_decide_eq_true hfar)))
          · exact hrest

theorem noneOutlasts_of_isChain (hle : ∀ x ∈ l, first x ≤ last x)
    (hchain : l.Pairwise fun x y => last x ≤ first y) : NoneOutlasts first last R l := by
  intro before p f after heq _ x hx
  rw [heq] at hchain
  have hxp := (List.pairwise_append.1 hchain).2.2 x hx p List.mem_cons_self
  exact hxp.trans (hle p (by simp [heq]))

end Sorted

end Gaps
