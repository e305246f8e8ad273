import Mathlib.Algebra.BigOperators.Field
import Mathlib.Algebra.BigOperators.Group.Finset.Basic
import Mathlib.Algebra.BigOperators.Ring.Finset
import Mathlib.Algebra.Order.BigOperators.Group.Finset
import Mathlib.Tactic.FieldSimp
import Mathlib.Tactic.Linarith
import OratoriaEngine.Corpus.Measures

/-!
# The coefficients by their definitions

Kappa sets the agreement observed in a list of label pairs against the one expected from the two
marginals; nominal alpha sets the disagreement in the coincidence matrix, to which a pair
contributes in both directions, against the one expected from its marginal. The functions over
the confusion matrix of the list compute them.
-/

namespace OratoriaEngine.Corpus

theorem mem_sortedSet {labels : List String} {label : String} :
    label ∈ sortedSet labels ↔ label ∈ labels := by
  rw [sortedSet, List.mem_insertionSort, List.mem_dedup]

theorem nodup_sortedSet (labels : List String) : (sortedSet labels).Nodup :=
  (List.perm_insertionSort _ _).nodup_iff.2 (List.nodup_dedup labels)

theorem toFinset_sortedSet (labels : List String) :
    (sortedSet labels).toFinset = labels.toFinset := by
  ext label
  rw [List.mem_toFinset, List.mem_toFinset, mem_sortedSet]

namespace Reference

variable (pairs : List (String × String))

def labels : Finset String := (pairs.flatMap fun p => [p.1, p.2]).toFinset

def leftCount (label : String) : ℕ := pairs.countP fun p => p.1 = label

def rightCount (label : String) : ℕ := pairs.countP fun p => p.2 = label

def agreeing : ℕ := pairs.countP fun p => p.1 = p.2

def observed : ℚ := agreeing pairs / pairs.length

/-- The proportion expected to agree by chance, from the two marginals. -/
def chance : ℚ :=
  ∑ label ∈ labels pairs,
    (leftCount pairs label : ℚ) / pairs.length * ((rightCount pairs label : ℚ) / pairs.length)

def kappa : ℚ := (observed pairs - chance pairs) / (1 - chance pairs)

def coincidence (p : String × String) : ℕ :=
  (pairs.countP fun q => q = p) + pairs.countP fun q => q.swap = p

def given (label : String) : ℕ := leftCount pairs label + rightCount pairs label

def judgements : ℕ := 2 * pairs.length

def observedDisagreement : ℚ :=
  (∑ p ∈ (labels pairs).offDiag, (coincidence pairs p : ℚ)) / judgements pairs

def expectedDisagreement : ℚ :=
  (∑ p ∈ (labels pairs).offDiag, (given pairs p.1 : ℚ) * given pairs p.2) /
    (judgements pairs * (judgements pairs - 1))

def alpha : ℚ := 1 - observedDisagreement pairs / expectedDisagreement pairs

def SingleLabel : Prop := ∃ label, ∀ p ∈ pairs, p.1 = label ∧ p.2 = label

def Undefined : Prop := pairs.length < 2 ∨ SingleLabel pairs

variable {pairs}

theorem mem_labels {label : String} :
    label ∈ labels pairs ↔ ∃ p ∈ pairs, p.1 = label ∨ p.2 = label := by
  simp [labels, eq_comm]

theorem sum_countP_eq {α β : Type*} [DecidableEq β] (s : Finset β) (f : α → β) (l : List α) :
    ∑ b ∈ s, l.countP (fun a => f a = b) = l.countP fun a => f a ∈ s := by
  induction l with
  | nil => simp
  | cons a l ih =>
      simp only [List.countP_cons, Finset.sum_add_distrib, ih, decide_eq_true_eq,
        Finset.sum_ite_eq]

theorem sum_leftCount : ∑ label ∈ labels pairs, leftCount pairs label = pairs.length := by
  simp only [leftCount]
  rw [sum_countP_eq, List.countP_eq_length]
  intro p hp
  simpa using mem_labels.2 ⟨p, hp, Or.inl rfl⟩

theorem leftCount_le (label : String) : leftCount pairs label ≤ pairs.length :=
  List.countP_le_length

theorem rightCount_le (label : String) : rightCount pairs label ≤ pairs.length :=
  List.countP_le_length

theorem singleLabel_iff :
    SingleLabel pairs ↔
      ∃ label, leftCount pairs label = pairs.length ∧ rightCount pairs label = pairs.length := by
  simp only [SingleLabel, leftCount, rightCount, List.countP_eq_length, decide_eq_true_eq]
  constructor
  · rintro ⟨label, h⟩
    exact ⟨label, fun p hp => (h p hp).1, fun p hp => (h p hp).2⟩
  · rintro ⟨label, hleft, hright⟩
    exact ⟨label, fun p hp => ⟨hleft p hp, hright p hp⟩⟩

theorem rightCount_eq_zero {label other : String} (h : rightCount pairs label = pairs.length)
    (hne : other ≠ label) : rightCount pairs other = 0 := by
  rw [rightCount, List.countP_eq_length] at h
  rw [rightCount, List.countP_eq_zero]
  intro p hp
  have hlabel := h p hp
  simp only [decide_eq_true_eq] at hlabel ⊢
  exact fun heq => hne (heq.symm.trans hlabel)

/-- Where several labels occur, chance agreement falls short of every pair by one in each. -/
theorem sum_mul_add_le (h : ¬SingleLabel pairs) :
    ∑ label ∈ labels pairs, leftCount pairs label * rightCount pairs label + pairs.length ≤
      pairs.length * pairs.length := by
  rw [singleLabel_iff, not_exists] at h
  by_cases hall : ∃ label, rightCount pairs label = pairs.length
  · obtain ⟨label, hright⟩ := hall
    have hleft : leftCount pairs label < pairs.length :=
      lt_of_le_of_ne (leftCount_le label) fun heq => h label ⟨heq, hright⟩
    have hsum : ∑ other ∈ labels pairs, leftCount pairs other * rightCount pairs other ≤
        leftCount pairs label * pairs.length := by
      calc
        _ ≤ ∑ other ∈ labels pairs,
            if other = label then leftCount pairs label * pairs.length else 0 := by
          apply Finset.sum_le_sum
          intro other _
          split_ifs with heq
          · rw [heq, hright]
          · rw [rightCount_eq_zero hright heq, Nat.mul_zero]
        _ ≤ _ := by
          rw [Finset.sum_ite_eq']
          split_ifs
          · exact le_rfl
          · exact Nat.zero_le _
    calc
      _ ≤ leftCount pairs label * pairs.length + pairs.length := Nat.add_le_add_right hsum _
      _ = (leftCount pairs label + 1) * pairs.length := by rw [Nat.succ_mul]
      _ ≤ pairs.length * pairs.length := Nat.mul_le_mul_right _ hleft
  · have hshort : ∀ label, rightCount pairs label + 1 ≤ pairs.length := fun label =>
      lt_of_le_of_ne (rightCount_le label) fun heq => hall ⟨label, heq⟩
    calc
      _ = ∑ label ∈ labels pairs, leftCount pairs label * (rightCount pairs label + 1) := by
        simp only [Nat.mul_add, Nat.mul_one, Finset.sum_add_distrib, sum_leftCount]
      _ ≤ ∑ label ∈ labels pairs, leftCount pairs label * pairs.length :=
        Finset.sum_le_sum fun label _ => Nat.mul_le_mul_left _ (hshort label)
      _ = pairs.length * pairs.length := by rw [← Finset.sum_mul, sum_leftCount]

theorem chance_eq :
    chance pairs =
      ((∑ label ∈ labels pairs, leftCount pairs label * rightCount pairs label : ℕ) : ℚ) /
        (pairs.length * pairs.length) := by
  rw [chance, Nat.cast_sum, Finset.sum_div]
  apply Finset.sum_congr rfl
  intro label _
  rw [Nat.cast_mul, div_mul_div_comm]

theorem chance_nonneg : 0 ≤ chance pairs := by
  rw [chance_eq]
  exact div_nonneg (Nat.cast_nonneg _) (mul_self_nonneg _)

theorem observed_le_one : observed pairs ≤ 1 := by
  apply div_le_one_of_le₀
  · exact Nat.cast_le.2 List.countP_le_length
  · exact Nat.cast_nonneg _

theorem observed_eq_one_iff (h : pairs ≠ []) : observed pairs = 1 ↔ ∀ p ∈ pairs, p.1 = p.2 := by
  have hlength : (pairs.length : ℚ) ≠ 0 :=
    Nat.cast_ne_zero.2 fun h0 => h (List.length_eq_zero_iff.1 h0)
  rw [observed, div_eq_one_iff_eq hlength, Nat.cast_inj, agreeing, List.countP_eq_length]
  simp only [decide_eq_true_eq]

/-- Where several labels occur, chance agreement is less than one by a whole pair. -/
theorem chance_add_le (h : ¬SingleLabel pairs) (hne : pairs ≠ []) :
    chance pairs + 1 / pairs.length ≤ 1 := by
  have hlength : (0 : ℚ) < pairs.length := Nat.cast_pos.2 (List.length_pos_of_ne_nil hne)
  have hsum : ((∑ label ∈ labels pairs, leftCount pairs label * rightCount pairs label : ℕ) : ℚ) +
      pairs.length ≤ pairs.length * pairs.length := by
    exact_mod_cast sum_mul_add_le h
  have hjoined : chance pairs + 1 / pairs.length =
      (((∑ label ∈ labels pairs, leftCount pairs label * rightCount pairs label : ℕ) : ℚ) +
        pairs.length) / (pairs.length * pairs.length) := by
    rw [chance_eq, add_div, div_mul_cancel_left₀ hlength.ne', one_div]
  rw [hjoined]
  exact div_le_one_of_le₀ hsum (mul_self_nonneg _)

theorem chance_lt_one (h : ¬Undefined pairs) : chance pairs < 1 := by
  have hlength : 2 ≤ pairs.length := not_lt.1 fun hlt => h (Or.inl hlt)
  have hne : pairs ≠ [] := List.ne_nil_of_length_pos (by omega)
  have hgap := chance_add_le (fun hsingle => h (Or.inr hsingle)) hne
  have hpos : (0 : ℚ) < 1 / pairs.length :=
    one_div_pos.2 (Nat.cast_pos.2 (List.length_pos_of_ne_nil hne))
  linarith

theorem chance_eq_one (h : SingleLabel pairs) (hne : pairs ≠ []) : chance pairs = 1 := by
  obtain ⟨label, hleft, hright⟩ := singleLabel_iff.1 h
  have hlength : (pairs.length : ℚ) ≠ 0 :=
    Nat.cast_ne_zero.2 fun h0 => hne (List.length_eq_zero_iff.1 h0)
  have hmem : label ∈ labels pairs := by
    obtain ⟨p, hp⟩ := List.exists_mem_of_ne_nil pairs hne
    rw [leftCount, List.countP_eq_length] at hleft
    exact mem_labels.2 ⟨p, hp, Or.inl (by simpa using hleft p hp)⟩
  have hsum : ∑ other ∈ labels pairs, leftCount pairs other * rightCount pairs other =
      pairs.length * pairs.length := by
    rw [Finset.sum_eq_single_of_mem label hmem, hleft, hright]
    intro other _ hother
    rw [rightCount_eq_zero hright hother, Nat.mul_zero]
  rw [chance_eq, hsum, Nat.cast_mul, div_self (mul_ne_zero hlength hlength)]

theorem kappa_le_one (h : ¬Undefined pairs) : kappa pairs ≤ 1 := by
  apply div_le_one_of_le₀
  · have hobserved : observed pairs ≤ 1 := observed_le_one
    linarith
  · have hchance := chance_lt_one h
    linarith

theorem kappa_eq_one_iff (h : ¬Undefined pairs) : kappa pairs = 1 ↔ ∀ p ∈ pairs, p.1 = p.2 := by
  have hlength : 2 ≤ pairs.length := not_lt.1 fun hlt => h (Or.inl hlt)
  have hchance := chance_lt_one h
  have hdenominator : 1 - chance pairs ≠ 0 := by linarith
  rw [← observed_eq_one_iff (List.ne_nil_of_length_pos (by omega)), kappa,
    div_eq_one_iff_eq hdenominator, sub_left_inj]

theorem two_le_judgements (h : ¬Undefined pairs) : 4 ≤ judgements pairs := by
  have hlength : 2 ≤ pairs.length := not_lt.1 fun hlt => h (Or.inl hlt)
  rw [judgements]
  omega

theorem sum_coincidence :
    ∑ p ∈ (labels pairs).offDiag, coincidence pairs p =
      2 * pairs.countP fun q => q.1 ≠ q.2 := by
  have hmem : ∀ q ∈ pairs, q ∈ (labels pairs).offDiag ↔ q.1 ≠ q.2 := by
    intro q hq
    rw [Finset.mem_offDiag]
    exact ⟨fun h => h.2.2, fun h =>
      ⟨mem_labels.2 ⟨q, hq, Or.inl rfl⟩, mem_labels.2 ⟨q, hq, Or.inr rfl⟩, h⟩⟩
  have hmem' : ∀ q ∈ pairs, q.swap ∈ (labels pairs).offDiag ↔ q.1 ≠ q.2 := by
    intro q hq
    rw [← hmem q hq, Finset.mem_offDiag, Finset.mem_offDiag]
    exact ⟨fun h => ⟨h.2.1, h.1, h.2.2.symm⟩, fun h => ⟨h.2.1, h.1, h.2.2.symm⟩⟩
  have hforward : (pairs.countP fun q => q ∈ (labels pairs).offDiag) =
      pairs.countP fun q => q.1 ≠ q.2 :=
    List.countP_congr fun q hq => by simpa using hmem q hq
  have hbackward : (pairs.countP fun q => q.swap ∈ (labels pairs).offDiag) =
      pairs.countP fun q => q.1 ≠ q.2 :=
    List.countP_congr fun q hq => by simpa using hmem' q hq
  simp only [coincidence]
  rw [Finset.sum_add_distrib, sum_countP_eq _ (fun q => q), sum_countP_eq, hforward, hbackward,
    two_mul]

theorem given_pos {label : String} (h : label ∈ labels pairs) : 0 < given pairs label := by
  obtain ⟨p, hp, hlabel⟩ := mem_labels.1 h
  rw [given, leftCount, rightCount]
  rcases hlabel with hleft | hright
  · exact Nat.add_pos_left (List.countP_pos_iff.2 ⟨p, hp, by simpa using hleft⟩) _
  · exact Nat.add_pos_right _ (List.countP_pos_iff.2 ⟨p, hp, by simpa using hright⟩)

theorem sum_given_eq_zero_iff (hne : pairs ≠ []) :
    ∑ p ∈ (labels pairs).offDiag, given pairs p.1 * given pairs p.2 = 0 ↔ SingleLabel pairs := by
  rw [Finset.sum_eq_zero_iff]
  constructor
  · intro h
    obtain ⟨p₀, hp₀⟩ := List.exists_mem_of_ne_nil pairs hne
    have hfirst : p₀.1 ∈ labels pairs := mem_labels.2 ⟨p₀, hp₀, Or.inl rfl⟩
    have hsame : ∀ label ∈ labels pairs, label = p₀.1 := by
      intro label hlabel
      by_contra hother
      have hzero := h (label, p₀.1) (Finset.mem_offDiag.2 ⟨hlabel, hfirst, hother⟩)
      exact (Nat.mul_pos (given_pos hlabel) (given_pos hfirst)).ne' hzero
    exact ⟨p₀.1, fun p hp => ⟨hsame _ (mem_labels.2 ⟨p, hp, Or.inl rfl⟩),
      hsame _ (mem_labels.2 ⟨p, hp, Or.inr rfl⟩)⟩⟩
  · rintro ⟨label, hall⟩ p hp
    obtain ⟨hleft, hright, hother⟩ := Finset.mem_offDiag.1 hp
    have hsame : ∀ other ∈ labels pairs, other = label := by
      intro other hmem
      obtain ⟨q, hq, hlabel⟩ := mem_labels.1 hmem
      rcases hlabel with rfl | rfl
      · exact (hall q hq).1
      · exact (hall q hq).2
    exact absurd ((hsame _ hleft).trans (hsame _ hright).symm) hother

theorem expectedDisagreement_pos (h : ¬Undefined pairs) : 0 < expectedDisagreement pairs := by
  have hlength : 2 ≤ pairs.length := not_lt.1 fun hlt => h (Or.inl hlt)
  have hne : pairs ≠ [] := List.ne_nil_of_length_pos (by omega)
  have hsum : 0 < ∑ p ∈ (labels pairs).offDiag, given pairs p.1 * given pairs p.2 :=
    Nat.pos_of_ne_zero fun h0 => h (Or.inr ((sum_given_eq_zero_iff hne).1 h0))
  have hfour : (4 : ℚ) ≤ judgements pairs := by exact_mod_cast two_le_judgements h
  apply div_pos
  · exact_mod_cast hsum
  · apply mul_pos <;> linarith

theorem observedDisagreement_nonneg : 0 ≤ observedDisagreement pairs := by
  apply div_nonneg
  · exact_mod_cast Nat.zero_le _
  · exact Nat.cast_nonneg _

theorem observedDisagreement_eq_zero_iff (h : ¬Undefined pairs) :
    observedDisagreement pairs = 0 ↔ ∀ p ∈ pairs, p.1 = p.2 := by
  have hfour : (4 : ℚ) ≤ judgements pairs := by exact_mod_cast two_le_judgements h
  have hjudgements : (judgements pairs : ℚ) ≠ 0 := by linarith
  rw [observedDisagreement, div_eq_zero_iff, or_iff_left hjudgements, ← Nat.cast_sum,
    Nat.cast_eq_zero, sum_coincidence]
  simp only [mul_eq_zero, OfNat.ofNat_ne_zero, false_or, List.countP_eq_zero, decide_eq_true_eq,
    not_not]

theorem alpha_le_one (h : ¬Undefined pairs) : alpha pairs ≤ 1 := by
  have hnonneg : 0 ≤ observedDisagreement pairs / expectedDisagreement pairs :=
    div_nonneg observedDisagreement_nonneg (expectedDisagreement_pos h).le
  rw [alpha]
  linarith

theorem alpha_eq_one_iff (h : ¬Undefined pairs) : alpha pairs = 1 ↔ ∀ p ∈ pairs, p.1 = p.2 := by
  rw [← observedDisagreement_eq_zero_iff h, alpha, sub_eq_self, div_eq_zero_iff,
    or_iff_left (expectedDisagreement_pos h).ne']

end Reference

section Code

variable (pairs : List (String × String))

theorem total_confusion : (confusion pairs).total = pairs.length := Dict.sum_values_tally pairs

theorem sum_labels {α : Type*} [AddCommMonoid α] (f : String → α) :
    ((confusion pairs).labels.map f).sum = ∑ label ∈ Reference.labels pairs, f label := by
  have hnodup : (confusion pairs).labels.Nodup := nodup_sortedSet _
  have hset : (confusion pairs).labels.toFinset = Reference.labels pairs := toFinset_sortedSet _
  rw [← List.sum_toFinset f hnodup, hset]

theorem quotient_of_ne_zero {a b : ℚ} (h : b ≠ 0) : quotient .exact a b = .ok (a / b) := if_neg h

theorem observedAgreement_confusion (h : pairs ≠ []) :
    (confusion pairs).observedAgreement .exact = .ok (Reference.observed pairs) := by
  have hlength : pairs.length ≠ 0 := fun h0 => h (List.length_eq_zero_iff.1 h0)
  rw [ConfusionMatrix.observedAgreement, total_confusion, if_pos hlength,
    quotient_of_ne_zero (Nat.cast_ne_zero.2 hlength), ConfusionMatrix.agreements, confusion,
    Dict.sumWhere_tally]
  rfl

theorem foldlM_addChance {m : ConfusionMatrix} (h : m.total ≠ 0) (labels : List String)
    (expected : ℚ) :
    labels.foldlM (addChance .exact m) expected = .ok (expected + (labels.map fun label =>
      ((m.counts.sumWhere fun p => p.1 = label : ℕ) : ℚ) / m.total *
        (((m.counts.sumWhere fun p => p.2 = label : ℕ) : ℚ) / m.total)).sum) := by
  induction labels generalizing expected with
  | nil => simp [pure, Except.pure]
  | cons label labels ih =>
      have hstep : addChance .exact m expected label = .ok (expected +
          ((m.counts.sumWhere fun p => p.1 = label : ℕ) : ℚ) / m.total *
            (((m.counts.sumWhere fun p => p.2 = label : ℕ) : ℚ) / m.total)) := by
        simp only [addChance, quotient_of_ne_zero (Nat.cast_ne_zero.2 h)]
        rfl
      rw [List.foldlM_cons, hstep]
      change labels.foldlM (addChance .exact m) _ = _
      rw [ih, List.map_cons, List.sum_cons, add_assoc]

theorem expected_confusion (h : pairs ≠ []) :
    (confusion pairs).labels.foldlM (addChance .exact (confusion pairs)) 0 =
      .ok (Reference.chance pairs) := by
  have hlength : (confusion pairs).total ≠ 0 := by
    rw [total_confusion]
    exact fun h0 => h (List.length_eq_zero_iff.1 h0)
  rw [foldlM_addChance hlength, sum_labels, zero_add, total_confusion, Reference.chance]
  simp only [confusion, Dict.sumWhere_tally]
  rfl

theorem isClose_self (a : ℚ) : isClose .exact a a := by
  rw [isClose, sub_self]
  exact Or.inl (by simp)

/-- No division by zero is reached, and kappa is withheld only where chance agreement is close to
complete. -/
theorem cohensKappa_confusion :
    cohensKappa .exact (confusion pairs) =
      .ok (if pairs.length < 2 ∨ isClose .exact (Reference.chance pairs) 1 then none
        else some (Reference.kappa pairs)) := by
  rw [cohensKappa, total_confusion]
  by_cases hshort : pairs.length < 2
  · rw [if_pos hshort, if_pos (Or.inl hshort)]
    rfl
  · have hne : pairs ≠ [] := List.ne_nil_of_length_pos (by omega)
    rw [if_neg hshort, observedAgreement_confusion pairs hne, expected_confusion pairs hne]
    by_cases hclose : isClose .exact (Reference.chance pairs) 1
    · simp [hclose, bind, Except.bind, pure, Except.pure]
    · have hchance : 1 - Reference.chance pairs ≠ 0 := by
        intro h0
        rw [← sub_eq_zero.1 h0] at hclose
        exact hclose (isClose_self _)
      simp [hclose, hshort, bind, Except.bind, pure, Except.pure, quotient_of_ne_zero hchance,
        Reference.kappa]

theorem isClose_chance_iff (hshort : ¬pairs.length < 2) (hmany : pairs.length < 10 ^ 9) :
    isClose .exact (Reference.chance pairs) 1 ↔ Reference.SingleLabel pairs := by
  have hne : pairs ≠ [] := List.ne_nil_of_length_pos (by omega)
  constructor
  · intro hclose
    by_contra hsingle
    have hgap := Reference.chance_add_le hsingle hne
    have hnonneg : 0 ≤ Reference.chance pairs := Reference.chance_nonneg
    have hpos : (0 : ℚ) < pairs.length := Nat.cast_pos.2 (List.length_pos_of_ne_nil hne)
    have hlarge : (1 : ℚ) / 10 ^ 9 < 1 / pairs.length := by
      apply one_div_lt_one_div_of_lt hpos
      exact_mod_cast hmany
    have hle : Reference.chance pairs ≤ 1 := by
      have := one_div_pos.2 hpos
      linarith
    have hbound : |(1 : ℚ) / 10 ^ 9 * Reference.chance pairs| ≤ 1 / 10 ^ 9 := by
      rw [abs_mul, abs_of_nonneg hnonneg, abs_of_nonneg (by norm_num)]
      linarith
    simp only [isClose, Rounding.exact_apply, mul_one] at hclose
    rw [abs_of_nonneg (by linarith : 0 ≤ 1 - Reference.chance pairs),
      abs_of_nonneg (by norm_num : (0 : ℚ) ≤ 1 / 10 ^ 9)] at hclose
    rcases hclose with hclose | hclose <;> linarith
  · intro hsingle
    rw [Reference.chance_eq_one hsingle hne]
    exact isClose_self 1

theorem sumWhere_coincidences (m : ConfusionMatrix) (p : String × String → Prop)
    [DecidablePred p] :
    (coincidences m).sumWhere p =
      m.counts.sumWhere p + m.counts.sumWhere fun q => p q.swap := by
  have hfold : ∀ (l : List ((String × String) × ℕ)) (d : Dict (String × String) ℕ),
      (l.foldl (fun d e => (d.add (e.1.1, e.1.2) e.2).add (e.1.2, e.1.1) e.2) d).sumWhere p =
        d.sumWhere p + ((l.map fun e => if p e.1 then e.2 else 0).sum +
          (l.map fun e => if p e.1.swap then e.2 else 0).sum) := by
    intro l
    induction l with
    | nil => simp
    | cons e l ih =>
        intro d
        rw [List.foldl_cons, ih, Dict.sumWhere_add, Dict.sumWhere_add, List.map_cons,
          List.sum_cons, List.map_cons, List.sum_cons]
        change _ + (if p e.1 then e.2 else 0) + (if p e.1.swap then e.2 else 0) + _ = _
        omega
  rw [coincidences, hfold, Dict.sumWhere_eq_sum_ite m.counts, Dict.sumWhere_eq_sum_ite m.counts]
  exact Nat.zero_add _

theorem sumWhere_coincidences_confusion (p : String × String → Prop) [DecidablePred p] :
    (coincidences (confusion pairs)).sumWhere p =
      (pairs.countP fun q => p q) + pairs.countP fun q => p q.swap := by
  rw [sumWhere_coincidences, confusion, Dict.sumWhere_tally, Dict.sumWhere_tally]

theorem sum_values_coincidences :
    (coincidences (confusion pairs)).values.sum = Reference.judgements pairs := by
  rw [← Dict.sumWhere_true, sumWhere_coincidences_confusion, Reference.judgements]
  simp [two_mul]

theorem marginal_confusion (label : String) :
    marginal (confusion pairs) label = Reference.given pairs label := by
  rw [marginal, sumWhere_coincidences_confusion]
  rfl

theorem disagreement_confusion :
    (coincidences (confusion pairs)).sumWhere (fun p => p.1 ≠ p.2) =
      ∑ p ∈ (Reference.labels pairs).offDiag, Reference.coincidence pairs p := by
  rw [sumWhere_coincidences_confusion, Reference.sum_coincidence, two_mul]
  congr 1
  apply List.countP_congr
  intro q _
  rw [decide_eq_true_eq, decide_eq_true_eq]
  exact ne_comm

theorem sum_labelPairs (f : String × String → ℕ) :
    ((labelPairs (confusion pairs).labels).map f).sum =
      ∑ p ∈ (Reference.labels pairs).offDiag, f p := by
  have hlabels : (confusion pairs).labels.Nodup := nodup_sortedSet _
  have hnodup : (labelPairs (confusion pairs).labels).Nodup :=
    (hlabels.product hlabels).filter _
  have hset : (labelPairs (confusion pairs).labels).toFinset =
      (Reference.labels pairs).offDiag := by
    ext p
    have hmem : ∀ label, label ∈ (confusion pairs).labels ↔ label ∈ Reference.labels pairs := by
      intro label
      rw [Reference.labels, List.mem_toFinset]
      exact mem_sortedSet
    simp only [labelPairs, List.mem_toFinset, List.mem_filter, List.mem_flatMap, List.mem_map,
      Finset.mem_offDiag, ← hmem, decide_eq_true_eq]
    constructor
    · rintro ⟨⟨a, ha, b, hb, rfl⟩, hne⟩
      exact ⟨ha, hb, hne⟩
    · rintro ⟨ha, hb, hne⟩
      exact ⟨⟨p.1, ha, p.2, hb, rfl⟩, hne⟩
  rw [← List.sum_toFinset f hnodup, hset]

theorem krippendorffsAlpha_confusion [Decidable (Reference.Undefined pairs)] :
    krippendorffsAlpha .exact (confusion pairs) =
      .ok (if Reference.Undefined pairs then none else some (Reference.alpha pairs)) := by
  rw [krippendorffsAlpha, total_confusion, sum_labelPairs, sum_values_coincidences,
    disagreement_confusion]
  simp only [marginal_confusion]
  by_cases hshort : pairs.length < 2
  · have hundefined : Reference.Undefined pairs := Or.inl hshort
    rw [if_pos hshort, if_pos hundefined]
    rfl
  · have hne : pairs ≠ [] := List.ne_nil_of_length_pos (by omega)
    by_cases hsingle : Reference.SingleLabel pairs
    · have hundefined : Reference.Undefined pairs := Or.inr hsingle
      rw [if_neg hshort, if_pos hundefined, (Reference.sum_given_eq_zero_iff hne).2 hsingle]
      rfl
    · have hdefined : ¬Reference.Undefined pairs := fun h => h.elim hshort hsingle
      have hsum := mt (Reference.sum_given_eq_zero_iff hne).1 hsingle
      have hfour : (4 : ℚ) ≤ Reference.judgements pairs := by
        exact_mod_cast Reference.two_le_judgements hdefined
      have hjudgements : (Reference.judgements pairs : ℚ) ≠ 0 := by linarith
      have hjudgements' : (Reference.judgements pairs : ℚ) - 1 ≠ 0 := by linarith
      have hcast : ((∑ p ∈ (Reference.labels pairs).offDiag,
          Reference.given pairs p.1 * Reference.given pairs p.2 : ℕ) : ℚ) ≠ 0 :=
        Nat.cast_ne_zero.2 hsum
      have hquotient := quotient_of_ne_zero (a := ((Reference.judgements pairs : ℚ) - 1) *
        ((∑ p ∈ (Reference.labels pairs).offDiag, Reference.coincidence pairs p : ℕ) : ℚ)) hcast
      rw [if_neg hshort, if_neg hdefined]
      simp only [hsum, if_false, hquotient]
      change Except.ok (some _) = _
      congr 2
      rw [Rounding.exact_apply, Reference.alpha, Reference.observedDisagreement,
        Reference.expectedDisagreement]
      push_cast at hcast ⊢
      field_simp

end Code

section Rounded

variable (ρ : Rounding ℚ) (m : ConfusionMatrix)

theorem observedAgreement_isOk : ∃ x, m.observedAgreement ρ = .ok x := by
  unfold ConfusionMatrix.observedAgreement
  split_ifs with h
  · exact ⟨_, if_neg (Nat.cast_ne_zero.2 h)⟩
  · exact ⟨1, rfl⟩

theorem expected_isOk (h : m.total ≠ 0) (labels : List String) (expected : ℚ) :
    ∃ x, labels.foldlM (addChance ρ m) expected = .ok x := by
  induction labels generalizing expected with
  | nil => exact ⟨expected, rfl⟩
  | cons label labels ih =>
      have hstep : ∃ x, addChance ρ m expected label = .ok x := by
        simp only [addChance, quotient, if_neg (Nat.cast_ne_zero (R := ℚ).2 h)]
        exact ⟨_, rfl⟩
      obtain ⟨x, hx⟩ := hstep
      rw [List.foldlM_cons, hx]
      exact ih x

theorem isClose_of_sub_eq_zero {a b : ℚ} (h : ρ (b - a) = 0) : isClose ρ a b := by
  rw [isClose, h, abs_zero]
  exact Or.inl (abs_nonneg _)

theorem cohensKappa_isOk : ∃ kappa, cohensKappa ρ m = .ok kappa := by
  unfold cohensKappa
  split_ifs with hshort
  · exact ⟨none, rfl⟩
  · obtain ⟨observed, hobserved⟩ := observedAgreement_isOk ρ m
    obtain ⟨expected, hexpected⟩ := expected_isOk ρ m (by omega) m.labels 0
    simp only [hobserved, hexpected, bind, Except.bind]
    by_cases hclose : isClose ρ expected 1
    · exact ⟨none, by rw [if_pos hclose]; rfl⟩
    · have hdivisor : ρ (1 - expected) ≠ 0 := fun h0 => hclose (isClose_of_sub_eq_zero ρ h0)
      rw [if_neg hclose, quotient, if_neg hdivisor]
      exact ⟨_, rfl⟩

theorem krippendorffsAlpha_isOk : ∃ alpha, krippendorffsAlpha ρ m = .ok alpha := by
  unfold krippendorffsAlpha
  split_ifs with hshort
  · exact ⟨none, rfl⟩
  · dsimp only
    split_ifs with hzero
    · exact ⟨none, rfl⟩
    · rw [quotient, if_neg (Nat.cast_ne_zero.2 hzero)]
      exact ⟨_, rfl⟩

theorem cohensKappa_congr {m m' : ConfusionMatrix} (hlabels : m.labels = m'.labels)
    (htotal : m.total = m'.total)
    (hsum : ∀ p : String × String → Prop, ∀ [DecidablePred p],
      m.counts.sumWhere p = m'.counts.sumWhere p) : cohensKappa ρ m = cohensKappa ρ m' := by
  have hchance : addChance ρ m = addChance ρ m' := by
    funext expected label
    simp only [addChance, hsum, htotal]
  simp only [cohensKappa, ConfusionMatrix.observedAgreement, ConfusionMatrix.agreements, hlabels,
    htotal, hsum, hchance]

end Rounded

section Invariance

variable {pairs pairs' : List (String × String)}

namespace Reference

theorem singleLabel_iff_labels :
    SingleLabel pairs ↔ ∃ label, ∀ other ∈ labels pairs, other = label := by
  constructor
  · rintro ⟨label, hall⟩
    refine ⟨label, fun other hother => ?_⟩
    obtain ⟨p, hp, rfl | rfl⟩ := mem_labels.1 hother
    · exact (hall p hp).1
    · exact (hall p hp).2
  · rintro ⟨label, hall⟩
    exact ⟨label, fun p hp => ⟨hall _ (mem_labels.2 ⟨p, hp, Or.inl rfl⟩),
      hall _ (mem_labels.2 ⟨p, hp, Or.inr rfl⟩)⟩⟩

/-- The two lists hold the same judgements, whoever made them. -/
structure SameJudgements (pairs pairs' : List (String × String)) : Prop where
  length : pairs.length = pairs'.length
  labels : labels pairs = labels pairs'
  coincidence : ∀ p, coincidence pairs p = coincidence pairs' p
  given : ∀ label, given pairs label = given pairs' label

theorem SameJudgements.undefined_iff (h : SameJudgements pairs pairs') :
    Undefined pairs ↔ Undefined pairs' := by
  rw [Undefined, Undefined, singleLabel_iff_labels, singleLabel_iff_labels, h.length, h.labels]

theorem SameJudgements.alpha_eq (h : SameJudgements pairs pairs') : alpha pairs = alpha pairs' := by
  simp only [alpha, observedDisagreement, expectedDisagreement, judgements, h.length, h.labels,
    h.coincidence, h.given]

theorem labels_eq_of_mem_iff
    (h : ∀ label, (∃ p ∈ pairs, p.1 = label ∨ p.2 = label) ↔
      ∃ p ∈ pairs', p.1 = label ∨ p.2 = label) : labels pairs = labels pairs' := by
  ext label
  rw [mem_labels, mem_labels, h]

theorem labels_perm (h : pairs.Perm pairs') : labels pairs = labels pairs' := by
  apply labels_eq_of_mem_iff
  simp only [h.mem_iff, implies_true]

theorem sameJudgements_perm (h : pairs.Perm pairs') : SameJudgements pairs pairs' where
  length := h.length_eq
  labels := labels_perm h
  coincidence p := by rw [coincidence, coincidence, h.countP_eq, h.countP_eq]
  given label := by
    rw [given, given, leftCount, leftCount, rightCount, rightCount, h.countP_eq, h.countP_eq]

theorem sameJudgements_exchange (p : String × String) (before after : List (String × String)) :
    SameJudgements (before ++ p.swap :: after) (before ++ p :: after) where
  length := by simp
  labels := by
    apply labels_eq_of_mem_iff
    intro label
    simp only [List.mem_append, List.mem_cons, or_and_right, exists_or, exists_eq_left,
      Prod.fst_swap, Prod.snd_swap, or_comm (a := p.2 = label)]
  coincidence q := by
    simp only [coincidence, List.countP_append, List.countP_cons, Prod.swap_swap]
    omega
  given label := by
    simp only [given, leftCount, rightCount, List.countP_append, List.countP_cons, Prod.fst_swap,
      Prod.snd_swap]
    omega

theorem sameJudgements_swap (pairs : List (String × String)) :
    SameJudgements (pairs.map Prod.swap) pairs := by
  suffices h : ∀ before, SameJudgements (before ++ pairs.map Prod.swap) (before ++ pairs) from h []
  induction pairs with
  | nil => exact fun before => sameJudgements_perm (List.Perm.refl _)
  | cons p pairs ih =>
      intro before
      have hrest := ih (before ++ [p.swap])
      have hfirst := sameJudgements_exchange p before pairs
      simp only [List.append_assoc, List.singleton_append] at hrest
      exact ⟨hrest.length.trans hfirst.length, hrest.labels.trans hfirst.labels,
        fun q => (hrest.coincidence q).trans (hfirst.coincidence q),
        fun label => (hrest.given label).trans (hfirst.given label)⟩

theorem chance_perm (h : pairs.Perm pairs') : chance pairs = chance pairs' := by
  simp only [chance, leftCount, rightCount, labels_perm h, h.length_eq, h.countP_eq]

theorem kappa_perm (h : pairs.Perm pairs') : kappa pairs = kappa pairs' := by
  simp only [kappa, observed, agreeing, chance_perm h, h.length_eq, h.countP_eq]

theorem chance_swap (pairs : List (String × String)) :
    chance (pairs.map Prod.swap) = chance pairs := by
  rw [chance, chance, (sameJudgements_swap pairs).labels]
  apply Finset.sum_congr rfl
  intro label _
  simp only [leftCount, rightCount, List.countP_map, List.length_map]
  exact mul_comm _ _

theorem kappa_swap (pairs : List (String × String)) :
    kappa (pairs.map Prod.swap) = kappa pairs := by
  have hagreeing : agreeing (pairs.map Prod.swap) = agreeing pairs := by
    rw [agreeing, List.countP_map]
    apply List.countP_congr
    intro p _
    simpa using eq_comm
  rw [kappa, kappa, observed, observed, hagreeing, chance_swap, List.length_map]

end Reference

theorem cohensKappa_perm (h : pairs.Perm pairs') :
    cohensKappa .exact (confusion pairs) = cohensKappa .exact (confusion pairs') := by
  simp only [cohensKappa_confusion, Reference.chance_perm h, Reference.kappa_perm h, h.length_eq]

theorem cohensKappa_swap (pairs : List (String × String)) :
    cohensKappa .exact (confusion (pairs.map Prod.swap)) =
      cohensKappa .exact (confusion pairs) := by
  simp only [cohensKappa_confusion, Reference.chance_swap, Reference.kappa_swap, List.length_map]

open Classical in
theorem krippendorffsAlpha_congr (h : Reference.SameJudgements pairs pairs') :
    krippendorffsAlpha .exact (confusion pairs) = krippendorffsAlpha .exact (confusion pairs') := by
  simp only [krippendorffsAlpha_confusion, h.undefined_iff, h.alpha_eq]

end Invariance

/-- What is promised of the two coefficients of a list of pairs. -/
structure ReferenceCoefficients (pairs : List (String × String)) : Prop where
  kappa_eq : ∀ kappa, cohensKappa .exact (confusion pairs) = .ok (some kappa) →
    kappa = Reference.kappa pairs
  alpha_eq : ∀ alpha, krippendorffsAlpha .exact (confusion pairs) = .ok (some alpha) →
    alpha = Reference.alpha pairs
  kappa_undefined : cohensKappa .exact (confusion pairs) = .ok none ↔ Reference.Undefined pairs
  alpha_undefined : krippendorffsAlpha .exact (confusion pairs) = .ok none ↔
    Reference.Undefined pairs
  no_division_by_zero : ∀ e, cohensKappa .exact (confusion pairs) ≠ .error e ∧
    krippendorffsAlpha .exact (confusion pairs) ≠ .error e
  permuted : ∀ pairs', pairs'.Perm pairs →
    cohensKappa .exact (confusion pairs') = cohensKappa .exact (confusion pairs) ∧
      krippendorffsAlpha .exact (confusion pairs') = krippendorffsAlpha .exact (confusion pairs)
  swapped : cohensKappa .exact (confusion (pairs.map Prod.swap)) =
      cohensKappa .exact (confusion pairs) ∧
    krippendorffsAlpha .exact (confusion (pairs.map Prod.swap)) =
      krippendorffsAlpha .exact (confusion pairs)
  one_swapped : ∀ before p after, pairs = before ++ p :: after →
    krippendorffsAlpha .exact (confusion (before ++ p.swap :: after)) =
      krippendorffsAlpha .exact (confusion pairs)
  kappa_le_one : ∀ kappa, cohensKappa .exact (confusion pairs) = .ok (some kappa) →
    kappa ≤ 1 ∧ (kappa = 1 ↔ ∀ p ∈ pairs, p.1 = p.2)
  alpha_le_one : ∀ alpha, krippendorffsAlpha .exact (confusion pairs) = .ok (some alpha) →
    alpha ≤ 1 ∧ (alpha = 1 ↔ ∀ p ∈ pairs, p.1 = p.2)

open Classical in
theorem cohensKappa_eq {pairs : List (String × String)} (h : pairs.length < 10 ^ 9) :
    cohensKappa .exact (confusion pairs) =
      .ok (if Reference.Undefined pairs then none else some (Reference.kappa pairs)) := by
  rw [cohensKappa_confusion]
  by_cases hshort : pairs.length < 2
  · have hundefined : Reference.Undefined pairs := Or.inl hshort
    rw [if_pos (Or.inl hshort), if_pos hundefined]
  · have hiff : Reference.Undefined pairs ↔
        pairs.length < 2 ∨ isClose .exact (Reference.chance pairs) 1 := by
      rw [Reference.Undefined, isClose_chance_iff pairs hshort h]
    simp only [hiff]

theorem ok_ite_cases {p : Prop} [Decidable p] {x : ℚ} {r : Except ZeroDivisionError (Option ℚ)}
    (h : r = .ok (if p then none else some x)) :
    (∀ y, r = .ok (some y) → ¬p ∧ y = x) ∧ (r = .ok none ↔ p) ∧ ∀ e, r ≠ .error e := by
  subst h
  split_ifs with hp <;> simp [hp, eq_comm]

theorem reference_coefficients (pairs : List (String × String)) (h : pairs.length < 10 ^ 9) :
    ReferenceCoefficients pairs := by
  classical
  obtain ⟨hkappa, hkappaNone, hkappaOk⟩ := ok_ite_cases (cohensKappa_eq h)
  obtain ⟨halpha, halphaNone, halphaOk⟩ := ok_ite_cases (krippendorffsAlpha_confusion pairs)
  refine ⟨fun k hk => (hkappa k hk).2, fun a ha => (halpha a ha).2, hkappaNone, halphaNone,
    fun e => ⟨hkappaOk e, halphaOk e⟩, fun pairs' hperm => ⟨cohensKappa_perm hperm,
      krippendorffsAlpha_congr (Reference.sameJudgements_perm hperm)⟩,
    ⟨cohensKappa_swap pairs, krippendorffsAlpha_congr (Reference.sameJudgements_swap pairs)⟩,
    ?_, ?_, ?_⟩
  · rintro before p after rfl
    exact krippendorffsAlpha_congr (Reference.sameJudgements_exchange p before after)
  · intro k hk
    obtain ⟨hdefined, rfl⟩ := hkappa k hk
    exact ⟨Reference.kappa_le_one hdefined, Reference.kappa_eq_one_iff hdefined⟩
  · intro a ha
    obtain ⟨hdefined, rfl⟩ := halpha a ha
    exact ⟨Reference.alpha_le_one hdefined, Reference.alpha_eq_one_iff hdefined⟩

theorem reference_coefficients_twoPairs :
    ([("a", "a"), ("a", "b")] : List (String × String)).length < 10 ^ 9 ∧
      ReferenceCoefficients [("a", "a"), ("a", "b")] :=
  ⟨by decide, reference_coefficients _ (by decide)⟩

end OratoriaEngine.Corpus
