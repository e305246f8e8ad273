import OratoriaEngine.Corpus.Reordering

/-!
# The report on reordered annotations

Everything in the report but the roles depends on the keys alone, and so is the same for every
order of the input. The roles are the same up to order exactly when they are settled, and the
role figures do not depend on the order of the matched pairs.
-/

namespace OratoriaEngine.Corpus

open Alignment Shuffle

def labelPairsOf (m : Matching) : List (String × String) :=
  m.pairs.map fun p => (roleLabel p.left.contextRole, roleLabel p.right.contextRole)

theorem roleLabel_eq_none_iff {role : Option ContextualRole} :
    roleLabel role = "none" ↔ role = none := by
  cases role with
  | none => simp [roleLabel]
  | some role => cases role <;> simp [roleLabel, ContextualRole.value]

theorem rolePairs_eq (m : Matching) :
    rolePairs m = (labelPairsOf m).filter fun e => e ≠ ("none", "none") := by
  rw [labelPairsOf, List.filter_map, rolePairs]
  congr 1
  apply List.filter_congr
  intro p _
  rw [Function.comp_apply, Bool.eq_iff_iff]
  simp only [Bool.or_eq_true, decide_eq_true_eq, ne_eq, Prod.mk.injEq, roleLabel_eq_none_iff,
    Option.isSome_iff_ne_none]
  tauto

/-- Lists of one length that agree but for one value are equal up to order. -/
theorem perm_of_filter_ne_perm {α : Type} [DecidableEq α] {l l' : List α} {a : α}
    (hlength : l.length = l'.length)
    (h : (l.filter fun b => b ≠ a).Perm (l'.filter fun b => b ≠ a)) : l.Perm l' := by
  have hsplit : ∀ l : List α, l.Perm ((l.filter fun b => b ≠ a) ++
      List.replicate (l.length - (l.filter fun b => b ≠ a).length) a) := by
    intro l
    have hperm := List.filter_append_perm (fun b => decide (b ≠ a)) l
    have hrest : (l.filter fun b => !decide (b ≠ a)) =
        List.replicate (l.length - (l.filter fun b => b ≠ a).length) a := by
      apply List.eq_replicate_iff.2
      refine ⟨?_, fun b hb => by simpa using (List.mem_filter.1 hb).2⟩
      have hlengths := hperm.length_eq
      rw [List.length_append] at hlengths
      omega
    rw [hrest] at hperm
    exact hperm.symm
  refine (hsplit l).trans ((h.append ?_).trans (hsplit l').symm)
  rw [hlength, h.length_eq]

theorem rolePairs_perm_iff {m m' : Matching} (hlength : m.pairs.length = m'.pairs.length) :
    (rolePairs m).Perm (rolePairs m') ↔ (labelPairsOf m).Perm (labelPairsOf m') := by
  rw [rolePairs_eq, rolePairs_eq]
  constructor
  · apply perm_of_filter_ne_perm
    rw [labelPairsOf, labelPairsOf, List.length_map, List.length_map, hlength]
  · exact fun h => h.filter _

section Settled

variable (rule : MatchRule) (left right : List DisfluencyAnnotation)

theorem map_some_labelPairsOf :
    (labelPairsOf (matchAnnotations .double rule left right)).map (fun e => (some e.1, some e.2)) =
      (indices .double rule left right).map fun p =>
        (roleAt (ordered left) p.1, roleAt (ordered right) p.2) := by
  change (((indices .double rule left right).filterMap _).map _).map _ = _
  rw [List.map_map, List.map_filterMap, ← List.filterMap_eq_map]
  apply List.filterMap_congr
  intro p hp
  obtain ⟨a, b, ha, hb⟩ := exists_of_mem_indices .double rule left right hp
  simp [roleAt, ha, hb]

theorem labelPairsOf_perm_iff {left' right' : List DisfluencyAnnotation} :
    (labelPairsOf (matchAnnotations .double rule left right)).Perm
        (labelPairsOf (matchAnnotations .double rule left' right')) ↔
      ((indices .double rule left right).map fun p =>
        (roleAt (ordered left) p.1, roleAt (ordered right) p.2)).Perm
      ((indices .double rule left' right').map fun p =>
        (roleAt (ordered left') p.1, roleAt (ordered right') p.2)) := by
  rw [← map_some_labelPairsOf, ← map_some_labelPairsOf]
  have hinjective : Function.Injective fun e : String × String => (some e.1, some e.2) := by
    rintro ⟨a, b⟩ ⟨c, d⟩ h
    simpa using h
  exact (List.map_perm_map_iff hinjective).symm

/-- The alignment that loses nothing and leaves out left annotations before right ones settles the
roles: annotations of equal interval and class but different roles are matched all or none, all
with one role, and never with others of the kind. -/
def RolesSettled : Prop :=
  ∀ u, IsFirst .double (orderedScores .double rule left right) tightness .left left.length
      right.length u →
    Settled left.length right.length (keyAt (ordered left)) (keyAt (ordered right))
      (roleAt (ordered left)) (roleAt (ordered right)) (pairsOf left.length right.length u)

theorem rolesSettled_iff :
    RolesSettled rule left right ↔
      Settled left.length right.length (keyAt (ordered left)) (keyAt (ordered right))
        (roleAt (ordered left)) (roleAt (ordered right)) (indices .double rule left right) := by
  rw [indices_eq]
  constructor
  · exact fun h => h _ (isFirst_walk tightness_pos _ _)
  · intro h u hu
    rwa [hu.eq_walk tightness_pos]

theorem labelPairsOf_reordered_iff :
    (∀ left' right', left'.Perm left → right'.Perm right →
      (labelPairsOf (matchAnnotations .double rule left right)).Perm
        (labelPairsOf (matchAnnotations .double rule left' right'))) ↔
      RolesSettled rule left right := by
  obtain ⟨hincreasing, hin⟩ := indices_increasing .double rule left right
  have hfirst : ((indices .double rule left right).map Prod.fst).Nodup :=
    List.pairwise_map.2 (hincreasing.imp fun h => h.1.ne)
  have hsecond : ((indices .double rule left right).map Prod.snd).Nodup :=
    List.pairwise_map.2 (hincreasing.imp fun h => h.2.ne)
  rw [rolesSettled_iff,
    ← perm_of_shuffled_both_iff (fun p hp => (hin p hp).1) hfirst hsecond]
  simp only [labelPairsOf_perm_iff]
  constructor
  · intro h r' s' hr' hs'
    obtain ⟨left', hleft, hr⟩ := exists_perm_of_shuffled hr'
    obtain ⟨right', hright, hs⟩ := exists_perm_of_shuffled hs'
    refine (h left' right' hleft hright).trans (List.Perm.of_eq ?_)
    rw [indices_reordered .double rule hleft hright]
    apply List.map_congr_left
    intro p hp
    rw [hr _ (hin p hp).1.1, hs _ (hin p hp).1.2]
  · intro h left' right' hleft hright
    rw [indices_reordered .double rule hleft hright]
    exact h _ _ (shuffled_of_perm hleft) (shuffled_of_perm hright)

end Settled

/-- The dictionaries of counts are equal, in whatever order they were filled. -/
structure ConfusionMatrix.Same (m m' : ConfusionMatrix) : Prop where
  counts : ∀ k, m.counts.get? k = m'.counts.get? k
  labels : m.labels = m'.labels

structure SameFigures (r r' : AgreementReport) : Prop where
  perClass : r.perClass = r'.perClass
  classConfusion : r.classConfusion.Same r'.classConfusion
  roleConfusion : r.roleConfusion.Same r'.roleConfusion
  roleAgreement : r.roleAgreement = r'.roleAgreement
  boundary : r.boundary = r'.boundary
  found : (r.matched, r.leftOnly, r.rightOnly) = (r'.matched, r'.leftOnly, r'.rightOnly)
  positiveSpecificAgreement : r.positiveSpecificAgreement = r'.positiveSpecificAgreement
  classKappa : r.classKappa = r'.classKappa
  classAlpha : r.classAlpha = r'.classAlpha
  roleKappa : r.roleKappa = r'.roleKappa

/-- Both comparisons refuse alike, or both report the same figures. -/
def SameOutcome : Except CorpusError AgreementReport → Except CorpusError AgreementReport → Prop
  | .ok r, .ok r' => SameFigures r r'
  | .error e, .error e' => e = e'
  | _, _ => False

theorem confusion_same_iff {pairs pairs' : List (String × String)} :
    (confusion pairs).Same (confusion pairs') ↔ pairs.Perm pairs' := by
  constructor
  · exact fun h => (Dict.get?_tally_eq_iff pairs pairs').1 h.counts
  · intro h
    refine ⟨(Dict.get?_tally_eq_iff pairs pairs').2 h, ?_⟩
    have hperm : (confusion pairs).labels.Perm (confusion pairs').labels := by
      apply (List.perm_ext_iff_of_nodup (nodup_sortedSet _) (nodup_sortedSet _)).2
      intro label
      change label ∈ (confusion pairs).labels ↔ label ∈ (confusion pairs').labels
      simp only [mem_confusion_labels, h.mem_iff]
    exact hperm.eq_of_pairwise' (List.pairwise_insertionSort _ _) (List.pairwise_insertionSort _ _)

theorem cohensKappa_confusion_perm (ρ : Rounding ℚ) {pairs pairs' : List (String × String)}
    (h : pairs.Perm pairs') :
    cohensKappa ρ (confusion pairs) = cohensKappa ρ (confusion pairs') := by
  apply cohensKappa_congr ρ (confusion_same_iff.2 h).labels
  · rw [total_confusion, total_confusion, h.length_eq]
  · intro p _
    simp only [confusion, Dict.sumWhere_tally, h.countP_eq]

theorem roleAgreement_perm {pairs pairs' : List (String × String)} (h : pairs.Perm pairs') :
    roleAgreement (confusion pairs) = roleAgreement (confusion pairs') := by
  funext label
  simp only [roleAgreement, ConfusionMatrix.specificAgreement, ConfusionMatrix.forLabel, confusion,
    Dict.getD_tally, Dict.sumWhere_tally, h.countP_eq]

def AnnotatedRecording.reordered (r : AnnotatedRecording) (l : List DisfluencyAnnotation)
    (h : l.Perm r.disfluencies) : AnnotatedRecording :=
  { r with
    disfluencies := l
    attributed := fun a ha => r.attributed a (h.mem_iff.1 ha)
    within := fun a ha => r.within a (h.mem_iff.1 ha) }

/-- The report is the same whatever the order in which the annotations are listed. -/
def OrderFree (rule : MatchRule) (left right : AnnotatedRecording) : Prop :=
  ∀ l r (hl : l.Perm left.disfluencies) (hr : r.Perm right.disfluencies),
    SameOutcome (compare rule left right)
      (compare rule (left.reordered l hl) (right.reordered r hr))

theorem boundaryError_eq (m : Matching) :
    boundaryError m =
      ⟨(m.pairs.map fun p => (p.left.interval.startMs, p.right.interval.startMs)).map
          fun e => |e.1 - e.2|,
        (m.pairs.map fun p => (p.left.interval.endMs, p.right.interval.endMs)).map
          fun e => |e.1 - e.2|⟩ := by
  rw [List.map_map, List.map_map]
  rfl

section Compare

variable (rule : MatchRule) {left right : AnnotatedRecording}

theorem compare_eq_report (h : mismatch left right = none) :
    let m := matchAnnotations .double rule left.disfluencies right.disfluencies
    ∃ classKappa classAlpha roleKappa,
      cohensKappa .double (confusion (classPairs m)) = .ok classKappa ∧
      krippendorffsAlpha .double (confusion (classPairs m)) = .ok classAlpha ∧
      cohensKappa .double (confusion (rolePairs m)) = .ok roleKappa ∧
      compare rule left right = .ok (agreementReport left right m classKappa classAlpha
        roleKappa) := by
  intro m
  obtain ⟨classKappa, hkappa⟩ := cohensKappa_isOk .double (confusion (classPairs m))
  obtain ⟨classAlpha, halpha⟩ := krippendorffsAlpha_isOk .double (confusion (classPairs m))
  obtain ⟨roleKappa, hrole⟩ := cohensKappa_isOk .double (confusion (rolePairs m))
  exact ⟨classKappa, classAlpha, roleKappa, hkappa, halpha, hrole,
    compare_of_coefficients h hkappa halpha hrole⟩

variable {l r : List DisfluencyAnnotation} (hl : l.Perm left.disfluencies)
  (hr : r.Perm right.disfluencies)

include hl hr

theorem classPairs_reordered :
    classPairs (matchAnnotations .double rule l r) =
      classPairs (matchAnnotations .double rule left.disfluencies right.disfluencies) :=
  pairs_map_reordered .double rule (fun _ _ => classLabel_eq_of_key)
    (fun _ _ => classLabel_eq_of_key) hl hr

theorem boundaryError_reordered :
    boundaryError (matchAnnotations .double rule l r) =
      boundaryError (matchAnnotations .double rule left.disfluencies right.disfluencies) := by
  have hstart := pairs_map_reordered .double rule (fun _ _ => startMs_eq_of_key)
    (fun _ _ => startMs_eq_of_key) hl hr
  have hend := pairs_map_reordered .double rule (fun _ _ => endMs_eq_of_key)
    (fun _ _ => endMs_eq_of_key) hl hr
  rw [boundaryError_eq, boundaryError_eq, hstart, hend]

theorem length_pairs_reordered :
    (matchAnnotations .double rule l r).pairs.length =
      (matchAnnotations .double rule left.disfluencies right.disfluencies).pairs.length := by
  rw [length_pairs, length_pairs, indices_reordered .double rule hl hr]

theorem length_leftOnly_reordered :
    (matchAnnotations .double rule l r).leftOnly.length =
      (matchAnnotations .double rule left.disfluencies right.disfluencies).leftOnly.length := by
  have hmap := leftOnly_map_reordered .double rule (fun _ _ => classLabel_eq_of_key) hl hr
  simpa only [List.length_map] using congrArg List.length hmap

theorem length_rightOnly_reordered :
    (matchAnnotations .double rule l r).rightOnly.length =
      (matchAnnotations .double rule left.disfluencies right.disfluencies).rightOnly.length := by
  have hmap := rightOnly_map_reordered .double rule (fun _ _ => classLabel_eq_of_key) hl hr
  simpa only [List.length_map] using congrArg List.length hmap

theorem sameFigures_of_rolePairs_perm
    (hroles : (rolePairs (matchAnnotations .double rule left.disfluencies right.disfluencies)).Perm
      (rolePairs (matchAnnotations .double rule l r))) (classKappa classAlpha roleKappa : Option ℚ)
    (left' right' : AnnotatedRecording) :
    SameFigures (agreementReport left right
        (matchAnnotations .double rule left.disfluencies right.disfluencies) classKappa classAlpha
        roleKappa)
      (agreementReport left' right' (matchAnnotations .double rule l r) classKappa classAlpha
        roleKappa) where
  perClass := by
    simp only [agreementReport, perClass, classPairs_reordered rule hl hr,
      leftOnly_map_reordered .double rule (fun _ _ => classLabel_eq_of_key) hl hr,
      rightOnly_map_reordered .double rule (fun _ _ => classLabel_eq_of_key) hl hr]
  classConfusion := by
    simp only [agreementReport, classPairs_reordered rule hl hr]
    exact confusion_same_iff.2 (List.Perm.refl _)
  roleConfusion := confusion_same_iff.2 hroles
  roleAgreement := by
    simp only [agreementReport, roleAgreement_perm hroles, (confusion_same_iff.2 hroles).labels]
  boundary := (boundaryError_reordered rule hl hr).symm
  found := by
    simp only [agreementReport, length_pairs_reordered rule hl hr,
      length_leftOnly_reordered rule hl hr, length_rightOnly_reordered rule hl hr]
  positiveSpecificAgreement := by
    simp only [agreementReport, Matching.positiveSpecificAgreement,
      length_pairs_reordered rule hl hr, length_leftOnly_reordered rule hl hr,
      length_rightOnly_reordered rule hl hr]
  classKappa := by simp only [agreementReport]
  classAlpha := by simp only [agreementReport]
  roleKappa := by simp only [agreementReport]

theorem sameOutcome_reordered_iff (h : mismatch left right = none) :
    SameOutcome (compare rule left right)
        (compare rule (left.reordered l hl) (right.reordered r hr)) ↔
      (labelPairsOf (matchAnnotations .double rule left.disfluencies right.disfluencies)).Perm
        (labelPairsOf (matchAnnotations .double rule l r)) := by
  have h' : mismatch (left.reordered l hl) (right.reordered r hr) = none := h
  obtain ⟨kappa, alpha, roleKappa, hkappa, halpha, hrole, hreport⟩ := compare_eq_report rule h
  obtain ⟨kappa', alpha', roleKappa', hkappa', halpha', hrole', hreport'⟩ :=
    compare_eq_report rule h'
  rw [← rolePairs_perm_iff (length_pairs_reordered rule hl hr).symm, hreport, hreport']
  constructor
  · exact fun hsame => confusion_same_iff.1 hsame.roleConfusion
  · intro hroles
    have hclass : classPairs (matchAnnotations .double rule l r) = _ :=
      classPairs_reordered rule hl hr
    change cohensKappa .double (confusion (classPairs (matchAnnotations .double rule l r))) =
      _ at hkappa'
    change krippendorffsAlpha .double (confusion (classPairs (matchAnnotations .double rule l r))) =
      _ at halpha'
    change cohensKappa .double (confusion (rolePairs (matchAnnotations .double rule l r))) =
      _ at hrole'
    rw [hclass, hkappa] at hkappa'
    rw [hclass, halpha] at halpha'
    rw [← cohensKappa_confusion_perm .double hroles, hrole] at hrole'
    obtain rfl := Except.ok.inj hkappa'
    obtain rfl := Except.ok.inj halpha'
    obtain rfl := Except.ok.inj hrole'
    exact sameFigures_of_rolePairs_perm rule hl hr hroles _ _ _ _ _

end Compare

theorem orderFree_iff_rolesSettled (rule : MatchRule) (left right : AnnotatedRecording) :
    OrderFree rule left right ↔
      (mismatch left right = none →
        RolesSettled rule left.disfluencies right.disfluencies) := by
  cases h : mismatch left right with
  | some message =>
      refine iff_of_true ?_ fun h' => nomatch h'
      intro l r hl hr
      have h' : mismatch (left.reordered l hl) (right.reordered r hr) = some message := h
      simp only [compare, h, h']
      rfl
  | none =>
      rw [← labelPairsOf_reordered_iff]
      constructor
      · exact fun hfree _ l r hl hr => (sameOutcome_reordered_iff rule hl hr h).1 (hfree l r hl hr)
      · exact fun hsettled l r hl hr =>
          (sameOutcome_reordered_iff rule hl hr h).2 (hsettled rfl l r hl hr)

/-- Annotations of the first side that the sort key does not tell apart have one role, if they can
be matched with any annotation of the second. -/
def TiesAlike (rule : MatchRule) (left right : List DisfluencyAnnotation) : Prop :=
  ∀ a ∈ left, ∀ a' ∈ left, a.key = a'.key →
    (∃ b ∈ right, (rule.score .double a b).isSome) → a.contextRole = a'.contextRole

theorem not_mixed_of_tiesAlike {rule : MatchRule} {left right : List DisfluencyAnnotation}
    (h : TiesAlike rule left right) {i : ℕ} {a : DisfluencyAnnotation}
    (ha : (ordered left)[i]? = some a)
    (hadmissible : ∃ b ∈ right, (rule.score .double a b).isSome) :
    ¬Mixed left.length (keyAt (ordered left)) (roleAt (ordered left)) i := by
  rintro ⟨j, hj, hkey, hrole⟩
  rw [← length_ordered left] at hj
  have hmem : ∀ a ∈ ordered left, a ∈ left := fun a => (List.mem_insertionSort _).1
  simp only [keyAt, roleAt, ha, List.getElem?_eq_getElem hj, Option.map_some, Option.some.injEq,
    ne_eq] at hkey hrole
  have hsame := h a (hmem a (List.mem_of_getElem? ha)) _ (hmem _ (List.getElem_mem hj)) hkey.symm
    hadmissible
  exact hrole (congrArg roleLabel hsame.symm)

/-- Where two recordings are refused, or ties of annotations that can be matched are alike on both
sides, the order in which the annotations are listed does not matter. -/
theorem orderFree_of_tiesAlike (rule : MatchRule) (left right : AnnotatedRecording)
    (h : mismatch left right = none → TiesAlike rule left.disfluencies right.disfluencies ∧
      TiesAlike rule right.disfluencies left.disfluencies) : OrderFree rule left right := by
  apply (orderFree_iff_rolesSettled rule left right).2
  intro htogether
  obtain ⟨hleft, hright⟩ := h htogether
  rw [rolesSettled_iff]
  have hpaired : ∀ p ∈ indices .double rule left.disfluencies right.disfluencies,
      ∃ a b, (ordered left.disfluencies)[p.1]? = some a ∧
        (ordered right.disfluencies)[p.2]? = some b ∧ (rule.score .double a b).isSome := by
    intro p hp
    obtain ⟨a, b, ha, hb⟩ := exists_of_mem_indices .double rule _ _ hp
    have hsome := ((indices_increasing .double rule _ _).2 p hp).2
    rw [orderedScores, scores, ha, hb] at hsome
    exact ⟨a, b, ha, hb, hsome⟩
  have hmem : ∀ {l : List DisfluencyAnnotation} {i : ℕ} {a : DisfluencyAnnotation},
      (ordered l)[i]? = some a → a ∈ l :=
    fun h => (List.mem_insertionSort _).1 (List.mem_of_getElem? h)
  apply settled_of_not_mixed
  · intro p hp
    obtain ⟨a, b, ha, hb, hsome⟩ := hpaired p hp
    exact not_mixed_of_tiesAlike hleft ha ⟨b, hmem hb, hsome⟩
  · intro p hp
    obtain ⟨a, b, ha, hb, hsome⟩ := hpaired p hp
    rw [rule.score_comm] at hsome
    exact not_mixed_of_tiesAlike hright hb ⟨a, hmem ha, hsome⟩

theorem lexicalFiller_roles (role : ContextualRole) :
    RoleRules .lexicalFiller "este" (some role) := by
  cases role <;> decide

/-- "este" over most of a second, in the given role. -/
def esteAs (annotatorId : String) (named : isBlank annotatorId = false) (role : ContextualRole) :
    DisfluencyAnnotation :=
  ⟨.lexicalFiller, ⟨4010, 5000, by decide, by decide⟩, annotatorId, "este", some role, 1, "", named,
    full_confidence, lexicalFiller_roles role⟩

def earlyEsteAs (role : ContextualRole) : DisfluencyAnnotation :=
  { esteAs "ana" ana_named role with interval := ⟨210, 500, by decide, by decide⟩ }

def anaTwoRoles : AnnotatedRecording :=
  sixSeconds "ana" [esteAs "ana" ana_named .filler, esteAs "ana" ana_named .semantic]
    (by decide) (by decide)

def betoFiller : AnnotatedRecording :=
  sixSeconds "beto" [esteAs "beto" beto_named .filler] (by decide) (by decide)

/-- Two words in one role, and two in different roles where nobody else annotated anything. -/
def anaAlike : AnnotatedRecording :=
  sixSeconds "ana" [esteAs "ana" ana_named .semantic, earlyEsteAs .filler,
    esteAs "ana" ana_named .semantic, earlyEsteAs .semantic] (by decide) (by decide)

theorem orderFree_anaAlike : OrderFree {} anaAlike betoFiller :=
  orderFree_of_tiesAlike {} anaAlike betoFiller fun _ => by
    unfold TiesAlike
    exact ⟨by decide +kernel, by decide +kernel⟩

theorem ordered_of_tied {l : List DisfluencyAnnotation} {a : DisfluencyAnnotation}
    (h : ∀ b ∈ l, b.key = a.key) : ordered l = l := by
  apply List.Pairwise.insertionSort_eq
  apply List.pairwise_of_forall_mem_list
  intro b hb c hc
  rw [orderingLe_iff, h b hb, h c hc]

/-- Of two annotations that differ only in role the last one listed is matched. -/
theorem not_orderFree_twoRoles : ¬OrderFree {} anaTwoRoles betoFiller := by
  intro h
  have hsame := h anaTwoRoles.disfluencies.reverse betoFiller.disfluencies
    (List.reverse_perm _) (List.Perm.refl _)
  rw [sameOutcome_reordered_iff {} _ _ (by decide)] at hsame
  have hana : ordered anaTwoRoles.disfluencies = anaTwoRoles.disfluencies := by
    apply ordered_of_tied (a := esteAs "ana" ana_named .filler)
    simp [anaTwoRoles, sixSeconds, DisfluencyAnnotation.key, classLabel, esteAs]
  have hreverse : ordered anaTwoRoles.disfluencies.reverse = anaTwoRoles.disfluencies.reverse := by
    apply ordered_of_tied (a := esteAs "ana" ana_named .filler)
    simp [anaTwoRoles, sixSeconds, DisfluencyAnnotation.key, classLabel, esteAs]
  have hbeto : ordered betoFiller.disfluencies = betoFiller.disfluencies := rfl
  have hlisted : labelPairsOf (matchAnnotations .double {} anaTwoRoles.disfluencies
      betoFiller.disfluencies) = [("semantic", "filler")] := by
    simp only [matchAnnotations, hana, hbeto]
    decide +kernel
  have hreversed : labelPairsOf (matchAnnotations .double {} anaTwoRoles.disfluencies.reverse
      betoFiller.disfluencies) = [("filler", "filler")] := by
    simp only [matchAnnotations, hreverse, hbeto]
    decide +kernel
  rw [hlisted, hreversed] at hsame
  simp at hsame

end OratoriaEngine.Corpus
