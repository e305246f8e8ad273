import OratoriaEngine.Transcript
import Mathlib.Data.List.Perm.Subperm

/-!
# Final words are final for good

A transcript grows by new hypotheses and by boundaries up to which it is frozen. Whatever comes
later, and whatever is refused, the words that are final stay as they are.
-/

namespace OratoriaEngine.Transcript

inductive Call
  | withProvisional (incoming : List WordToken)
  | finalizeThrough (boundary : MonotonicTime)

def answer (t : Transcript) : Call → Except Failure Transcript
  | .withProvisional incoming => t.withProvisional incoming
  | .finalizeThrough boundary => t.finalizeThrough boundary

/-- The transcript after a call; a refused one leaves it as it was. -/
def after (t : Transcript) (call : Call) : Transcript :=
  match t.answer call with
  | .ok t' => t'
  | .error _ => t

/-- The transcript that the calls lead to from the empty one. -/
def reached (calls : List Call) : Transcript := calls.foldl after empty

variable {t t' : Transcript} {incoming : List WordToken} {boundary : MonotonicTime}

theorem finalizeThrough_eq_ok (h : t.finalizeThrough boundary = .ok t') :
    t.finalizedFrontier.ms ≤ boundary.ms ∧ t' = t.promoted boundary.ms := by
  unfold finalizeThrough at h
  split_ifs at h with hbehind
  cases h
  exact ⟨not_lt.1 hbehind, rfl⟩

theorem after_cases (t : Transcript) (call : Call) :
    ((∃ failure, t.answer call = .error failure) ∧ t.after call = t) ∨
      (∃ incoming t', call = .withProvisional incoming ∧
        t.withProvisional incoming = .ok t' ∧ t.after call = t') ∨
      ∃ boundary, call = .finalizeThrough boundary ∧
        t.finalizedFrontier.ms ≤ boundary.ms ∧ t.after call = t.promoted boundary.ms := by
  unfold after
  cases hanswer : t.answer call with
  | error failure => exact Or.inl ⟨⟨failure, rfl⟩, rfl⟩
  | ok t' =>
      cases call with
      | withProvisional incoming => exact Or.inr (Or.inl ⟨incoming, t', rfl, hanswer, rfl⟩)
      | finalizeThrough boundary =>
          obtain ⟨hahead, rfl⟩ := finalizeThrough_eq_ok hanswer
          exact Or.inr (Or.inr ⟨boundary, rfl, hahead, rfl⟩)

theorem finalTokens_subperm_promoted (t : Transcript) (ms : ℤ) :
    t.finalTokens.Subperm (t.promoted ms).finalTokens := by
  have hsame : t.finalTokens.map
      (fun w => if w.interval.stop.ms ≤ ms then w.finalize else w) = t.finalTokens := by
    refine (List.map_congr_left fun w hw => ?_).trans (List.map_id _)
    rw [WordToken.finalize_of_isFinal (List.mem_filter.1 hw).2, ite_self, id]
  rw [← hsame, finalTokens, finalTokens, promoted, List.filter_map]
  refine (List.Sublist.map _ (List.monotone_filter_right _ fun w hw => ?_)).subperm
  rw [Function.comp_apply, isFinal_freeze, hw, Bool.true_or]

theorem finalTokens_subperm_withProvisional (h : t.withProvisional incoming = .ok t') :
    t.finalTokens.Subperm t'.finalTokens := by
  have hperm := (tokens_perm_withProvisional h).filter (·.isFinal)
  have hkept : t.finalTokens.filter (·.isFinal) = t.finalTokens := by simp [finalTokens]
  rw [List.filter_append, hkept] at hperm
  exact (List.sublist_append_left _ _).subperm.trans hperm.symm.subperm

theorem finalTokens_subperm_after (t : Transcript) (call : Call) :
    t.finalTokens.Subperm (t.after call).finalTokens := by
  rcases after_cases t call with ⟨-, heq⟩ | ⟨incoming, t', -, htaken, heq⟩ | ⟨boundary, -, -, heq⟩
  · rw [heq]
  · rw [heq]
    exact finalTokens_subperm_withProvisional htaken
  · rw [heq]
    exact finalTokens_subperm_promoted t boundary.ms

theorem ordered_after (h : t.tokens.Pairwise WordToken.orderingLe) (call : Call) :
    (t.after call).tokens.Pairwise WordToken.orderingLe := by
  rcases after_cases t call with ⟨-, heq⟩ | ⟨incoming, t', -, htaken, heq⟩ | ⟨boundary, -, -, heq⟩
  · rwa [heq]
  · rw [heq]
    exact pairwise_withProvisional htaken
  · rw [heq]
    exact ordered_promoted h boundary.ms

theorem finalTokens_subperm_foldl (t : Transcript) (calls : List Call) :
    t.finalTokens.Subperm (calls.foldl after t).finalTokens := by
  induction calls generalizing t with
  | nil => exact List.Subperm.refl _
  | cons call calls ih => exact (finalTokens_subperm_after t call).trans (ih (t.after call))

theorem ordered_foldl (h : t.tokens.Pairwise WordToken.orderingLe) (calls : List Call) :
    (calls.foldl after t).tokens.Pairwise WordToken.orderingLe := by
  induction calls generalizing t with
  | nil => exact h
  | cons call calls ih => exact ih (ordered_after h call)

/-- Every final token is there after any later calls, as it was; the frontier does not recede; the
tokens are in order; and an accepted hypothesis replaces all but the final tokens. -/
theorem finality_permanent (calls later : List Call) :
    (reached calls).finalTokens.Subperm (reached (calls ++ later)).finalTokens ∧
      (reached calls).finalizedFrontier.ms ≤ (reached (calls ++ later)).finalizedFrontier.ms ∧
      (reached calls).tokens.Pairwise WordToken.orderingLe ∧
      ∀ incoming t', (reached calls).withProvisional incoming = .ok t' →
        t'.tokens.Perm ((reached calls).finalTokens ++ incoming) := by
  have hkept : (reached calls).finalTokens.Subperm (reached (calls ++ later)).finalTokens := by
    rw [reached, reached, List.foldl_append]
    exact finalTokens_subperm_foldl _ later
  exact ⟨hkept, frontier_le_of_subset hkept.subset, ordered_foldl List.Pairwise.nil calls,
    fun _ _ h => tokens_perm_withProvisional h⟩

end OratoriaEngine.Transcript
