import OratoriaEngine.Measurement
import OratoriaEngine.Identifiers
import OratoriaEngine.Timeline
import Mathlib.Data.List.Sort
import Mathlib.Data.String.Basic

/-!
# The verbatim transcript

Word tokens are ordered by start, end and identifier. Everything behind the
finalized frontier is frozen; the tail after it is replaced wholesale by each
new hypothesis.
-/

namespace OratoriaEngine

inductive TokenStatus
  | provisional
  | final
  deriving DecidableEq, Repr

def TokenStatus.value : TokenStatus → String
  | .provisional => "provisional"
  | .final => "final"

structure WordToken where
  id : TokenId
  rawText : String
  interval : Interval
  confidence : Confidence
  status : TokenStatus
  spoken : rawText ≠ ""
  deriving DecidableEq

namespace WordToken

def of (id : TokenId) (rawText : String) (interval : Interval) (confidence : Confidence) :
    Except Failure WordToken :=
  if h : rawText ≠ "" then .ok ⟨id, rawText, interval, confidence, .provisional, h⟩
  else .error (.transcriptViolation
    ("a word token cannot be empty; an unintelligible stretch is an " ++
      "UNINTELLIGIBLE speech event, not a blank word"))

def isFinal (t : WordToken) : Bool := t.status = .final

def finalize (t : WordToken) : WordToken := if t.isFinal then t else { t with status := .final }

@[simp] theorem finalize_isFinal (t : WordToken) : t.finalize.isFinal = true := by
  unfold finalize
  split_ifs with h
  · exact h
  · rfl

@[simp] theorem finalize_interval (t : WordToken) : t.finalize.interval = t.interval := by
  unfold finalize
  split_ifs <;> rfl

@[simp] theorem finalize_id (t : WordToken) : t.finalize.id = t.id := by
  unfold finalize
  split_ifs <;> rfl

theorem finalize_of_isFinal {t : WordToken} (h : t.isFinal = true) : t.finalize = t := if_pos h

/-- The tuple comparison `_ordering(a) <= _ordering(b)`. -/
def orderingLe (a b : WordToken) : Prop :=
  a.interval.start.ms < b.interval.start.ms ∨ a.interval.start.ms = b.interval.start.ms ∧
    (a.interval.stop.ms < b.interval.stop.ms ∨ a.interval.stop.ms = b.interval.stop.ms ∧
      a.id.value ≤ b.id.value)

instance : DecidableRel orderingLe := fun _ _ => inferInstanceAs (Decidable (_ ∨ _))

instance : Std.Total orderingLe where
  total a b := by
    unfold orderingLe
    rcases le_total a.id.value b.id.value with h | h <;> grind

instance : IsTrans WordToken orderingLe where
  trans a b c hab hbc := by
    unfold orderingLe at *
    have ht : a.id.value ≤ b.id.value → b.id.value ≤ c.id.value → a.id.value ≤ c.id.value :=
      le_trans
    grind

theorem start_le_of_orderingLe {a b : WordToken} (h : orderingLe a b) :
    a.interval.start.ms ≤ b.interval.start.ms := by
  unfold orderingLe at h
  omega

end WordToken

structure Transcript where
  tokens : List WordToken
  deriving DecidableEq

namespace Transcript

def empty : Transcript := ⟨[]⟩

def finalTokens (t : Transcript) : List WordToken := t.tokens.filter (·.isFinal)

def provisionalTokens (t : Transcript) : List WordToken := t.tokens.filter fun w => !w.isFinal

/-- `max(finalized_ends, default=0)`. -/
def frontierMs (t : Transcript) : ℤ := ((t.finalTokens.map (·.interval.stop.ms)).max?).getD 0

theorem frontierMs_nonneg (t : Transcript) : 0 ≤ t.frontierMs := by
  unfold frontierMs
  cases hm : (t.finalTokens.map (·.interval.stop.ms)).max? with
  | none => exact le_rfl
  | some m =>
      obtain ⟨w, -, rfl⟩ := List.mem_map.1 (List.max?_mem hm)
      exact w.interval.stop.nonneg

def finalizedFrontier (t : Transcript) : MonotonicTime := ⟨t.frontierMs, t.frontierMs_nonneg⟩

theorem frontier_le_iff {t : Transcript} {ms : ℤ} :
    t.finalizedFrontier.ms ≤ ms ↔ 0 ≤ ms ∧ ∀ w ∈ t.finalTokens, w.interval.stop.ms ≤ ms := by
  change t.frontierMs ≤ ms ↔ _
  unfold frontierMs
  cases hmax : (t.finalTokens.map (·.interval.stop.ms)).max? with
  | none =>
      have hnil : t.finalTokens = [] := List.map_eq_nil_iff.1 (List.max?_eq_none_iff.1 hmax)
      simp [hnil]
  | some latest =>
      obtain ⟨hmem, hall⟩ := List.max?_eq_some_iff.1 hmax
      obtain ⟨w, hw, rfl⟩ := List.mem_map.1 hmem
      constructor
      · intro h
        exact ⟨w.interval.stop.nonneg.trans h,
          fun v hv => (hall _ (List.mem_map_of_mem hv)).trans h⟩
      · rintro ⟨-, h⟩
        exact h w hw

theorem frontier_le_of_subset {t t' : Transcript} (h : t.finalTokens ⊆ t'.finalTokens) :
    t.finalizedFrontier.ms ≤ t'.finalizedFrontier.ms := by
  obtain ⟨hnonneg, hends⟩ := frontier_le_iff.1 (le_refl t'.finalizedFrontier.ms)
  exact frontier_le_iff.2 ⟨hnonneg, fun w hw => hends w (h hw)⟩

/-- Replace the revisable tail, refusing a token behind the frontier. -/
def withProvisional (t : Transcript) (incoming : List WordToken) : Except Failure Transcript :=
  let frontier := t.finalizedFrontier
  let fresh := incoming.insertionSort WordToken.orderingLe
  match fresh.find? fun token => token.interval.start.ms < frontier.ms with
  | some token => .error (.transcriptViolation
      (s!"provisional token {token.id.value} starts at {token.interval.start.ms} ms, " ++
        s!"behind the finalized frontier at {frontier.ms} ms"))
  | none => .ok ⟨(t.finalTokens ++ fresh).insertionSort WordToken.orderingLe⟩

def finalizeThrough (t : Transcript) (boundary : MonotonicTime) : Except Failure Transcript :=
  if boundary.ms < t.finalizedFrontier.ms then
    .error (.transcriptViolation
      ("cannot move the finalized frontier backwards: " ++
        s!"{t.finalizedFrontier.ms} ms -> {boundary.ms} ms"))
  else .ok ⟨t.tokens.map fun token =>
    if token.interval.stop.ms ≤ boundary.ms then token.finalize else token⟩

def promoted (t : Transcript) (ms : ℤ) : Transcript :=
  ⟨t.tokens.map fun token => if token.interval.stop.ms ≤ ms then token.finalize else token⟩

theorem isFinal_freeze (ms : ℤ) (token : WordToken) :
    (if token.interval.stop.ms ≤ ms then token.finalize else token).isFinal =
      (token.isFinal || decide (token.interval.stop.ms ≤ ms)) := by
  split_ifs with h <;> simp [h]

section Promoted

variable {β : Type} {f : WordToken → β} (hf : ∀ w, f w.finalize = f w) (t : Transcript) (ms : ℤ)
include hf

theorem map_freeze (w : WordToken) :
    f (if w.interval.stop.ms ≤ ms then w.finalize else w) = f w := by
  split_ifs
  · exact hf w
  · rfl

theorem map_finalTokens_promoted :
    (t.promoted ms).finalTokens.map f =
      (t.tokens.filter fun w => w.isFinal || decide (w.interval.stop.ms ≤ ms)).map f := by
  rw [finalTokens, promoted, List.filter_map, List.map_map]
  simp only [Function.comp_def, isFinal_freeze, map_freeze hf]

theorem map_provisionalTokens_promoted :
    (t.promoted ms).provisionalTokens.map f =
      (t.tokens.filter fun w => !(w.isFinal || decide (w.interval.stop.ms ≤ ms))).map f := by
  rw [provisionalTokens, promoted, List.filter_map, List.map_map]
  simp only [Function.comp_def, isFinal_freeze, map_freeze hf]

end Promoted

theorem ordered_promoted {t : Transcript} (h : t.tokens.Pairwise WordToken.orderingLe) (ms : ℤ) :
    (t.promoted ms).tokens.Pairwise WordToken.orderingLe := by
  refine List.pairwise_map.2 (h.imp fun {x y} hxy => ?_)
  unfold WordToken.orderingLe at hxy ⊢
  split_ifs <;> simpa using hxy

variable {t t' : Transcript} {incoming : List WordToken}

theorem exists_withProvisional_iff :
    (∃ t', t.withProvisional incoming = .ok t') ↔
      ∀ w ∈ incoming, t.finalizedFrontier.ms ≤ w.interval.start.ms := by
  unfold withProvisional
  simp only
  constructor
  · rintro ⟨t', h⟩ w hw
    split at h
    · cases h
    · next hnone =>
        have hnot := List.find?_eq_none.1 hnone w ((List.mem_insertionSort _).2 hw)
        simpa using hnot
  · intro h
    split
    · next w hsome =>
        have hbehind := List.find?_some hsome
        have hahead := h w ((List.mem_insertionSort _).1 (List.mem_of_find?_eq_some hsome))
        exact absurd (by simpa using hbehind) (not_lt.2 hahead)
    · exact ⟨_, rfl⟩

theorem tokens_withProvisional (h : t.withProvisional incoming = .ok t') :
    t'.tokens = (t.finalTokens ++ incoming.insertionSort WordToken.orderingLe).insertionSort
      WordToken.orderingLe := by
  unfold withProvisional at h
  simp only at h
  split at h
  · cases h
  · cases h
    rfl

theorem tokens_perm_withProvisional (h : t.withProvisional incoming = .ok t') :
    t'.tokens.Perm (t.finalTokens ++ incoming) := by
  rw [tokens_withProvisional h]
  exact (List.perm_insertionSort _ _).trans
    (List.Perm.append_left _ (List.perm_insertionSort _ _))

theorem filter_perm_withProvisional (h : t.withProvisional incoming = .ok t')
    (hincoming : ∀ w ∈ incoming, w.isFinal = false) (p : WordToken → Bool) :
    (t'.tokens.filter fun w => w.isFinal || p w).Perm (t.finalTokens ++ incoming.filter p) ∧
      (t'.tokens.filter fun w => !(w.isFinal || p w)).Perm (incoming.filter fun w => !p w) := by
  have hperm := tokens_perm_withProvisional h
  have hfinal : ∀ w ∈ t.finalTokens, w.isFinal = true := fun w hw => (List.mem_filter.1 hw).2
  constructor
  · have hfilter := hperm.filter fun w => w.isFinal || p w
    have hkept : t.finalTokens.filter (fun w => w.isFinal || p w) = t.finalTokens :=
      List.filter_eq_self.2 fun w hw => by simp [hfinal w hw]
    rw [List.filter_append, hkept] at hfilter
    have hrest : incoming.filter (fun w => w.isFinal || p w) = incoming.filter p :=
      List.filter_congr fun w hw => by simp [hincoming w hw]
    rwa [hrest] at hfilter
  · have hfilter := hperm.filter fun w => !(w.isFinal || p w)
    have hgone : t.finalTokens.filter (fun w => !(w.isFinal || p w)) = [] :=
      List.filter_eq_nil_iff.2 fun w hw => by simp [hfinal w hw]
    rw [List.filter_append, hgone, List.nil_append] at hfilter
    have hrest : incoming.filter (fun w => !(w.isFinal || p w)) = incoming.filter fun w => !p w :=
      List.filter_congr fun w hw => by simp [hincoming w hw]
    rwa [hrest] at hfilter

theorem pairwise_withProvisional (h : t.withProvisional incoming = .ok t') :
    t'.tokens.Pairwise WordToken.orderingLe := by
  rw [tokens_withProvisional h]
  exact List.pairwise_insertionSort _ _

theorem finalTokens_perm_withProvisional (hincoming : ∀ w ∈ incoming, w.isFinal = false)
    (h : t.withProvisional incoming = .ok t') : t'.finalTokens.Perm t.finalTokens := by
  have hall : (t.finalTokens ++ incoming).filter (·.isFinal) = t.finalTokens := by
    have htail : incoming.filter (·.isFinal) = [] :=
      List.filter_eq_nil_iff.2 fun w hw => by simpa using hincoming w hw
    rw [List.filter_append, htail, List.append_nil, finalTokens, List.filter_filter]
    simp
  conv_rhs => rw [← hall]
  exact (tokens_perm_withProvisional h).filter _

theorem finalTokens_withProvisional (hordered : t.tokens.Pairwise WordToken.orderingLe)
    (hincoming : ∀ w ∈ incoming, w.isFinal = false) (h : t.withProvisional incoming = .ok t') :
    t'.finalTokens = t.finalTokens := by
  have hsub : t.finalTokens.Sublist t'.tokens := by
    rw [tokens_withProvisional h]
    exact List.sublist_insertionSort (hordered.sublist List.filter_sublist)
      (List.sublist_append_left _ _)
  have hkept : t.finalTokens.Sublist t'.finalTokens := by
    have hf := hsub.filter (·.isFinal)
    rwa [show t.finalTokens.filter (·.isFinal) = t.finalTokens by simp [finalTokens]] at hf
  have hperm := finalTokens_perm_withProvisional hincoming h
  exact (hkept.eq_of_length hperm.length_eq.symm).symm

end Transcript

end OratoriaEngine
