import OratoriaEngine.Completion
import Mathlib.Algebra.Order.Field.Basic
import Mathlib.Data.Int.Interval
import Mathlib.Data.List.Induction
import Mathlib.Data.Rat.Cast.Order

/-!
# What the chunk ledger knows

A ledger is determined by the chunks offered to it: every verdict is about the chunks
offered before, and closing the ledger confirms exactly the numbers below the highest
one that never came, in maximal runs.
-/

namespace OratoriaEngine

/-- The largest number offered so far, `-1` before the first offer. -/
def highest (offers : List ℤ) : ℤ := offers.foldl max (-1)

theorem highest_concat (seen : List ℤ) (n : ℤ) :
    highest (seen ++ [n]) = max (highest seen) n := by
  simp [highest, List.foldl_append]

theorem neg_one_le_highest (offers : List ℤ) : -1 ≤ highest offers := by
  induction offers using List.reverseRecOn with
  | nil => exact le_rfl
  | append_singleton seen n ih =>
      rw [highest_concat]
      exact ih.trans (le_max_left _ _)

theorem le_highest {offers : List ℤ} {n : ℤ} (h : n ∈ offers) : n ≤ highest offers := by
  induction offers using List.reverseRecOn with
  | nil => cases h
  | append_singleton seen m ih =>
      rw [highest_concat]
      rcases List.mem_append.1 h with hseen | hlast
      · exact (ih hseen).trans (le_max_left _ _)
      · rw [List.mem_singleton.1 hlast]
        exact le_max_right _ _

theorem highest_mem {offers : List ℤ} (h0 : 0 ≤ highest offers) : highest offers ∈ offers := by
  induction offers using List.reverseRecOn with
  | nil => cases h0
  | append_singleton seen n ih =>
      rw [highest_concat] at h0 ⊢
      rcases max_cases (highest seen) n with ⟨hmax, -⟩ | ⟨hmax, -⟩
      · rw [hmax] at h0 ⊢
        exact List.mem_append_left _ (ih h0)
      · rw [hmax]
        exact List.mem_append_right _ (List.mem_singleton_self n)

/-- The largest number offered depends on which numbers were offered, not on how often. -/
theorem highest_congr {offers offers' : List ℤ} (h : ∀ n, n ∈ offers ↔ n ∈ offers') :
    highest offers = highest offers' := by
  have hle : ∀ {l l' : List ℤ}, (∀ n, n ∈ l → n ∈ l') → highest l ≤ highest l' := by
    intro l l' hsub
    by_cases h0 : 0 ≤ highest l
    · exact le_highest (hsub _ (highest_mem h0))
    · have hlow := neg_one_le_highest l'
      omega
  exact le_antisymm (hle fun n => (h n).1) (hle fun n => (h n).2)

/-- The verdict on a number, given the numbers offered before it. -/
structure VerdictOn (seen : List ℤ) (sequence : ℤ) (verdict : ChunkVerdict) : Prop where
  duplicate : verdict = .duplicate ↔ sequence ∈ seen
  accepted : verdict = .accepted ↔ sequence = highest seen + 1
  gapDetected : verdict = .gapDetected ↔ highest seen + 1 < sequence
  outOfOrder : verdict = .outOfOrder ↔ sequence ∉ seen ∧ sequence < highest seen + 1

namespace ChunkLedger

/-- The chunks offered one after the other, with the verdict on each. -/
def offerAll (l : ChunkLedger) : List ℤ → Except Failure (List ChunkVerdict × ChunkLedger)
  | [] => .ok ([], l)
  | sequence :: rest => do
      let (verdict, l) ← l.offer sequence
      let (verdicts, l) ← l.offerAll rest
      return (verdict :: verdicts, l)

/-- What the ledger remembers of the numbers offered to it. -/
structure Remembers (l : ChunkLedger) (offers : List ℤ) : Prop where
  accepted : ∀ n, n ∈ l.acceptedSet ↔ n ∈ offers
  highestSeen : l.highestSeen = highest offers
  ahead : ∀ n ∈ l.seenAhead, n ≤ l.highestSeen

theorem remembers_empty : empty.Remembers [] where
  accepted := by simp [empty]
  highestSeen := rfl
  ahead := by simp [empty]

/-- Nothing that arrived early lies past the highest number, so draining moves nothing. -/
theorem drainAhead_of_behind {l : ChunkLedger} (h : ∀ n ∈ l.seenAhead, n ≤ l.highestSeen) :
    l.drainAhead = l := by
  have hnext : l.highestSeen + 1 ∉ l.seenAhead := fun hmem => by
    have hle := h _ hmem
    omega
  unfold drainAhead
  cases l.seenAhead.card with
  | zero => rfl
  | succ fuel => exact if_neg hnext

theorem Remembers.accept {l : ChunkLedger} {offers : List ℤ} (h : l.Remembers offers) (n : ℤ) :
    (l.accept n).Remembers (offers ++ [n]) where
  accepted m := by
    change m ∈ insert n l.acceptedSet ↔ _
    rw [Finset.mem_insert, h.accepted, List.mem_append, List.mem_singleton, or_comm]
  highestSeen := by
    change max l.highestSeen n = _
    rw [highest_concat, h.highestSeen]
  ahead m hm := (h.ahead m hm).trans (le_max_left _ _)

theorem Remembers.ahead_insert {l : ChunkLedger} {offers : List ℤ} (h : l.Remembers offers)
    {n : ℤ} : ({ l with seenAhead := insert n l.seenAhead }.accept n).Remembers
      (offers ++ [n]) where
  accepted := (h.accept n).accepted
  highestSeen := (h.accept n).highestSeen
  ahead m hm := by
    rcases Finset.mem_insert.1 hm with rfl | hold
    · exact le_max_right _ _
    · exact (h.accept n).ahead m hold

theorem Remembers.offer {l : ChunkLedger} {seen : List ℤ} (h : l.Remembers seen) {n : ℤ}
    (h0 : 0 ≤ n) : ∃ v l', l.offer n = .ok (v, l') ∧ VerdictOn seen n v ∧
      l'.Remembers (seen ++ [n]) := by
  have hhigh := h.highestSeen
  rw [ChunkLedger.offer, if_neg (not_lt.2 h0)]
  by_cases hmem : n ∈ seen
  · have hle := le_highest hmem
    refine ⟨_, _, if_pos ((h.accepted n).2 hmem), ⟨by simpa, by simp; omega, by simp; omega,
      by simp [hmem]⟩, fun m => ?_, ?_, h.ahead⟩
    · have hm := h.accepted m
      simp only [List.mem_append, List.mem_singleton]
      constructor
      · exact fun hacc => Or.inl (hm.1 hacc)
      · rintro (hold | rfl)
        · exact hm.2 hold
        · exact hm.2 hmem
    · rw [highest_concat, max_eq_left hle]
      exact hhigh
  · rw [if_neg fun hacc => hmem ((h.accepted n).1 hacc)]
    by_cases hnext : n = l.highestSeen + 1
    · refine ⟨_, _, if_pos hnext, ⟨by simpa, by simp; omega, by simp; omega, by simp; omega⟩, ?_⟩
      rw [drainAhead_of_behind (h.accept n).ahead]
      exact h.accept n
    · rw [if_neg hnext]
      by_cases hgap : l.highestSeen + 1 < n
      · exact ⟨_, _, if_pos hgap, ⟨by simpa, by simp; omega, by simp; omega, by simp; omega⟩,
          h.ahead_insert⟩
      · exact ⟨_, _, if_neg hgap,
          ⟨by simpa, by simp; omega, by simp; omega, by simp [hmem]; omega⟩, h.accept n⟩

def Judged (seen : List ℤ) (offers : List ℤ) (verdicts : List ChunkVerdict) : Prop :=
  verdicts.length = offers.length ∧ ∀ before sequence rest, offers = before ++ sequence :: rest →
    ∃ verdict, verdicts[before.length]? = some verdict ∧
      VerdictOn (seen ++ before) sequence verdict

theorem Remembers.offerAll {l : ChunkLedger} {seen : List ℤ} (h : l.Remembers seen)
    {offers : List ℤ} (h0 : ∀ n ∈ offers, 0 ≤ n) :
    ∃ verdicts l', l.offerAll offers = .ok (verdicts, l') ∧ Judged seen offers verdicts ∧
      l'.Remembers (seen ++ offers) := by
  induction offers generalizing l seen with
  | nil => exact ⟨[], l, rfl, ⟨rfl, fun before n rest hsplit => by simp at hsplit⟩, by simpa⟩
  | cons n rest ih =>
      obtain ⟨v, l₁, hoffer, hv, h₁⟩ := h.offer (h0 n List.mem_cons_self)
      obtain ⟨verdicts, l₂, hrest, ⟨hlength, hjudged⟩, h₂⟩ :=
        ih h₁ fun m hm => h0 m (List.mem_cons_of_mem _ hm)
      refine ⟨v :: verdicts, l₂, ?_, ⟨congrArg Nat.succ hlength, fun before m later hsplit => ?_⟩,
        by simpa using h₂⟩
      · simp [ChunkLedger.offerAll, hoffer, hrest, bind, Except.bind, pure, Except.pure]
      · cases before with
        | nil =>
            obtain ⟨rfl, -⟩ := List.cons_eq_cons.1 hsplit
            exact ⟨v, rfl, by simpa using hv⟩
        | cons first before =>
            obtain ⟨rfl, hlater⟩ := List.cons_eq_cons.1 hsplit
            simpa using hjudged before m later hlater

end ChunkLedger

def SequenceGap.Covers (g : SequenceGap) (n : ℤ) : Prop := g.firstMissing ≤ n ∧ n ≤ g.lastMissing

/-- The gaps are the maximal runs of the numbers up to the highest that were not offered. -/
structure ConfirmsLoss (offers : List ℤ) (gaps : List SequenceGap) : Prop where
  nonempty : ∀ g ∈ gaps, g.firstMissing ≤ g.lastMissing
  ascending : gaps.Pairwise fun g g' => g.lastMissing + 1 < g'.firstMissing
  partition : ∀ n, 0 ≤ n ∧ n ≤ highest offers ↔ n ∈ offers ∨ ∃ g ∈ gaps, g.Covers n
  lost : ∀ g ∈ gaps, ∀ n, g.Covers n → n ∉ offers

namespace ConfirmsLoss

variable {offers : List ℤ} {gaps : List SequenceGap} {g g' : SequenceGap}

theorem apart (h : ConfirmsLoss offers gaps) (hg : g ∈ gaps) (hg' : g' ∈ gaps) (hne : g ≠ g') :
    g.lastMissing + 1 < g'.firstMissing ∨ g'.lastMissing + 1 < g.firstMissing := by
  have hpair : gaps.Pairwise fun x y =>
      x.lastMissing + 1 < y.firstMissing ∨ y.lastMissing + 1 < x.firstMissing :=
    h.ascending.imp Or.inl
  have : Std.Symm fun x y : SequenceGap =>
      x.lastMissing + 1 < y.firstMissing ∨ y.lastMissing + 1 < x.firstMissing :=
    ⟨fun _ _ => Or.symm⟩
  exact hpair.forall hg hg' hne

/-- A gap cannot be extended: a chunk that did arrive lies on either side of it. -/
theorem maximal (h : ConfirmsLoss offers gaps) (hg : g ∈ gaps) :
    (g.firstMissing = 0 ∨ g.firstMissing - 1 ∈ offers) ∧ g.lastMissing + 1 ∈ offers := by
  have hle := h.nonempty g hg
  have hrange : ∀ n, g.Covers n → 0 ≤ n ∧ n ≤ highest offers := fun n hn =>
    (h.partition n).2 (Or.inr ⟨g, hg, hn⟩)
  have hfirst := hrange g.firstMissing ⟨le_rfl, hle⟩
  have hlast := hrange g.lastMissing ⟨hle, le_rfl⟩
  have htop : g.lastMissing ≠ highest offers := fun heq =>
    h.lost g hg _ ⟨hle, le_rfl⟩ (heq ▸ highest_mem (by omega))
  constructor
  · by_cases h0 : g.firstMissing = 0
    · exact Or.inl h0
    · right
      rcases (h.partition (g.firstMissing - 1)).1 (by omega) with hmem | ⟨g', hg', hcovers⟩
      · exact hmem
      · unfold SequenceGap.Covers at hcovers
        have hne : g ≠ g' := fun heq => by subst heq; omega
        have hapart := h.apart hg hg' hne
        omega
  · rcases (h.partition (g.lastMissing + 1)).1 (by omega) with hmem | ⟨g', hg', hcovers⟩
    · exact hmem
    · unfold SequenceGap.Covers at hcovers
      have hne : g ≠ g' := fun heq => by subst heq; omega
      have hapart := h.apart hg hg' hne
      omega

end ConfirmsLoss

namespace ChunkLedger

theorem covers_collapseFrom {start previous : ℤ} (h : start ≤ previous) (rest : List ℤ) (n : ℤ) :
    (∃ g ∈ collapseFrom start previous rest, g.Covers n) ↔
      (start ≤ n ∧ n ≤ previous) ∨ n ∈ rest := by
  induction rest generalizing start previous with
  | nil => simp [collapseFrom, SequenceGap.Covers]
  | cons number rest ih =>
      unfold collapseFrom
      split_ifs with hnext
      · rw [ih (by omega), List.mem_cons, ← or_assoc]
        exact or_congr_left (by omega)
      · rw [List.exists_mem_cons_iff, ih le_rfl, List.mem_cons]
        exact or_congr_right (or_congr_left (by omega))

theorem covers_collapse (missing : List ℤ) (n : ℤ) :
    (∃ g ∈ collapse missing, g.Covers n) ↔ n ∈ missing := by
  cases missing with
  | nil => simp [collapse]
  | cons number rest =>
      rw [collapse, covers_collapseFrom le_rfl, List.mem_cons]
      exact or_congr_left (by omega)

/-- Every run of a sorted list starts where it is told or later, and is not empty. -/
theorem le_of_mem_collapseFrom {start previous : ℤ} {rest : List ℤ} (h : start ≤ previous)
    (hsorted : (previous :: rest).Pairwise (· < ·)) {g : SequenceGap}
    (hg : g ∈ collapseFrom start previous rest) :
    start ≤ g.firstMissing ∧ g.firstMissing ≤ g.lastMissing := by
  induction rest generalizing start previous with
  | nil =>
      rw [List.mem_singleton.1 hg]
      exact ⟨le_rfl, h⟩
  | cons number rest ih =>
      obtain ⟨hfirst, hrest⟩ := List.pairwise_cons.1 hsorted
      have hlt := hfirst number List.mem_cons_self
      unfold collapseFrom at hg
      split_ifs at hg with hnext
      · exact ih (by omega) hrest hg
      · rcases List.mem_cons.1 hg with rfl | hg
        · exact ⟨le_rfl, h⟩
        · have hle := ih le_rfl hrest hg
          omega

theorem ascending_collapseFrom {start previous : ℤ} {rest : List ℤ} (h : start ≤ previous)
    (hsorted : (previous :: rest).Pairwise (· < ·)) :
    (collapseFrom start previous rest).Pairwise
      fun g g' => g.lastMissing + 1 < g'.firstMissing := by
  induction rest generalizing start previous with
  | nil => exact List.pairwise_singleton _ _
  | cons number rest ih =>
      obtain ⟨hfirst, hrest⟩ := List.pairwise_cons.1 hsorted
      have hlt := hfirst number List.mem_cons_self
      unfold collapseFrom
      split_ifs with hnext
      · exact ih (by omega) hrest
      · refine List.pairwise_cons.2 ⟨fun g hg => ?_, ih le_rfl hrest⟩
        have hle := (le_of_mem_collapseFrom le_rfl hrest hg).1
        change previous + 1 < g.firstMissing
        omega

theorem mem_missing {l : ChunkLedger} {n : ℤ} :
    n ∈ l.missing ↔ (0 ≤ n ∧ n ≤ l.highestSeen) ∧ n ∉ l.acceptedSet := by
  simp only [missing, List.mem_filter, List.mem_map, List.mem_range, decide_eq_true_eq]
  constructor
  · rintro ⟨⟨k, hk, rfl⟩, hn⟩
    exact ⟨by rw [Int.ofNat_eq_natCast]; omega, hn⟩
  · rintro ⟨hrange, hn⟩
    exact ⟨⟨n.toNat, by omega, Int.toNat_of_nonneg hrange.1⟩, hn⟩

theorem sorted_missing (l : ChunkLedger) : l.missing.Pairwise (· < ·) := by
  have hrange : ((List.range (l.highestSeen + 1).toNat).map Int.ofNat).Pairwise (· < ·) :=
    List.pairwise_map.2 (List.pairwise_lt_range.imp Int.ofNat_lt.2)
  exact hrange.sublist List.filter_sublist

theorem length_missing {l : ChunkLedger} {offers : List ℤ} (h : l.Remembers offers)
    (h0 : ∀ n ∈ offers, 0 ≤ n) :
    (l.missing.length : ℤ) = highest offers + 1 - offers.toFinset.card := by
  have hnodup : l.missing.Nodup := (sorted_missing l).imp ne_of_lt
  have hset : l.missing.toFinset = Finset.Ico 0 (highest offers + 1) \ offers.toFinset := by
    ext n
    rw [List.mem_toFinset, mem_missing, h.accepted, h.highestSeen, Finset.mem_sdiff, Finset.mem_Ico,
      List.mem_toFinset, Int.lt_add_one_iff]
  have hsub : offers.toFinset ⊆ Finset.Ico 0 (highest offers + 1) := fun n hn => by
    have hmem := List.mem_toFinset.1 hn
    have hle := le_highest hmem
    exact Finset.mem_Ico.2 ⟨h0 n hmem, by omega⟩
  have hcard := Finset.card_sdiff_add_card_eq_card hsub
  have hlow := neg_one_le_highest offers
  rw [← hset, List.toFinset_card_of_nodup hnodup, Int.card_Ico] at hcard
  omega

theorem Remembers.confirmsLoss {l : ChunkLedger} {offers : List ℤ} (h : l.Remembers offers)
    (h0 : ∀ n ∈ offers, 0 ≤ n) : ConfirmsLoss offers l.finalize.gaps := by
  have hcovers : ∀ n, (∃ g ∈ l.finalize.gaps, g.Covers n) ↔
      (0 ≤ n ∧ n ≤ highest offers) ∧ n ∉ offers := fun n => by
    change (∃ g ∈ collapse l.missing, g.Covers n) ↔ _
    rw [covers_collapse, mem_missing, h.accepted, h.highestSeen]
  have hsorted := sorted_missing l
  constructor
  · change ∀ g ∈ collapse l.missing, _
    cases hmissing : l.missing with
    | nil => exact fun g hg => absurd hg List.not_mem_nil
    | cons number rest =>
        rw [hmissing] at hsorted
        exact fun g hg => (le_of_mem_collapseFrom le_rfl hsorted hg).2
  · change (collapse l.missing).Pairwise _
    cases hmissing : l.missing with
    | nil => exact List.Pairwise.nil
    | cons number rest =>
        rw [hmissing] at hsorted
        exact ascending_collapseFrom le_rfl hsorted
  · intro n
    rw [hcovers]
    by_cases hmem : n ∈ offers
    · have hle := le_highest hmem
      exact iff_of_true ⟨h0 n hmem, hle⟩ (Or.inl hmem)
    · simp [hmem]
  · exact fun g hg n hn => ((hcovers n).1 ⟨g, hg, hn⟩).2

theorem finalize_gaps_congr {l l' : ChunkLedger} {offers offers' : List ℤ}
    (h : l.Remembers offers) (h' : l'.Remembers offers') (heq : ∀ n, n ∈ offers' ↔ n ∈ offers) :
    l'.finalize.gaps = l.finalize.gaps := by
  have hset : l'.acceptedSet = l.acceptedSet := by
    ext n
    rw [h'.accepted, h.accepted, heq]
  have hhigh : l'.highestSeen = l.highestSeen := by
    rw [h'.highestSeen, h.highestSeen, highest_congr heq]
  simp [finalize, missing, hset, hhigh]

theorem lossRatio_finalize {l : ChunkLedger} {offers : List ℤ} (h : l.Remembers offers)
    (h0 : ∀ n ∈ offers, 0 ≤ n) :
    ∃ ratio : ℚ, lossRatio l.finalize.missingCount l.finalize.highestSeen = .fin ratio ∧
      0 ≤ ratio ∧ ratio < 1 := by
  have hcount := length_missing h h0
  rw [missingCount_finalize]
  change ∃ ratio : ℚ, lossRatio l.missing.length l.highestSeen = _ ∧ _
  rw [h.highestSeen]
  simp only [lossRatio]
  split_ifs with hexpected
  · exact ⟨0, rfl, le_rfl, zero_lt_one⟩
  · have hpos : (0 : ℚ) < ((highest offers + 1 : ℤ) : ℚ) := by exact_mod_cast not_le.1 hexpected
    have hcard : 0 < offers.toFinset.card :=
      Finset.card_pos.2 ⟨_, List.mem_toFinset.2 (highest_mem (by omega))⟩
    have hlt : (l.missing.length : ℤ) < highest offers + 1 := by omega
    refine ⟨_, rfl, div_nonneg (Nat.cast_nonneg _) hpos.le, (div_lt_one hpos).2 ?_⟩
    exact_mod_cast hlt

/-- What a ledger that was offered these numbers, with these verdicts, has to say. -/
structure Exact (offers : List ℤ) (verdicts : List ChunkVerdict) (l : ChunkLedger) : Prop where
  judged : Judged [] offers verdicts
  highestSeen : l.highestSeen = highest offers
  gaps : ConfirmsLoss offers l.finalize.gaps
  maximal : ∀ g ∈ l.finalize.gaps,
    (g.firstMissing = 0 ∨ g.firstMissing - 1 ∈ offers) ∧ g.lastMissing + 1 ∈ offers
  unordered : ∀ offers' verdicts' l', empty.offerAll offers' = .ok (verdicts', l') →
    (∀ n, n ∈ offers' ↔ n ∈ offers) → l'.finalize.gaps = l.finalize.gaps
  count : l.finalize.missingCount = highest offers + 1 - offers.toFinset.card
  ratio : ∃ ratio : ℚ, lossRatio l.finalize.missingCount l.finalize.highestSeen = .fin ratio ∧
    0 ≤ ratio ∧ ratio < 1

/-- A fresh ledger is exactly what was offered to it. -/
theorem exact_offerAll {offers : List ℤ} (h0 : ∀ n ∈ offers, 0 ≤ n) :
    ∃ verdicts l, empty.offerAll offers = .ok (verdicts, l) ∧ Exact offers verdicts l := by
  obtain ⟨verdicts, l, hoffers, hjudged, hl⟩ := remembers_empty.offerAll h0
  have hgaps := hl.confirmsLoss h0
  refine ⟨verdicts, l, hoffers, hjudged, hl.highestSeen, hgaps, fun g hg => hgaps.maximal hg, ?_,
    ?_, lossRatio_finalize hl h0⟩
  · intro offers' verdicts' l' hoffers' heq
    obtain ⟨verdicts'', l'', hagain, -, hl'⟩ :=
      remembers_empty.offerAll fun n hn => h0 n ((heq n).1 hn)
    rw [hagain] at hoffers'
    cases hoffers'
    exact finalize_gaps_congr hl hl' heq
  · rw [missingCount_finalize]
    exact length_missing hl h0

/-- A missing prefix, a redelivery, and a gap that a late chunk splits in two. -/
theorem exact_offerAll_of_late :
    ∃ verdicts l, empty.offerAll [2, 2, 7, 5] = .ok (verdicts, l) ∧
      Exact [2, 2, 7, 5] verdicts l := exact_offerAll (by decide)

example : (empty.offerAll [2, 2, 7, 5]).map (fun r => (r.1, r.2.finalize.gaps)) =
    .ok ([.gapDetected, .duplicate, .gapDetected, .outOfOrder],
      [⟨0, 1⟩, ⟨3, 4⟩, ⟨6, 6⟩]) := by decide

end ChunkLedger

end OratoriaEngine
