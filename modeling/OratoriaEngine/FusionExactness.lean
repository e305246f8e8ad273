import Mathlib.Data.List.Perm.Basic
import OratoriaEngine.Cooccurrence
import OratoriaEngine.Lib.KeyOrder

/-!
# What fusion finds

The pairs of finalized events whose distance is within the window, in the order of the speech
event and then of the visual one, each recorded once. The order the events came in leaves no trace.
-/

namespace OratoriaEngine

/-- How long after the end of one span the other starts, if it does. -/
def Interval.distance (i j : Interval) : ℤ :=
  max 0 (max (j.start.ms - i.stop.ms) (i.start.ms - j.stop.ms))

theorem Interval.gapTo_eq_distance (i j : Interval) : i.gapTo j = i.distance j := by
  have hi := i.ordered
  have hj := j.ordered
  unfold gapTo distance
  split_ifs with hoverlap hbefore
  · rw [overlaps_iff] at hoverlap
    omega
  · omega
  · rw [overlaps_iff] at hoverlap
    omega

def SpeechEvent.timed (e : SpeechEvent) : TimedEvent := ⟨e.id, e.interval⟩

def VisualEvent.timed (e : VisualEvent) : TimedEvent := ⟨e.id, e.interval⟩

/-- Start, end and identifier. -/
def TimedEvent.key (e : TimedEvent) : ℤ ×ₗ ℤ ×ₗ String :=
  toLex (e.interval.start.ms, toLex (e.interval.stop.ms, e.id.value))

theorem TimedEvent.orderingLe_iff (a b : TimedEvent) : orderingLe a b ↔ a.key ≤ b.key := by
  rw [orderingLe, key, key, Prod.Lex.toLex_le_toLex, Prod.Lex.toLex_le_toLex]

/-- The distance of the two events does not exceed the width of the window. -/
def Within (window : FusionWindow) (pair : TimedEvent × TimedEvent) : Bool :=
  decide (pair.1.interval.distance pair.2.interval ≤ window.widthMs)

/-- The co-occurrence is the record of the pair. -/
structure Records (window : FusionWindow) (pair : TimedEvent × TimedEvent)
    (found : MultimodalCooccurrence) : Prop where
  speech : found.speechEventId = pair.1.id
  visual : found.visualEventId = pair.2.id
  distance : found.temporalDistanceMs = pair.1.interval.distance pair.2.interval
  window : found.window = window

section

variable (window : FusionWindow)

theorem correlateOne_forall₂ (speechEvent : TimedEvent) (visual : List TimedEvent) :
    ∃ found, correlateOne speechEvent visual window = .ok found ∧
      List.Forall₂ (Records window)
        ((visual.map fun visualEvent => (speechEvent, visualEvent)).filter (Within window))
        found := by
  obtain ⟨found, hfound⟩ := correlateOne_isOk speechEvent visual window
  refine ⟨found, hfound, ?_⟩
  rw [List.filter_map, List.forall₂_map_left_iff]
  have hwithin : (Within window ∘ fun visualEvent => (speechEvent, visualEvent)) =
      fun visualEvent => window.admits (speechEvent.interval.gapTo visualEvent.interval) := by
    funext visualEvent
    rw [Interval.gapTo_eq_distance]
    rfl
  rw [hwithin]
  apply (Except.mapM_eq_ok hfound).imp
  intro visualEvent record hrecord
  unfold MultimodalCooccurrence.of at hrecord
  split_ifs at hrecord
  cases hrecord
  exact ⟨rfl, rfl, Interval.gapTo_eq_distance _ _, rfl⟩

/-- Correlation records each pair within the window once, in the order of both lists. -/
theorem correlate_forall₂ (speech visual : List TimedEvent) :
    ∃ found, correlate speech visual window = .ok found ∧
      List.Forall₂ (Records window) ((ordered speech ×ˢ ordered visual).filter (Within window))
        found := by
  obtain ⟨groups, hgroups⟩ := Except.mapM_isOk (l := ordered speech) fun e _ =>
    correlateOne_isOk e (ordered visual) window
  refine ⟨groups.flatten, by rw [correlate, hgroups]; rfl, ?_⟩
  have hforall := Except.mapM_eq_ok hgroups
  generalize ordered speech = sorted at hforall
  clear hgroups
  induction hforall with
  | nil => exact .nil
  | @cons e group sorted groups hgroup _ ih =>
      obtain ⟨found, hfound, hrecords⟩ := correlateOne_forall₂ window e (ordered visual)
      cases hfound.symm.trans hgroup
      rw [List.product_cons, List.filter_append, List.flatten_cons]
      exact List.rel_append hrecords ih

theorem found_unique {pairs pairs' : List (TimedEvent × TimedEvent)}
    {found found' : List MultimodalCooccurrence} (h : List.Forall₂ (Records window) pairs found)
    (h' : List.Forall₂ (Records window) pairs' found')
    (hkeys : pairs'.map (Prod.map TimedEvent.key TimedEvent.key) =
      pairs.map (Prod.map TimedEvent.key TimedEvent.key)) : found' = found := by
  induction h generalizing pairs' found' with
  | nil =>
      rw [List.map_nil, List.map_eq_nil_iff] at hkeys
      subst hkeys
      cases h'
      rfl
  | cons hrecord _ ih =>
      cases h' with
      | nil => simp at hkeys
      | cons hrecord' hrest =>
          rw [List.map_cons, List.map_cons, List.cons.injEq] at hkeys
          obtain ⟨hkey, hkeys⟩ := hkeys
          simp only [Prod.map, TimedEvent.key, Prod.mk.injEq, EmbeddingLike.apply_eq_iff_eq] at hkey
          obtain ⟨⟨hstart, hstop, hid⟩, hstart', hstop', hid'⟩ := hkey
          rw [ih hrest hkeys]
          congr 1
          apply MultimodalCooccurrence.ext
          · rw [hrecord.speech, hrecord'.speech, EventId.ext_value hid]
          · rw [hrecord.visual, hrecord'.visual, EventId.ext_value hid']
          · rw [hrecord.distance, hrecord'.distance, Interval.distance, Interval.distance, hstart,
              hstop, hstart', hstop']
          · rw [hrecord.window, hrecord'.window]

end

/-- What was found records the pairs of finalized events within the window, each once, in the
order of their keys. -/
structure FusesExactly (speech : List SpeechEvent) (visual : List VisualEvent)
    (window : FusionWindow) (found : List MultimodalCooccurrence) (s : List SpeechEvent)
    (v : List VisualEvent) : Prop where
  speech : s.Perm (speech.filter (·.isFinal))
  visual : v.Perm (visual.filter (·.isFinal))
  speechOrder : s.Pairwise fun a b => a.timed.key ≤ b.timed.key
  visualOrder : v.Pairwise fun a b => a.timed.key ≤ b.timed.key
  records : List.Forall₂ (fun pair => Records window (pair.1.timed, pair.2.timed))
    ((s ×ˢ v).filter fun pair => Within window (pair.1.timed, pair.2.timed)) found
  lexicographic : (s.map fun e => e.timed.key).Nodup →
    ((s ×ˢ v).filter fun pair => Within window (pair.1.timed, pair.2.timed)).Pairwise
      fun p q => toLex (p.1.timed.key, p.2.timed.key) ≤ toLex (q.1.timed.key, q.2.timed.key)

def inOrder {α : Type} (timed : α → TimedEvent) (l : List α) : List α :=
  l.insertionSort fun a b => TimedEvent.orderingLe (timed a) (timed b)

theorem inOrder_sorted {α : Type} (timed : α → TimedEvent) (l : List α) :
    (inOrder timed l).Pairwise fun a b => (timed a).key ≤ (timed b).key :=
  KeyOrder.pairwise_insertionSort (fun a b => TimedEvent.orderingLe_iff (timed a) (timed b)) l

theorem ordered_map_timed {α : Type} (timed : α → TimedEvent) (l : List α) :
    ordered (l.map timed) = (inOrder timed l).map timed :=
  (List.map_insertionSort (fun a b => TimedEvent.orderingLe (timed a) (timed b))
    TimedEvent.orderingLe timed l fun _ _ _ _ => Iff.rfl).symm

theorem map_key_ordered_of_perm {α : Type} (timed : α → TimedEvent) {l l' : List α}
    (h : l'.Perm l) :
    (ordered (l'.map timed)).map TimedEvent.key = (ordered (l.map timed)).map TimedEvent.key :=
  KeyOrder.map_key_insertionSort TimedEvent.orderingLe_iff (h.map timed)

theorem fuse_forall₂ (speech : List SpeechEvent) (visual : List VisualEvent)
    (window : FusionWindow) :
    ∃ found, fuse speech visual window = .ok found ∧ List.Forall₂ (Records window)
      ((ordered ((speech.filter (·.isFinal)).map SpeechEvent.timed) ×ˢ
        ordered ((visual.filter (·.isFinal)).map VisualEvent.timed)).filter (Within window))
      found := by
  dsimp only [fuse]
  split_ifs with hempty
  · refine ⟨[], rfl, ?_⟩
    have hnone : ordered ((speech.filter (·.isFinal)).map SpeechEvent.timed) ×ˢ
        ordered ((visual.filter (·.isFinal)).map VisualEvent.timed) = [] := by
      rw [Bool.or_eq_true, List.isEmpty_iff, List.isEmpty_iff, List.map_eq_nil_iff,
        List.map_eq_nil_iff] at hempty
      rcases hempty with hspeech | hvisual
      · rw [hspeech]
        rfl
      · rw [hvisual]
        exact List.product_nil _
    rw [hnone]
    exact .nil
  · exact correlate_forall₂ window _ _

/-- Fusion finds exactly the pairs of finalized events within the window, in the order of their
keys, whatever the order the events came in. -/
theorem fuse_exact (speech : List SpeechEvent) (visual : List VisualEvent)
    (window : FusionWindow) :
    ∃ found s v, fuse speech visual window = .ok found ∧
      FusesExactly speech visual window found s v ∧
        ∀ speech' visual', speech'.Perm speech → visual'.Perm visual →
          fuse speech' visual' window = .ok found := by
  obtain ⟨found, hfound, hrecords⟩ := fuse_forall₂ speech visual window
  refine ⟨found, inOrder SpeechEvent.timed (speech.filter (·.isFinal)),
    inOrder VisualEvent.timed (visual.filter (·.isFinal)), hfound,
    ⟨List.perm_insertionSort _ _, List.perm_insertionSort _ _, inOrder_sorted _ _,
      inOrder_sorted _ _, ?_, ?_⟩, ?_⟩
  · rw [ordered_map_timed, ordered_map_timed, ← KeyOrder.map_product, List.filter_map,
      List.forall₂_map_left_iff] at hrecords
    exact hrecords
  · intro hnodup
    have hstrict := (inOrder_sorted SpeechEvent.timed (speech.filter (·.isFinal))).and
      (List.pairwise_map.1 hnodup)
    apply List.Pairwise.filter
    exact KeyOrder.pairwise_product (hstrict.imp fun h => lt_of_le_of_ne h.1 h.2)
      (inOrder_sorted _ _)
  · intro speech' visual' hspeech hvisual
    obtain ⟨found', hfound', hrecords'⟩ := fuse_forall₂ speech' visual' window
    rw [hfound', found_unique window hrecords hrecords' ?_]
    have hwithin : Within window = (fun keys : (ℤ ×ₗ ℤ ×ₗ String) × (ℤ ×ₗ ℤ ×ₗ String) =>
        decide (max 0 (max ((ofLex keys.2).1 - (ofLex (ofLex keys.1).2).1)
          ((ofLex keys.1).1 - (ofLex (ofLex keys.2).2).1)) ≤ window.widthMs)) ∘
        Prod.map TimedEvent.key TimedEvent.key := rfl
    rw [hwithin, ← List.filter_map, ← List.filter_map, KeyOrder.map_product,
      KeyOrder.map_product, map_key_ordered_of_perm _ (hspeech.filter _),
      map_key_ordered_of_perm _ (hvisual.filter _)]

end OratoriaEngine
