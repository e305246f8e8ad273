import OratoriaEngine.Corpus.Elan
import OratoriaEngine.Corpus.Report
import OratoriaEngine.Lib.Decides

/-!
# The steps of the ELAN reader

What each step of the reader accepts and what it makes of it, and with which exception it refuses
the rest.
-/

namespace OratoriaEngine.Corpus

open Except Xml

def TimesReadable (root : Element) : Prop :=
  ∀ e ∈ slotTexts root, (Literal.int? e.2.toList).isSome

def slotsOf (root : Element) : Dict String ℤ :=
  Dict.empty.setAll ((slotTexts root).filterMap fun e =>
    (Literal.int? e.2.toList).map fun time => (e.1, time))

theorem foldlM_readTime (l : List (String × String)) (d : Dict String ℤ) :
    ((∀ e ∈ l, (Literal.int? e.2.toList).isSome) ∧
        l.foldlM (fun slots e => do return slots.set e.1 (← readTime e.2)) d =
          .ok (d.setAll (l.filterMap fun e =>
            (Literal.int? e.2.toList).map fun time => (e.1, time)))) ∨
      (¬(∀ e ∈ l, (Literal.int? e.2.toList).isSome) ∧
        ∃ m, l.foldlM (fun slots e => do return slots.set e.1 (← readTime e.2)) d =
          .error (.valueError m)) := by
  induction l generalizing d with
  | nil => exact Or.inl ⟨by simp, rfl⟩
  | cons e l ih =>
      rw [List.foldlM_cons]
      cases htime : Literal.int? e.2.toList with
      | none =>
          refine Or.inr ⟨fun h => ?_, _, by simp only [readTime, htime]; rfl⟩
          simpa [htime] using h e List.mem_cons_self
      | some time =>
          have hstep : (do return d.set e.1 (← readTime e.2) : Except CorpusError _) =
              .ok (d.set e.1 time) := by
            simp only [readTime, htime]
            rfl
          rw [hstep, ok_bind]
          simpa [htime] using ih (d.set e.1 time)

theorem timeSlots_spec (root : Element) :
    Decides (TimesReadable root) (· = slotsOf root) CorpusError.valueError (timeSlots root) := by
  rcases foldlM_readTime (slotTexts root) Dict.empty with ⟨hall, heq⟩ | ⟨hnot, herror⟩
  · exact Or.inl ⟨hall, _, heq, rfl⟩
  · exact Or.inr ⟨hnot, herror⟩

def propertyText (root : Element) (name : String) : String :=
  ((propertiesOf root).get? name).getD ""

theorem requiredProperty_spec (root : Element) (name fileName : String) :
    Decides (propertyText root name ≠ "") (· = propertyText root name) CorpusError.elanError
      (requiredProperty (propertiesOf root) name fileName) := by
  by_cases h : propertyText root name = ""
  · exact Or.inr ⟨fun hne => hne h, _, if_pos h⟩
  · exact Or.inl ⟨h, _, if_neg h, rfl⟩

theorem isBlank_stripText {text : String} (h : stripText text ≠ "") :
    isBlank (stripText text) = false := by
  have hne : strip text.toList ≠ [] := by
    intro hnil
    apply h
    rw [stripText, hnil, String.ofList_nil]
  have hhead : ((text.toList.dropWhile isSpace).reverse.dropWhile isSpace) ≠ [] := by
    intro hnil
    apply hne
    rw [strip, hnil, List.reverse_nil]
  obtain ⟨c, rest, hcons⟩ := List.exists_cons_of_ne_nil hhead
  have hvisible : isSpace c = false := by
    have hnot := List.head_dropWhile_not isSpace hhead
    simpa only [hcons, List.head_cons] using hnot
  have hmem : c ∈ strip text.toList := by
    rw [strip, hcons, List.mem_reverse]
    exact List.mem_cons_self
  rw [isBlank, stripText, String.toList_ofList, List.all_eq_false]
  exact ⟨c, hmem, by rw [hvisible]; decide⟩

theorem isBlank_propertyText {root : Element} {name : String} (h : propertyText root name ≠ "") :
    isBlank (propertyText root name) = false := by
  have hstripped : ∃ text, propertyText root name = stripText text := by
    rw [propertyText, propertiesOf]
    rcases Dict.get?_setAll_cases Dict.empty ((root.findAll ["HEADER", "PROPERTY"]).filterMap
      fun element => (element.get "NAME").map fun name => (name, stripText (element.text.getD "")))
      name with ⟨value, hmem, hget⟩ | ⟨-, hget⟩
    · obtain ⟨element, -, hentry⟩ := List.mem_filterMap.1 hmem
      obtain ⟨_, -, heq⟩ := Option.map_eq_some_iff.1 hentry
      exact ⟨element.text.getD "", by rw [hget]; exact (congrArg Prod.snd heq).symm⟩
    · exact ⟨"", by rw [hget]; rfl⟩
  obtain ⟨text, heq⟩ := hstripped
  rw [heq] at h ⊢
  exact isBlank_stripText h

/-- The element has an id and refers to two slots that exist. -/
def Anchored (slots : Dict String ℤ) (element : Element) : Prop :=
  (element.get "ANNOTATION_ID").isSome ∧ (slotTime slots element "TIME_SLOT_REF1").isSome ∧
    (slotTime slots element "TIME_SLOT_REF2").isSome

def itemOf (slots : Dict String ℤ) (element : Element) : AlignedAnnotation :=
  ⟨(element.get "ANNOTATION_ID").getD "", (slotTime slots element "TIME_SLOT_REF1").getD 0,
    (slotTime slots element "TIME_SLOT_REF2").getD 0, annotationValue element⟩

theorem alignedItem_spec (tierId : String) (slots : Dict String ℤ) (element : Element) :
    Decides (Anchored slots element) (· = itemOf slots element) CorpusError.elanError
      (alignedItem tierId slots element) := by
  by_cases h : Anchored slots element
  · obtain ⟨hid, hstart, hend⟩ := h
    refine Or.inl ⟨⟨hid, hstart, hend⟩, _, ?_, rfl⟩
    obtain ⟨annotationId, hid⟩ := Option.isSome_iff_exists.1 hid
    obtain ⟨startMs, hstart⟩ := Option.isSome_iff_exists.1 hstart
    obtain ⟨endMs, hend⟩ := Option.isSome_iff_exists.1 hend
    simp only [alignedItem, itemOf, hid, hstart, hend, Option.getD_some]
  · refine Or.inr ⟨h, ?_⟩
    unfold Anchored at h
    unfold alignedItem
    split
    · simp_all
    · exact ⟨_, rfl⟩

variable (root : Element) (tierId : String) (slots : Dict String ℤ)

def itemsOf : List AlignedAnnotation :=
  ((annotationsOf root tierId "ALIGNABLE_ANNOTATION").map (itemOf slots)).insertionSort
    AlignedAnnotation.orderingLe

def TierAnchored : Prop :=
  ∀ element ∈ annotationsOf root tierId "ALIGNABLE_ANNOTATION", Anchored slots element

theorem aligned_spec :
    Decides (TierAnchored root tierId slots) (· = itemsOf root tierId slots)
      CorpusError.elanError (aligned root tierId slots) := by
  rcases decides_mapM fun element _ => alignedItem_spec tierId slots element with
    ⟨h, found, hfound, hitems⟩ | ⟨h, m, herror⟩
  · refine Or.inl ⟨h, _, ?_, rfl⟩
    obtain rfl := eq_map_of_forall₂ hitems
    rw [aligned, hfound]
    rfl
  · refine Or.inr ⟨h, m, ?_⟩
    rw [aligned, herror]
    rfl

theorem itemsOf_perm :
    (itemsOf root tierId slots).Perm
      ((annotationsOf root tierId "ALIGNABLE_ANNOTATION").map (itemOf slots)) :=
  List.perm_insertionSort _ _

theorem exists_slot_of_mem_itemsOf (h : TierAnchored root tierId slots) {item : AlignedAnnotation}
    (hitem : item ∈ itemsOf root tierId slots) : item.endMs ∈ slots.values := by
  obtain ⟨element, helement, rfl⟩ := List.mem_map.1 ((itemsOf_perm root tierId slots).mem_iff.1
    hitem)
  obtain ⟨endMs, hend⟩ := Option.isSome_iff_exists.1 (h element helement).2.2
  simp only [itemOf, hend, Option.getD_some]
  exact Dict.mem_values_of_get? hend

def AlignedAnnotation.Lasts (item : AlignedAnnotation) : Prop :=
  0 ≤ item.startMs ∧ item.startMs < item.endMs

theorem interval_cases (startMs endMs : ℤ) :
    (∃ h : 0 ≤ startMs ∧ startMs < endMs,
        Interval.of startMs endMs = .ok ⟨startMs, endMs, h.1, h.2⟩) ∨
      (¬(0 ≤ startMs ∧ startMs < endMs) ∧
        ∃ m, Interval.of startMs endMs = .error (.schemaViolation m)) := by
  unfold Interval.of
  split_ifs with hstart hend
  · exact Or.inr ⟨fun h => absurd h.1 (not_le.2 hstart), _, rfl⟩
  · exact Or.inr ⟨fun h => absurd h.2 (not_lt.2 hend), _, rfl⟩
  · exact Or.inl ⟨⟨not_lt.1 hstart, not_le.1 hend⟩, rfl⟩

structure WordFrom (item : AlignedAnnotation) (w : Word) : Prop where
  text : w.text = item.value
  startMs : w.interval.startMs = item.startMs
  endMs : w.interval.endMs = item.endMs

theorem toWord_spec (item : AlignedAnnotation) :
    Decides (item.Lasts ∧ isBlank item.value = false) (WordFrom item)
      CorpusError.schemaViolation (toWord item) := by
  rcases interval_cases item.startMs item.endMs with ⟨hlasts, hinterval⟩ | ⟨hlasts, m, hinterval⟩
  · simp only [toWord, hinterval, ok_bind, Word.of]
    split_ifs with hblank
    · exact Or.inr ⟨fun h => by simp [h.2] at hblank, _, rfl⟩
    · exact Or.inl ⟨⟨hlasts, Bool.eq_false_of_not_eq_true hblank⟩, _, rfl, rfl, rfl, rfl⟩
  · simp only [toWord, hinterval, error_bind]
    exact Or.inr ⟨fun h => hlasts h.1, m, rfl⟩

def RoleGiven (value : Option String) (role : Option ContextualRole) : Prop :=
  (value.getD "" = "" ∧ role = none) ∨ ∃ r, role = some r ∧ value = some r.value

theorem contextualRole_value_inj {r r' : ContextualRole} : r.value = r'.value ↔ r = r' := by
  constructor
  · cases r <;> cases r' <;> simp [ContextualRole.value]
  · exact congrArg _

theorem contextualRole_value_ne (r : ContextualRole) : r.value ≠ "" := by
  cases r <;> simp [ContextualRole.value]

theorem RoleGiven.unique {value : Option String} {role role' : Option ContextualRole}
    (h : RoleGiven value role) (h' : RoleGiven value role') : role = role' := by
  rcases h with ⟨hempty, rfl⟩ | ⟨r, rfl, rfl⟩
  · rcases h' with ⟨-, rfl⟩ | ⟨r', -, rfl⟩
    · rfl
    · exact absurd hempty (contextualRole_value_ne r')
  · rcases h' with ⟨hempty, -⟩ | ⟨r', rfl, heq⟩
    · exact absurd hempty (contextualRole_value_ne r)
    · rw [contextualRole_value_inj.1 (Option.some.inj heq)]

theorem toRole_cases (fileName : String) (value : Option String) :
    (∃ role, RoleGiven value role ∧ toRole fileName value = .ok role) ∨
      ((¬∃ role, RoleGiven value role) ∧ ∃ m, toRole fileName value = .error (.elanError m)) := by
  cases value with
  | none => exact Or.inl ⟨none, Or.inl ⟨rfl, rfl⟩, rfl⟩
  | some value =>
      by_cases hempty : value = ""
      · exact Or.inl ⟨none, Or.inl ⟨hempty, rfl⟩, if_pos hempty⟩
      · simp only [toRole, if_neg hempty]
        cases hfind : contextualRoles.find? fun role => role.value = value with
        | some role =>
            have hvalue : role.value = value := by simpa using List.find?_some hfind
            exact Or.inl ⟨some role, Or.inr ⟨role, rfl, congrArg some hvalue.symm⟩, rfl⟩
        | none =>
            refine Or.inr ⟨?_, _, rfl⟩
            rintro ⟨role, ⟨hnone, -⟩ | ⟨r, -, heq⟩⟩
            · exact hempty hnone
            · have hnot := List.find?_eq_none.1 hfind r (by cases r <;> decide)
              exact hnot (by simpa using (Option.some.inj heq).symm)

theorem toEventType_cases (fileName value : String) :
    (∃ c : SpeechEventType, c.value = value ∧ toEventType fileName value = .ok c) ∨
      ((¬∃ c : SpeechEventType, c.value = value) ∧
        ∃ m, toEventType fileName value = .error (.elanError m)) := by
  simp only [toEventType]
  cases hfind : speechEventTypes.find? fun event => event.value = value with
  | some c => exact Or.inl ⟨c, by simpa using List.find?_some hfind, rfl⟩
  | none =>
      refine Or.inr ⟨?_, _, rfl⟩
      rintro ⟨c, hc⟩
      have hnot := List.find?_eq_none.1 hfind c (by cases c <;> decide)
      exact hnot (by simpa using hc)

theorem disfluency_cases (eventType : SpeechEventType) (interval : Interval)
    {annotatorId : String} (hannotator : isBlank annotatorId = false) (rawText : String)
    (role : Option ContextualRole) (note : String) :
    (∃ h : RoleRules eventType rawText role,
        DisfluencyAnnotation.of eventType interval annotatorId rawText role 1 note =
          .ok ⟨eventType, interval, annotatorId, rawText, role, 1, note, hannotator,
            ⟨zero_le_one, le_rfl⟩, h⟩) ∨
      (¬RoleRules eventType rawText role ∧
        ∃ m, DisfluencyAnnotation.of eventType interval annotatorId rawText role 1 note =
          .error (.schemaViolation m)) := by
  by_cases hroles : RoleRules eventType rawText role
  · refine Or.inl ⟨hroles, ?_⟩
    simp [ DisfluencyAnnotation.of, hannotator, hroles]
  · refine Or.inr ⟨hroles, DisfluencyAnnotation.roleRefusal eventType rawText, ?_⟩
    simp [ DisfluencyAnnotation.of, hannotator, hroles]

/-- What the item of a disfluency must be like: a published class, a published role or none, a span,
and text and role as the class asks for them. -/
def SoundDisfluency (roles texts : Dict String String) (item : AlignedAnnotation) : Prop :=
  ∃ eventType : SpeechEventType, ∃ role, eventType.value = item.value ∧
    RoleGiven (roles.get? item.annotationId) role ∧ item.Lasts ∧
      RoleRules eventType ((texts.get? item.annotationId).getD "") role

structure RecordFrom (annotatorId : String) (roles texts notes : Dict String String)
    (item : AlignedAnnotation) (a : DisfluencyAnnotation) : Prop where
  eventType : a.eventType.value = item.value
  startMs : a.interval.startMs = item.startMs
  endMs : a.interval.endMs = item.endMs
  annotatorId : a.annotatorId = annotatorId
  rawText : a.rawText = (texts.get? item.annotationId).getD ""
  contextRole : RoleGiven (roles.get? item.annotationId) a.contextRole
  note : a.note = (notes.get? item.annotationId).getD ""

theorem toDisfluency_spec (fileName : String) {annotatorId : String}
    (hannotator : isBlank annotatorId = false) (roles texts notes : Dict String String)
    (item : AlignedAnnotation) :
    Decides (SoundDisfluency roles texts item) (RecordFrom annotatorId roles texts notes item)
      CorpusError.elanError (toDisfluency fileName annotatorId roles texts notes item) := by
  rcases toEventType_cases fileName item.value with ⟨c, hc, hclass⟩ | ⟨hc, m, hclass⟩
  · rcases toRole_cases fileName (roles.get? item.annotationId) with
      ⟨role, hgiven, hrole⟩ | ⟨hgiven, m, hrole⟩
    · rcases interval_cases item.startMs item.endMs with
        ⟨hlasts, hinterval⟩ | ⟨hlasts, m, hinterval⟩
      · rcases disfluency_cases c ⟨item.startMs, item.endMs, hlasts.1, hlasts.2⟩ hannotator
          ((texts.get? item.annotationId).getD "") role
          ((notes.get? item.annotationId).getD "") with ⟨hroles, hrecord⟩ | ⟨hroles, m, hrecord⟩
        · left
          have heq : toDisfluency fileName annotatorId roles texts notes item =
              DisfluencyAnnotation.of c ⟨item.startMs, item.endMs, hlasts.1, hlasts.2⟩ annotatorId
                ((texts.get? item.annotationId).getD "") role 1
                ((notes.get? item.annotationId).getD "") := by
            simp only [toDisfluency, hclass, hrole, hinterval, ok_bind, hrecord, translated]
          exact ⟨⟨c, role, hc, hgiven, hlasts, hroles⟩, _, heq.trans hrecord,
            ⟨hc, rfl, rfl, rfl, rfl, hgiven, rfl⟩⟩
        · right
          constructor
          · rintro ⟨c', role', hc', hgiven', -, hroles'⟩
            rw [eventType_value_inj.1 (hc'.trans hc.symm), hgiven'.unique hgiven] at hroles'
            exact hroles hroles'
          · simp only [toDisfluency, hclass, hrole, hinterval, ok_bind, hrecord, translated]
            exact ⟨_, rfl⟩
      · right
        constructor
        · rintro ⟨-, -, -, -, hlasts', -⟩
          exact hlasts hlasts'
        · simp only [toDisfluency, hclass, hrole, hinterval, ok_bind, error_bind, translated]
          exact ⟨_, rfl⟩
    · right
      constructor
      · rintro ⟨-, role, -, hgiven', -⟩
        exact hgiven ⟨role, hgiven'⟩
      · simp only [toDisfluency, hclass, hrole, ok_bind, error_bind]
        exact ⟨m, rfl⟩
  · right
    constructor
    · rintro ⟨c, -, hc', -⟩
      exact hc ⟨c, hc'⟩
    · simp only [toDisfluency, hclass, error_bind]
      exact ⟨m, rfl⟩

theorem foldl_max_ge (l : List ℤ) (a : ℤ) : a ≤ l.foldl max a ∧ ∀ b ∈ l, b ≤ l.foldl max a := by
  induction l generalizing a with
  | nil => simp
  | cons b l ih =>
      obtain ⟨hfirst, hrest⟩ := ih (max a b)
      refine ⟨(le_max_left a b).trans hfirst, fun c hc => ?_⟩
      rcases List.mem_cons.1 hc with rfl | hc
      · exact (le_max_right a c).trans hfirst
      · exact hrest c hc

theorem foldl_max_mem (l : List ℤ) (a : ℤ) : l.foldl max a = a ∨ l.foldl max a ∈ l := by
  induction l generalizing a with
  | nil => exact Or.inl rfl
  | cons b l ih =>
      rcases ih (max a b) with h | h
      · rcases max_choice a b with hmax | hmax
        · exact Or.inl (h.trans hmax)
        · exact Or.inr (List.mem_cons.2 (Or.inl (h.trans hmax)))
      · exact Or.inr (List.mem_cons_of_mem b h)

def Lasting (slots : Dict String ℤ) : Prop := ∃ time ∈ slots.values, 0 < time

theorem duration_spec {slots : Dict String ℤ} {words : List Word}
    {disfluencies : List DisfluencyAnnotation}
    (hwords : ∀ w ∈ words, w.interval.endMs ∈ slots.values)
    (hdisfluencies : ∀ a ∈ disfluencies, a.interval.endMs ∈ slots.values) :
    Decides (Lasting slots)
      (fun durationMs => 0 < durationMs ∧ ∀ a ∈ disfluencies, a.interval.endMs ≤ durationMs)
      CorpusError.elanError (duration slots words disfluencies) := by
  generalize hlatest : slots.values.foldl max (slots.values.headD 0) = latest
  generalize hends : words.map (·.interval.endMs) ++ disfluencies.map (·.interval.endMs) = ends
  have hslots : ∀ time ∈ slots.values, time ≤ latest :=
    hlatest ▸ (foldl_max_ge slots.values (slots.values.headD 0)).2
  have hslot : latest = 0 ∨ latest ∈ slots.values := by
    subst hlatest
    cases hvalues : slots.values with
    | nil => exact Or.inl rfl
    | cons time rest =>
        rcases foldl_max_mem (time :: rest) time with h | h
        · exact Or.inr (List.mem_cons.2 (Or.inl h))
        · exact Or.inr h
  have hmem : ∀ e ∈ ends, e ∈ slots.values := by
    subst hends
    intro e he
    rcases List.mem_append.1 he with he | he
    · obtain ⟨w, hw, rfl⟩ := List.mem_map.1 he
      exact hwords w hw
    · obtain ⟨a, ha, rfl⟩ := List.mem_map.1 he
      exact hdisfluencies a ha
  obtain ⟨hge, hall⟩ := foldl_max_ge ends latest
  have heq : duration slots words disfluencies =
      if ends.foldl max latest ≤ 0 then
        .error (.elanError "the file contains no annotations and no time slots")
      else .ok (ends.foldl max latest) := by
    rw [duration, hlatest, hends]
  rw [heq]
  split_ifs with hpositive
  · refine Or.inr ⟨?_, _, rfl⟩
    rintro ⟨time, htime, hlasts⟩
    have := hslots time htime
    omega
  · refine Or.inl ⟨?_, _, rfl, not_le.1 hpositive, fun a ha => hall _ ?_⟩
    · rcases foldl_max_mem ends latest with h | h
      · rw [h] at hpositive
        exact ⟨latest, hslot.resolve_left (by omega), not_le.1 hpositive⟩
      · exact ⟨_, hmem _ h, not_le.1 hpositive⟩
    · rw [← hends]
      exact List.mem_append_right _ (List.mem_map_of_mem ha)

theorem speaker_spec {pseudonym : String} (hnamed : isBlank pseudonym = false) :
    Decides (looksLikeIdentifier pseudonym = false) (fun speaker => speaker.pseudonym = pseudonym)
      CorpusError.schemaViolation (Speaker.of pseudonym) := by
  unfold Speaker.of
  split_ifs with hblank hidentifier
  · exact absurd hnamed (by simp [hblank])
  · exact Or.inr ⟨by simp [hidentifier], _, rfl⟩
  · exact Or.inl ⟨Bool.eq_false_of_not_eq_true hidentifier, _, rfl, rfl⟩

theorem annotationPass_spec (value : String) :
    Decides (∃ pass : AnnotationPass, pass.value = value) (fun pass => pass.value = value)
      CorpusError.valueError (AnnotationPass.of value) := by
  unfold AnnotationPass.of
  cases hfind : annotationPasses.find? fun pass => pass.value = value with
  | some pass =>
      have hvalue : pass.value = value := by simpa using List.find?_some hfind
      exact Or.inl ⟨⟨pass, hvalue⟩, _, rfl, hvalue⟩
  | none =>
      refine Or.inr ⟨?_, _, rfl⟩
      rintro ⟨pass, hpass⟩
      have hnot := List.find?_eq_none.1 hfind pass (by cases pass <;> decide)
      exact hnot (by simpa using hpass)

theorem annotatedRecording_spec (recordingId : String) (speaker : Speaker)
    {annotatorId : String} (annotationPass : AnnotationPass) {durationMs : ℤ} (words : List Word)
    {disfluencies : List DisfluencyAnnotation} (taxonomyVersion : Option SemanticVersion)
    (hlasting : 0 < durationMs) (hattributed : ∀ a ∈ disfluencies, a.annotatorId = annotatorId)
    (hwithin : ∀ a ∈ disfluencies, a.interval.endMs ≤ durationMs) :
    Decides (isBlank recordingId = false)
      (fun recording => recording.words = words ∧ recording.disfluencies = disfluencies)
      CorpusError.schemaViolation
      (AnnotatedRecording.of recordingId speaker annotatorId annotationPass durationMs words
        disfluencies taxonomyVersion) := by
  have hnone : disfluencies.findSome? (AnnotatedRecording.refusal annotatorId durationMs) = none :=
    List.findSome?_eq_none_iff.2 fun a ha =>
      AnnotatedRecording.refusal_eq_none_iff.2 ⟨hattributed a ha, hwithin a ha⟩
  unfold AnnotatedRecording.of
  split_ifs with hblank hshort
  · exact Or.inr ⟨by simp [hblank], _, rfl⟩
  · exact absurd hlasting (not_lt.2 hshort)
  · split
    · next message hmessage => exact absurd (hmessage.symm.trans hnone) (by simp)
    · exact Or.inl ⟨Bool.eq_false_of_not_eq_true hblank, _, rfl, rfl, rfl⟩

end OratoriaEngine.Corpus
