import OratoriaEngine.Corpus.ElanErrors
import OratoriaEngine.Lib.Shuffle

/-!
# The references between the tiers of an ELAN file

Roles, texts and notes are gathered in dictionaries by the id of the disfluency they refer to. An
annotation without a reference, with one that no disfluency has, or with one that another
annotation of its tier also has, leaves no trace in the recording.
-/

namespace OratoriaEngine.Corpus

open Except Xml

def referringTiers : List String := [roleTier, textTier, noteTier]

/-- What an annotation of a referring tier gives to a record. -/
def Carries (tierId value : String) (a : DisfluencyAnnotation) : Prop :=
  (tierId = roleTier → RoleGiven (some value) a.contextRole) ∧
    (tierId = textTier → a.rawText = value) ∧ (tierId = noteTier → a.note = value)

section Tree

variable (root : Element)

def referring (tierId : String) : List Element := annotationsOf root tierId "REF_ANNOTATION"

def aligning (tierId : String) : List Element := annotationsOf root tierId "ALIGNABLE_ANNOTATION"

def parents (reference : String) : List Element :=
  (aligning root disfluencyTier).filter fun element =>
    element.get "ANNOTATION_ID" = some reference

/-- No reference is missing, dangling, or given twice on its tier. -/
def ReferencesSound : Prop :=
  ∀ tierId ∈ referringTiers,
    (∀ element ∈ referring root tierId, ∃ reference,
      element.get "ANNOTATION_REF" = some reference ∧ parents root reference ≠ []) ∧
    ((referring root tierId).filterMap (·.get "ANNOTATION_REF")).Nodup

/-- No reference is to the id of two disfluencies. -/
def ReferencesUnambiguous : Prop :=
  ∀ tierId ∈ referringTiers, ∀ element ∈ referring root tierId, ∀ reference,
    element.get "ANNOTATION_REF" = some reference → (parents root reference).length ≤ 1

def Spans (element : Element) (interval : Interval) : Prop :=
  slotTime (slotsOf root) element "TIME_SLOT_REF1" = some interval.startMs ∧
    slotTime (slotsOf root) element "TIME_SLOT_REF2" = some interval.endMs

/-- Each annotation of a referring tier is carried by the record of the one disfluency it refers
to, and no record carries anything else. -/
structure Attached (rows : List (Element × DisfluencyAnnotation)) (tierId : String) : Prop where
  referred : ∀ element ∈ referring root tierId, ∃ reference row,
    element.get "ANNOTATION_REF" = some reference ∧
      rows.filter (fun row => row.1.get "ANNOTATION_ID" = some reference) = [row] ∧
        Carries tierId (annotationValue element) row.2
  unreferred : ∀ row ∈ rows,
    (∀ element ∈ referring root tierId,
      element.get "ANNOTATION_REF" ≠ row.1.get "ANNOTATION_ID") → Carries tierId "" row.2

structure Complete (recording : AnnotatedRecording) : Prop where
  words : ∃ rows : List (Element × Word), (rows.map Prod.fst).Perm (aligning root wordsTier) ∧
    rows.map Prod.snd = recording.words ∧
      ∀ row ∈ rows, Spans root row.1 row.2.interval ∧ row.2.text = annotationValue row.1
  disfluencies : ∃ rows : List (Element × DisfluencyAnnotation),
    (rows.map Prod.fst).Perm (aligning root disfluencyTier) ∧
      rows.map Prod.snd = recording.disfluencies ∧
        (∀ row ∈ rows, Spans root row.1 row.2.interval ∧
          row.2.eventType.value = annotationValue row.1) ∧
        ∀ tierId ∈ referringTiers, Attached root rows tierId

/-- A tree that is read is in the recording as a whole, and faulty references are refused. -/
def DropsNothing (fileName : String) : Prop :=
  (∀ recording, read fileName root = .ok recording → Complete root recording) ∧
    (¬ReferencesSound root → ∃ m, read fileName root = .error (.elanError m))

theorem spans_of_anchored {tierId : String} {element : Element} {interval : Interval}
    (hanchored : TierAnchored root tierId (slotsOf root)) (hmem : element ∈ aligning root tierId)
    (hstart : interval.startMs = (itemOf (slotsOf root) element).startMs)
    (hend : interval.endMs = (itemOf (slotsOf root) element).endMs) :
    Spans root element interval := by
  obtain ⟨-, hfirst, hsecond⟩ := hanchored element hmem
  obtain ⟨startMs, hfirst⟩ := Option.isSome_iff_exists.1 hfirst
  obtain ⟨endMs, hsecond⟩ := Option.isSome_iff_exists.1 hsecond
  rw [itemOf, hfirst, Option.getD_some] at hstart
  rw [itemOf, hsecond, Option.getD_some] at hend
  rw [Spans, hfirst, hsecond, hstart, hend]
  exact ⟨rfl, rfl⟩

theorem fst_mem_references {tierId reference : String} {element : Element}
    (hmem : element ∈ referring root tierId)
    (href : element.get "ANNOTATION_REF" = some reference) :
    (reference, annotationValue element) ∈ references root tierId :=
  List.mem_filterMap.2 ⟨element, hmem, by rw [href]; rfl⟩

theorem map_fst_references (tierId : String) :
    (references root tierId).map Prod.fst =
      (referring root tierId).filterMap (·.get "ANNOTATION_REF") := by
  rw [references, List.map_filterMap]
  refine List.filterMap_congr fun element _ => ?_
  cases element.get "ANNOTATION_REF" <;> rfl

theorem referenced_of_nodup {tierId reference : String} {element : Element}
    (hnodup : ((referring root tierId).filterMap (·.get "ANNOTATION_REF")).Nodup)
    (hmem : element ∈ referring root tierId)
    (href : element.get "ANNOTATION_REF" = some reference) :
    (referenced root tierId).get? reference = some (annotationValue element) := by
  refine Dict.get?_setAll_of_nodup Dict.empty ?_ (fst_mem_references root hmem href)
  rwa [map_fst_references]

theorem referenced_eq_none {tierId reference : String}
    (h : ∀ element ∈ referring root tierId, element.get "ANNOTATION_REF" ≠ some reference) :
    (referenced root tierId).get? reference = none := by
  rcases Dict.get?_setAll_cases Dict.empty (references root tierId) reference with
    ⟨value, hmem, -⟩ | ⟨-, hget⟩
  · obtain ⟨element, hmem, hentry⟩ := List.mem_filterMap.1 hmem
    obtain ⟨reference', href, heq⟩ := Option.map_eq_some_iff.1 hentry
    exact absurd (href.trans (congrArg some (Prod.mk.inj heq).1)) (h element hmem)
  · exact hget

theorem roleGiven_getD {value : Option String} {role : Option ContextualRole}
    (h : RoleGiven value role) : RoleGiven (some (value.getD "")) role := by
  rcases h with ⟨hempty, hrole⟩ | ⟨r, hrole, rfl⟩
  · exact Or.inl ⟨hempty, hrole⟩
  · exact Or.inr ⟨r, hrole, rfl⟩

variable {root} in
theorem RecordFrom.carries {annotatorId : String} {item : AlignedAnnotation}
    {a : DisfluencyAnnotation}
    (h : RecordFrom annotatorId (referenced root roleTier) (referenced root textTier)
      (referenced root noteTier) item a) (tierId : String) :
    Carries tierId (((referenced root tierId).get? item.annotationId).getD "") a := by
  refine ⟨?_, ?_, ?_⟩
  · rintro rfl
    exact roleGiven_getD h.contextRole
  · rintro rfl
    exact h.rawText
  · rintro rfl
    exact h.note

theorem length_filter_rows {rows : List (Element × DisfluencyAnnotation)}
    (hperm : (rows.map Prod.fst).Perm (aligning root disfluencyTier)) (reference : String) :
    (rows.filter fun row => row.1.get "ANNOTATION_ID" = some reference).length =
      (parents root reference).length := by
  have hfilter := hperm.filter fun element => element.get "ANNOTATION_ID" = some reference
  rw [List.filter_map] at hfilter
  simpa [parents, Function.comp_def] using hfilter.length_eq

theorem attached_of_sound {rows : List (Element × DisfluencyAnnotation)} {tierId : String}
    (hanchored : DisfluenciesAnchored root) (hsound : ReferencesSound root)
    (hunambiguous : ReferencesUnambiguous root) (htier : tierId ∈ referringTiers)
    (hperm : (rows.map Prod.fst).Perm (aligning root disfluencyTier))
    (hcarries : ∀ row ∈ rows, Carries tierId (((referenced root tierId).get?
      (itemOf (slotsOf root) row.1).annotationId).getD "") row.2) :
    Attached root rows tierId := by
  obtain ⟨hreferred, hnodup⟩ := hsound tierId htier
  constructor
  · intro element hmem
    obtain ⟨reference, href, hparents⟩ := hreferred element hmem
    have hlength : (parents root reference).length = 1 := by
      have hle := hunambiguous tierId htier element hmem reference href
      have hpos := List.length_pos_iff.2 hparents
      omega
    rw [← length_filter_rows root hperm, List.length_eq_one_iff] at hlength
    obtain ⟨row, hrow⟩ := hlength
    refine ⟨reference, row, href, hrow, ?_⟩
    have hmemRow : row ∈ rows.filter fun row => row.1.get "ANNOTATION_ID" = some reference := by
      rw [hrow]
      exact List.mem_cons_self
    obtain ⟨hmemRow, hid⟩ := List.mem_filter.1 hmemRow
    have hid : row.1.get "ANNOTATION_ID" = some reference := by simpa using hid
    have hcarried := hcarries row hmemRow
    rwa [itemOf, hid, Option.getD_some, referenced_of_nodup root hnodup hmem href,
      Option.getD_some] at hcarried
  · intro row hrow hunreferred
    have hmem : row.1 ∈ aligning root disfluencyTier :=
      hperm.mem_iff.1 (List.mem_map_of_mem hrow)
    obtain ⟨annotationId, hid⟩ := Option.isSome_iff_exists.1 (hanchored row.1 hmem).1
    have hcarried := hcarries row hrow
    rw [hid] at hunreferred
    rwa [itemOf, hid, Option.getD_some, referenced_eq_none root hunreferred,
      Option.getD_none] at hcarried

theorem complete_of_sound {fileName : String} {recording : AnnotatedRecording}
    (hsound : ReferencesSound root) (hunambiguous : ReferencesUnambiguous root)
    (hread : read fileName root = .ok recording) : Complete root recording := by
  obtain ⟨haccepted, hwords, hdisfluencies⟩ := (read_reports fileName root).of_eq_ok hread
  obtain ⟨-, -, hwordsAnchored, -, hanchored, -⟩ := haccepted
  obtain ⟨rows, hperm, hsnd, hrows⟩ :=
    Shuffle.exists_rows_of_forall₂ (itemsOf_perm root wordsTier (slotsOf root)) hwords
  obtain ⟨rows', hperm', hsnd', hrows'⟩ :=
    Shuffle.exists_rows_of_forall₂ (itemsOf_perm root disfluencyTier (slotsOf root)) hdisfluencies
  constructor
  · refine ⟨rows, hperm, hsnd, fun row hrow => ⟨?_, (hrows row hrow).text⟩⟩
    exact spans_of_anchored root hwordsAnchored (hperm.mem_iff.1 (List.mem_map_of_mem hrow))
      (hrows row hrow).startMs (hrows row hrow).endMs
  · refine ⟨rows', hperm', hsnd', fun row hrow => ⟨?_, (hrows' row hrow).eventType⟩, ?_⟩
    · exact spans_of_anchored root hanchored (hperm'.mem_iff.1 (List.mem_map_of_mem hrow))
        (hrows' row hrow).startMs (hrows' row hrow).endMs
    · intro tierId htier
      exact attached_of_sound root hanchored hsound hunambiguous htier hperm'
        fun row hrow => (hrows' row hrow).carries tierId

/-- In a recording that holds the whole tree no reference is to two disfluencies. -/
theorem unambiguous_of_complete {recording : AnnotatedRecording} (h : Complete root recording) :
    ReferencesUnambiguous root := by
  intro tierId htier element hmem reference href
  obtain ⟨rows, hperm, -, -, hattached⟩ := h.disfluencies
  obtain ⟨reference', row, href', hrow, -⟩ := (hattached tierId htier).referred element hmem
  obtain rfl : reference = reference' := Option.some.inj (href.symm.trans href')
  rw [← length_filter_rows root hperm, hrow]
  exact le_rfl

/-- Nothing is dropped exactly if the references are sound or another check refuses the file, and
no reference of a file that is read is to two disfluencies. -/
theorem dropsNothing_iff (fileName : String) :
    DropsNothing root fileName ↔
      (ReferencesSound root ∨ Refused root) ∧
        (ReferencesUnambiguous root ∨ ¬Accepted fileName root) := by
  have hreports := read_reports fileName root
  constructor
  · rintro ⟨hcomplete, hrefuses⟩
    constructor
    · by_cases hsound : ReferencesSound root
      · exact Or.inl hsound
      · exact Or.inr (hreports.error_iff.1 (hrefuses hsound))
    · by_cases haccepted : Accepted fileName root
      · obtain ⟨recording, hread⟩ := hreports.ok_of haccepted
        exact Or.inl (unambiguous_of_complete root (hcomplete recording hread))
      · exact Or.inr haccepted
  · rintro ⟨hsound, hunambiguous⟩
    refine ⟨fun recording hread => ?_, fun hnot => ?_⟩
    · have hnotRefused : ¬Refused root := by
        intro hrefused
        obtain ⟨m, herror⟩ := hreports.error_iff.2 hrefused
        rw [hread] at herror
        cases herror
      have haccepted := (hreports.of_eq_ok hread).1
      exact complete_of_sound root (hsound.resolve_right hnotRefused)
        (hunambiguous.resolve_right (not_not.2 haccepted)) hread
    · exact hreports.error_iff.2 (hsound.resolve_left hnot)

end Tree

/-- A document in which two annotations of the role tier refer to the one disfluency. -/
def twoRoles : Element :=
  let property (name value : String) : Element :=
    .node "PROPERTY" (Dict.empty.setAll [("NAME", name)]) (some value) []
  let slot (slotId time : String) : Element :=
    .node "TIME_SLOT" (Dict.empty.setAll [("TIME_SLOT_ID", slotId), ("TIME_VALUE", time)]) none []
  let tier (tierId : String) (annotations : List Element) : Element :=
    .node "TIER" (Dict.empty.setAll [("TIER_ID", tierId)]) none
      [.node "ANNOTATION" Dict.empty none annotations]
  let referring (annotationId value : String) : Element :=
    .node "REF_ANNOTATION"
      (Dict.empty.setAll [("ANNOTATION_ID", annotationId), ("ANNOTATION_REF", "a1")]) none
      [.node "ANNOTATION_VALUE" Dict.empty (some value) []]
  .node "ANNOTATION_DOCUMENT" Dict.empty none
    [.node "HEADER" Dict.empty none [property propAnnotator "ana", property propSpeaker "s01"],
      .node "TIME_ORDER" Dict.empty none [slot "ts1" "700", slot "ts2" "900"],
      tier disfluencyTier
        [.node "ALIGNABLE_ANNOTATION" (Dict.empty.setAll [("ANNOTATION_ID", "a1"),
          ("TIME_SLOT_REF1", "ts1"), ("TIME_SLOT_REF2", "ts2")]) none
          [.node "ANNOTATION_VALUE" Dict.empty (some "lexical_filler") []]],
      tier textTier [referring "a2" "este"],
      tier roleTier [referring "a3" "filler", referring "a4" "semantic"]]

/-- The document is read, with one of the two roles. -/
theorem not_dropsNothing_twoRoles : ¬DropsNothing twoRoles "session.eaf" := by
  rintro ⟨-, hrefuses⟩
  have hunsound : ¬ReferencesSound twoRoles := by
    intro hsound
    have hnodup := (hsound roleTier List.mem_cons_self).2
    exact absurd hnodup (by decide)
  obtain ⟨m, herror⟩ := hrefuses hunsound
  have hread : ∃ recording, read "session.eaf" twoRoles = .ok recording := ⟨_, rfl⟩
  obtain ⟨recording, hok⟩ := hread
  rw [hok] at herror
  cases herror

end OratoriaEngine.Corpus
