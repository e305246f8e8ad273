import OratoriaEngine.PostgresDocuments
import OratoriaEngine.TenantParts

/-!
# Documents and their deletion on both repositories

Bundles and documents of completed sessions are stored, and the evidence of sessions is deleted, in
any order, on Postgres and in memory. Each repository then holds what was stored and not deleted
since: Postgres as the rows of all of it, memory as the last of each run.
-/

namespace OratoriaEngine

/-- What completing a session stores, the bundle first and then the document. -/
structure CompletedEvidence where
  bundle : EvidenceBundle
  document : EvidenceDocument
  completed : ∃ (c : Coordinator) (runId : RunId) (sessionId : SessionId)
    (requests : List Coordinator.Request) (session : AnalysisSession)
    (configuration : ConfigurationSnapshot) (wallMs : ℤ),
    assembleEvidence (c.runCalls (.fresh runId sessionId) requests).state session configuration
      bundle.tenant bundle.sessionId wallMs = .ok (bundle, document)

/-- The document with its readings under a provenance. -/
def EvidenceDocument.inheriting (document : EvidenceDocument) (provenance : Provenance) :
    EvidenceDocument :=
  { document with prosody := document.prosody.map (·.under provenance) }

structure EvidenceDocument.SameResult (document other : EvidenceDocument) : Prop where
  sessionId : document.sessionId = other.sessionId
  runId : document.runId = other.runId
  manifest : document.manifest.Same other.manifest
  tokens : document.transcript.tokens.Perm other.transcript.tokens
  assessments : document.quality.assessments.Perm other.quality.assessments
  availability : document.quality.availability.Perm other.quality.availability
  speechEvents : document.speechEvents.Perm other.speechEvents
  visualEvents : document.visualEvents.Perm other.visualEvents
  prosody : document.prosody.Perm other.prosody
  cooccurrences : document.cooccurrences.Perm other.cooccurrences

/-- The document is about the run and the session of the bundle and carries its evidence; the loss
of audio chunks is always assessed. -/
structure CompletedEvidence.Carries (bundle : EvidenceBundle) (document : EvidenceDocument) :
    Prop where
  runId : document.runId = bundle.runId
  sessionId : document.sessionId = bundle.sessionId
  evidence : document.holding bundle = document
  assessed : bundle.quality.assessments ≠ []

theorem carries_of_assembled {state : StreamingState} {session : AnalysisSession}
    {configuration : ConfigurationSnapshot} {tenant : TenantId} {sessionId : SessionId} {wallMs : ℤ}
    {bundle : EvidenceBundle} {document : EvidenceDocument}
    (h : assembleEvidence state session configuration tenant sessionId wallMs =
      .ok (bundle, document)) : CompletedEvidence.Carries bundle document := by
  obtain ⟨⟨quality, closed⟩, hquality, h⟩ := Except.bind_eq_ok.1 h
  obtain ⟨captured, -, hcaptured⟩ := Except.bind_eq_ok.1 hquality
  obtain ⟨pairs, -, h⟩ := Except.bind_eq_ok.1 h
  obtain ⟨manifest, -, h⟩ := Except.bind_eq_ok.1 h
  obtain ⟨_, -, h⟩ := Except.bind_eq_ok.1 h
  cases hcaptured
  cases h
  refine ⟨rfl, rfl, rfl, ?_⟩
  simp only [QualityReport.extended]
  split_ifs <;> simp

namespace CompletedEvidence

variable (completion : CompletedEvidence)

theorem completes : Completes completion.bundle := by
  obtain ⟨c, runId, sessionId, requests, session, configuration, wallMs, h⟩ := completion.completed
  exact ⟨c, runId, sessionId, requests, session, configuration, wallMs, completion.document, h⟩

theorem carries : Carries completion.bundle completion.document := by
  obtain ⟨c, runId, sessionId, requests, session, configuration, wallMs, h⟩ := completion.completed
  exact carries_of_assembled h

end CompletedEvidence

def EvidenceBundle.gathered (tenant : TenantId) (runId : RunId) (sessionId : SessionId)
    (bundles : List EvidenceBundle) : EvidenceBundle where
  runId := runId
  sessionId := sessionId
  tenant := tenant
  transcript := ⟨bundles.flatMap (·.transcript.tokens)⟩
  quality := ⟨bundles.flatMap (·.quality.assessments), bundles.flatMap (·.quality.availability)⟩
  speechEvents := bundles.flatMap (·.speechEvents)
  visualEvents := bundles.flatMap (·.visualEvents)
  prosody := bundles.flatMap (·.prosody)
  cooccurrences := bundles.flatMap (·.cooccurrences)

section Gathered

open EvidenceRepositories

variable {tenant : TenantId} {runId : RunId} {sessionId : SessionId}
  {bundles : List EvidenceBundle}

theorem eq_of_isOf {bundle : EvidenceBundle} (h : IsOf tenant runId bundle) :
    bundle.tenant = tenant := TenantId.ext_value h.2

variable (sessionId) in
theorem writeBundle_gathered (h : ∀ bundle ∈ bundles, IsOf tenant runId bundle) :
    writeBundle (.gathered tenant runId sessionId bundles) = written bundles := by
  induction bundles with
  | nil => rfl
  | cons bundle rest ih =>
      have hof := h bundle List.mem_cons_self
      rw [written, ← ih fun b hb => h b (List.mem_cons_of_mem _ hb)]
      simp only [writeBundle, EvidenceBundle.gathered, EvidenceRows.append, List.flatMap_cons,
        List.map_append, eq_of_isOf hof, hof.1]

theorem plain_gathered (h : ∀ bundle ∈ bundles, bundle.Plain) :
    (EvidenceBundle.gathered tenant runId sessionId bundles).Plain where
  prosody := by
    intro reading hr
    obtain ⟨bundle, hb, hr⟩ := List.mem_flatMap.1 hr
    exact (h bundle hb).prosody reading hr
  assessments := by
    intro assessment ha
    obtain ⟨bundle, hb, ha⟩ := List.mem_flatMap.1 ha
    exact (h bundle hb).assessments assessment ha
  availability := by
    intro record hr
    obtain ⟨bundle, hb, hr⟩ := List.mem_flatMap.1 hr
    exact (h bundle hb).availability record hr

theorem load_gathered {tables : EvidenceTables} (server : EvidenceServer) {run : ProcessingRunRow}
    (hrun : tables.runs.get? runId.value = some run) (hsession : run.sessionId = sessionId.value)
    (hrows : tables.rows.ofRun runId.value tenant.value = written bundles)
    (hof : ∀ bundle ∈ bundles, IsOf tenant runId bundle)
    (hplain : ∀ bundle ∈ bundles, bundle.Plain) :
    ∃ loaded provenance, tables.load server tenant runId = .ok (some loaded) ∧
      (EvidenceBundle.gathered tenant runId sessionId bundles).HasAudio provenance ∧
      loaded.SameEvidence
        ((EvidenceBundle.gathered tenant runId sessionId bundles).inheriting provenance) := by
  have hid := tables.keyed _ _ hrun
  have hanswer := server.rearranges (tables.rows.ofRun run.id tenant.value)
  rw [hid] at hanswer
  have hwritten := writeBundle_gathered sessionId hof
  rw [hrows, ← hwritten] at hanswer
  obtain ⟨loaded, provenance, hread, haudio, hsame⟩ :=
    readBundle_of_rearranges (plain_gathered hplain) hid hsession hanswer
  refine ⟨loaded, provenance, ?_, haudio, hsame⟩
  rw [EvidenceTables.load, hrun]
  simp only [hid, hrows, ← hwritten]
  exact congrArg (some <$> ·) hread

end Gathered

section Rows

open EvidenceRepositories

theorem whose_writeBundle (p : String → String → Bool) (bundle : EvidenceBundle) :
    (writeBundle bundle).whose p =
      if p bundle.runId.value bundle.tenant.value then writeBundle bundle else .empty := by
  have hprosody : ∀ reading, p (prosodyToRow reading bundle.runId.value bundle.tenant).runId
      (prosodyToRow reading bundle.runId.value bundle.tenant).tenantId =
        p bundle.runId.value bundle.tenant.value := by
    intro reading
    obtain ⟨hrun, htenant⟩ := prosodyToRow_key reading bundle.runId.value bundle.tenant
    rw [hrun, htenant]
  have hassessment : ∀ assessment, p (assessmentToRow assessment bundle.runId.value
      bundle.tenant).runId (assessmentToRow assessment bundle.runId.value bundle.tenant).tenantId =
        p bundle.runId.value bundle.tenant.value := by
    intro assessment
    obtain ⟨hrun, htenant⟩ := assessmentToRow_key assessment bundle.runId.value bundle.tenant
    rw [hrun, htenant]
  have hselect {α ρ : Type} (write : α → ρ) (run tenant : ρ → String) (l : List α)
      (hkey : ∀ a, p (run (write a)) (tenant (write a)) =
        p bundle.runId.value bundle.tenant.value) :
      ((l.map write).filter fun r => p (run r) (tenant r)) =
        if p bundle.runId.value bundle.tenant.value then l.map write else [] := by
    split_ifs with h
    · refine List.filter_eq_self.2 fun r hr => ?_
      obtain ⟨a, -, rfl⟩ := List.mem_map.1 hr
      exact (hkey a).trans h
    · refine List.filter_eq_nil_iff.2 fun r hr hp => ?_
      obtain ⟨a, -, rfl⟩ := List.mem_map.1 hr
      exact h ((hkey a).symm.trans hp)
  have htokens := hselect (tokenToRow · bundle.runId.value bundle.tenant) (·.runId) (·.tenantId)
    bundle.transcript.tokens fun _ => rfl
  have hspeech := hselect (speechEventToRow · bundle.runId.value bundle.tenant) (·.runId)
    (·.tenantId) bundle.speechEvents fun _ => rfl
  have hvisual := hselect (visualEventToRow · bundle.runId.value bundle.tenant) (·.runId)
    (·.tenantId) bundle.visualEvents fun _ => rfl
  have hreadings := hselect (prosodyToRow · bundle.runId.value bundle.tenant) (·.runId)
    (·.tenantId) bundle.prosody hprosody
  have hassessments := hselect (assessmentToRow · bundle.runId.value bundle.tenant) (·.runId)
    (·.tenantId) bundle.quality.assessments hassessment
  have havailability := hselect (availabilityToRow · bundle.runId.value bundle.tenant) (·.runId)
    (·.tenantId) bundle.quality.availability fun _ => rfl
  have hpairs := hselect (cooccurrenceToRow · bundle.runId.value bundle.tenant) (·.runId)
    (·.tenantId) bundle.cooccurrences fun _ => rfl
  simp only [EvidenceRows.whose, writeBundle, htokens, hspeech, hvisual, hreadings, hassessments,
    havailability, hpairs]
  split_ifs <;> rfl

theorem whose_written (p : String → String → Bool) (bundles : List EvidenceBundle) :
    (written bundles).whose p =
      written (bundles.filter fun bundle => p bundle.runId.value bundle.tenant.value) := by
  induction bundles with
  | nil => rfl
  | cons bundle rest ih =>
      rw [written, EvidenceRows.whose_append, whose_writeBundle, ih, List.filter_cons]
      split_ifs
      · rw [written]
      · rfl

theorem length_le_size_written {bundles : List EvidenceBundle}
    (h : ∀ bundle ∈ bundles, bundle.quality.assessments ≠ []) :
    bundles.length ≤ (written bundles).size := by
  induction bundles with
  | nil => exact Nat.zero_le _
  | cons bundle rest ih =>
      have hrest := ih fun b hb => h b (List.mem_cons_of_mem _ hb)
      have hpos : 0 < (writeBundle bundle).qualityAssessments.length := by
        rw [writeBundle, List.length_map]
        exact List.length_pos_of_ne_nil (h bundle List.mem_cons_self)
      rw [written, EvidenceRows.size_append, List.length_cons]
      unfold EvidenceRows.size at hrest ⊢
      omega

end Rows

inductive EvidenceCall
  | saveRun (run : ProcessingRunRow)
  | store (completion : CompletedEvidence)
  | storeDocument (completion : CompletedEvidence)
  | deleteForSession (tenant : TenantId) (sessionId : SessionId)

def EvidenceCall.OwnedBy (owner : String → String) : EvidenceCall → Prop
  | .saveRun run => run.sessionId = owner run.id
  | .store completion | .storeDocument completion =>
      completion.bundle.sessionId.value = owner completion.bundle.runId.value
  | .deleteForSession _ _ => True

/-- Both repositories, and what was stored and not deleted since, in order. -/
structure EvidenceStores where
  database : EvidenceDatabase
  memory : World
  kept : List EvidenceBundle

namespace EvidenceStores

open EvidenceRepositories EvidenceDatabase

def fresh (configuration : ConfigurationSnapshot) : EvidenceStores :=
  ⟨.fresh, .fresh configuration, []⟩

def isOfSession (tenant : TenantId) (sessionId : SessionId) (bundle : EvidenceBundle) : Bool :=
  decide (bundle.tenant = tenant) && decide (bundle.sessionId = sessionId)

def bundleKey (bundle : EvidenceBundle) : String × String :=
  (bundle.tenant.value, bundle.runId.value)

variable (server : DocumentServer) (schemaVersion : String)

/-- Memory keeps what the database takes. -/
def serve (s : EvidenceStores) : EvidenceCall → EvidenceStores
  | .saveRun run => { s with database := s.database.saveRun run }
  | .store completion =>
      match s.database.store completion.bundle with
      | some database =>
          ⟨database, (inMemory (.evidenceStore completion.bundle) s.memory).2,
            s.kept ++ [completion.bundle]⟩
      | none => s
  | .storeDocument completion =>
      match s.database.storeDocument server schemaVersion completion.document
          completion.bundle.tenant with
      | some database =>
          ⟨database, (inMemory (.evidenceStoreDocument completion.document
            completion.bundle.tenant) s.memory).2, s.kept⟩
      | none => s
  | .deleteForSession tenant sessionId =>
      ⟨(s.database.purgeSessionRows tenant sessionId).2,
        (inMemory (.evidenceDeleteForSession tenant sessionId) s.memory).2,
        s.kept.filter fun bundle => !isOfSession tenant sessionId bundle⟩

def after (configuration : ConfigurationSnapshot) (calls : List EvidenceCall) : EvidenceStores :=
  calls.foldl (serve server schemaVersion) (fresh configuration)

def keptFor (s : EvidenceStores) (tenant : TenantId) (runId : RunId) : List EvidenceBundle :=
  s.kept.filter (IsOf tenant runId)

/-- The bundle of a completed session whose run is its own. -/
structure Sound (owner : String → String) (bundle : EvidenceBundle) : Prop where
  owned : bundle.sessionId.value = owner bundle.runId.value
  plain : bundle.Plain
  assessed : bundle.quality.assessments ≠ []

/-- The tables and memory hold what is kept. -/
structure Represents (owner : String → String) (s : EvidenceStores) : Prop where
  rows : s.database.tables.rows = written s.kept
  runs : ∀ key run, s.database.tables.runs.get? key = some run → run.sessionId = owner key
  known : ∀ bundle ∈ s.kept, (s.database.tables.runs.get? bundle.runId.value).isSome
  sound : ∀ bundle ∈ s.kept, Sound owner bundle
  bundles : ∀ key, s.memory.bundles.get? key =
    (s.kept.filter fun bundle => bundleKey bundle = key).getLast?
  documents : ∀ key, s.database.documents.get? key =
    (s.memory.documents.get? key).map (documentRow server schemaVersion · key.1)
  named : ∀ key document, s.memory.documents.get? key = some document →
    document.sessionId.value = key.2 ∧ owner document.runId.value = key.2

section Represents

variable {server : DocumentServer} {schemaVersion : String} {owner : String → String}
  {s : EvidenceStores}

theorem represents_fresh (configuration : ConfigurationSnapshot) :
    Represents server schemaVersion owner (fresh configuration) where
  rows := rfl
  runs := by
    intro _ _ h
    cases h
  known := by simp [fresh]
  sound := by simp [fresh]
  bundles _ := rfl
  documents _ := rfl
  named := by
    intro _ _ h
    cases h

theorem isBundleOf_bundleKey (tenant : TenantId) (sessionId : SessionId)
    (bundle : EvidenceBundle) :
    World.isBundleOf tenant sessionId (bundleKey bundle) bundle =
      isOfSession tenant sessionId bundle := by
  have htenant : (bundleKey bundle).1 = tenant.value ↔ bundle.tenant = tenant :=
    ⟨TenantId.ext_value, fun h => by rw [← h]; rfl⟩
  rw [World.isBundleOf, isOfSession, decide_eq_decide.2 htenant]

namespace Represents

theorem matched (h : Represents server schemaVersion owner s) (tenant : TenantId)
    (sessionId : SessionId) {bundle : EvidenceBundle} (hmem : bundle ∈ s.kept) :
    s.database.matched tenant sessionId bundle.runId.value bundle.tenant.value =
      isOfSession tenant sessionId bundle := by
  obtain ⟨run, hrun⟩ := Option.isSome_iff_exists.1 (h.known bundle hmem)
  have hsession : bundle.runId.value ∈ s.database.runIds sessionId ↔
      bundle.sessionId = sessionId := by
    rw [mem_runIds_iff]
    have howner := (h.runs _ _ hrun).trans (h.sound bundle hmem).owned.symm
    constructor
    · rintro ⟨run', hrun', hsame⟩
      cases hrun.symm.trans hrun'
      exact SessionId.ext_value (howner.symm.trans hsame)
    · intro hsame
      exact ⟨run, hrun, howner.trans (congrArg (·.value) hsame)⟩
  have htenant : bundle.tenant.value = tenant.value ↔ bundle.tenant = tenant :=
    ⟨TenantId.ext_value, fun h => by rw [h]⟩
  rw [EvidenceDatabase.matched, isOfSession, decide_eq_decide.2 hsession,
    decide_eq_decide.2 htenant, Bool.and_comm]

theorem saveRun (h : Represents server schemaVersion owner s) {run : ProcessingRunRow}
    (howned : run.sessionId = owner run.id) :
    Represents server schemaVersion owner (s.serve server schemaVersion (.saveRun run)) where
  rows := h.rows
  runs := by
    intro key row hrow
    change (s.database.tables.runs.set run.id run).get? key = some row at hrow
    rw [Dict.get?_set] at hrow
    split_ifs at hrow with hkey
    · cases hrow
      rw [hkey, howned]
    · exact h.runs key row hrow
  known := by
    intro bundle hmem
    change ((s.database.tables.runs.set run.id run).get? bundle.runId.value).isSome
    rw [Dict.get?_set]
    split_ifs
    · rfl
    · exact h.known bundle hmem
  sound := h.sound
  bundles := h.bundles
  documents := h.documents
  named := h.named

theorem store (h : Represents server schemaVersion owner s) {completion : CompletedEvidence}
    (howned : completion.bundle.sessionId.value = owner completion.bundle.runId.value) :
    Represents server schemaVersion owner (s.serve server schemaVersion (.store completion)) := by
  by_cases hstore : (s.database.tables.runs.get? completion.bundle.runId.value).isSome ∧
      (s.database.tables.rows.append (writeBundle completion.bundle)).Keyed
  · have hserve : s.serve server schemaVersion (.store completion) =
        ⟨{ s.database with
            tables := { s.database.tables with
              rows := s.database.tables.rows.append (writeBundle completion.bundle) } },
          (inMemory (.evidenceStore completion.bundle) s.memory).2,
          s.kept ++ [completion.bundle]⟩ := by
      simp only [serve, EvidenceDatabase.store, EvidenceTables.store, if_pos hstore,
        Option.map_some]
    rw [hserve]
    refine {
      rows := ?_
      runs := h.runs
      known := ?_
      sound := ?_
      bundles := ?_
      documents := h.documents
      named := h.named }
    · change s.database.tables.rows.append _ = written (s.kept ++ [completion.bundle])
      rw [written_append, h.rows]
      exact congrArg _ (EvidenceRows.append_empty _).symm
    · intro bundle hmem
      rcases List.mem_append.1 hmem with hold | hnew
      · exact h.known bundle hold
      · rw [List.mem_singleton.1 hnew]
        exact hstore.1
    · intro bundle hmem
      rcases List.mem_append.1 hmem with hold | hnew
      · exact h.sound bundle hold
      · rw [List.mem_singleton.1 hnew]
        exact ⟨howned, plain_of_completes completion.completes, completion.carries.assessed⟩
    · intro key
      change (s.memory.bundles.set (bundleKey completion.bundle) completion.bundle).get? key = _
      rw [Dict.get?_set, h.bundles key, List.filter_append, List.getLast?_append]
      by_cases hkey : key = bundleKey completion.bundle
      · simp [hkey]
      · have hother : ¬bundleKey completion.bundle = key := fun heq => hkey heq.symm
        simp [hkey, hother]
  · have hserve : s.serve server schemaVersion (.store completion) = s := by
      simp only [serve, EvidenceDatabase.store, EvidenceTables.store, if_neg hstore,
        Option.map_none]
    rwa [hserve]

theorem storeDocument (h : Represents server schemaVersion owner s)
    {completion : CompletedEvidence}
    (howned : completion.bundle.sessionId.value = owner completion.bundle.runId.value) :
    Represents server schemaVersion owner
      (s.serve server schemaVersion (.storeDocument completion)) := by
  by_cases htaken : server.takes (renderDocument completion.document schemaVersion) = true
  · have hserve : s.serve server schemaVersion (.storeDocument completion) =
        ⟨{ s.database with
            documents := s.database.documents.set
              (completion.bundle.tenant.value, completion.document.sessionId.value)
              (documentRow server schemaVersion completion.document
                completion.bundle.tenant.value) },
          (inMemory (.evidenceStoreDocument completion.document completion.bundle.tenant)
            s.memory).2, s.kept⟩ := by
      simp only [serve, EvidenceDatabase.storeDocument, if_pos htaken]
    rw [hserve]
    refine {
      rows := h.rows
      runs := h.runs
      known := h.known
      sound := h.sound
      bundles := h.bundles
      documents := ?_
      named := ?_ } <;> intro key
    · change (s.database.documents.set _ _).get? key =
        ((s.memory.documents.set _ _).get? key).map _
      rw [Dict.get?_set, Dict.get?_set]
      split_ifs with hkey
      · rw [hkey, Option.map_some]
      · exact h.documents key
    · intro document hdocument
      change (s.memory.documents.set _ _).get? key = some document at hdocument
      rw [Dict.get?_set] at hdocument
      split_ifs at hdocument with hkey
      · cases hdocument
        rw [hkey]
        refine ⟨rfl, ?_⟩
        rw [completion.carries.runId, completion.carries.sessionId, howned]
      · exact h.named key document hdocument
  · have hserve : s.serve server schemaVersion (.storeDocument completion) = s := by
      simp only [serve, EvidenceDatabase.storeDocument, if_neg htaken]
    rwa [hserve]

theorem isOfSession_iff (h : Represents server schemaVersion owner s) (tenant : TenantId)
    (sessionId : SessionId) {bundle : EvidenceBundle} (hmem : bundle ∈ s.kept) :
    isOfSession tenant sessionId bundle = true ↔
      (bundleKey bundle).1 = tenant.value ∧ owner (bundleKey bundle).2 = sessionId.value := by
  rw [isOfSession, Bool.and_eq_true, decide_eq_true_eq, decide_eq_true_eq]
  have howned := (h.sound bundle hmem).owned
  constructor
  · rintro ⟨rfl, rfl⟩
    exact ⟨rfl, howned.symm⟩
  · rintro ⟨htenant, hsession⟩
    exact ⟨TenantId.ext_value htenant, SessionId.ext_value (howned.trans hsession)⟩

theorem deleteForSession (h : Represents server schemaVersion owner s) (tenant : TenantId)
    (sessionId : SessionId) :
    Represents server schemaVersion owner
      (s.serve server schemaVersion (.deleteForSession tenant sessionId)) := by
  have hserve : s.serve server schemaVersion (.deleteForSession tenant sessionId) =
      ⟨(s.database.purgeSessionRows tenant sessionId).2,
        (s.memory.deleteEvidenceForSession tenant sessionId).2,
        s.kept.filter fun bundle => !isOfSession tenant sessionId bundle⟩ := rfl
  rw [hserve, purgeSessionRows_eq, World.deleteEvidenceForSession_snd]
  refine {
    rows := ?_
    runs := h.runs
    known := fun bundle hmem => h.known bundle (List.mem_of_mem_filter hmem)
    sound := fun bundle hmem => h.sound bundle (List.mem_of_mem_filter hmem)
    bundles := ?_
    documents := ?_
    named := ?_ }
  · change (s.database.tables.rows.whose fun runId tenantId =>
      !s.database.matched tenant sessionId runId tenantId) =
        written (s.kept.filter fun bundle => !isOfSession tenant sessionId bundle)
    rw [h.rows, whose_written]
    refine congrArg written (List.filter_congr fun bundle hmem => ?_)
    rw [h.matched tenant sessionId hmem]
  · intro key
    change (s.memory.bundles.filter _).get? key = _
    rw [Dict.get?_filter, h.bundles key, List.filter_filter]
    by_cases hkey : key.1 = tenant.value ∧ owner key.2 = sessionId.value
    · have hgone : (s.kept.filter fun bundle => decide (bundleKey bundle = key) &&
          !isOfSession tenant sessionId bundle) = [] := by
        refine List.filter_eq_nil_iff.2 fun bundle hmem hboth => ?_
        obtain ⟨hsame, hleft⟩ := Bool.and_eq_true_iff.1 hboth
        have hof := (h.isOfSession_iff tenant sessionId hmem).2
          (by rwa [of_decide_eq_true hsame])
        rw [hof] at hleft
        cases hleft
      rw [hgone, List.getLast?_nil, Option.filter_eq_none_iff]
      intro bundle hlast
      obtain ⟨hmem, hsame⟩ := List.mem_filter.1 (List.mem_of_getLast? hlast)
      have hof := (h.isOfSession_iff tenant sessionId hmem).2 (by rwa [of_decide_eq_true hsame])
      rw [← of_decide_eq_true hsame, isBundleOf_bundleKey, hof]
      simp
    · have hstays : (s.kept.filter fun bundle => decide (bundleKey bundle = key) &&
          !isOfSession tenant sessionId bundle) =
            s.kept.filter fun bundle => bundleKey bundle = key := by
        refine List.filter_congr fun bundle hmem => ?_
        by_cases hsame : bundleKey bundle = key
        · have hof := (h.isOfSession_iff tenant sessionId hmem).not.2 (by rwa [hsame])
          simp [hsame, hof]
        · simp [hsame]
      rw [hstays]
      cases hlast : (s.kept.filter fun bundle => bundleKey bundle = key).getLast? with
      | none => rfl
      | some bundle =>
          obtain ⟨hmem, hsame⟩ := List.mem_filter.1 (List.mem_of_getLast? hlast)
          have hof := (h.isOfSession_iff tenant sessionId hmem).not.2
            (by rwa [of_decide_eq_true hsame])
          refine Option.filter_eq_some_iff.2 ⟨rfl, ?_⟩
          rw [← of_decide_eq_true hsame, isBundleOf_bundleKey]
          simpa using hof
  · intro key
    change (s.database.documents.erase _).get? key = ((s.memory.documents.erase _).get? key).map _
    by_cases hkey : key = (tenant.value, sessionId.value)
    · rw [hkey, Dict.get?_erase_self, Dict.get?_erase_self]
      rfl
    · rw [Dict.get?_erase_ne _ hkey, Dict.get?_erase_ne _ hkey]
      exact h.documents key
  · intro key document hdocument
    change (s.memory.documents.erase _).get? key = some document at hdocument
    by_cases hkey : key = (tenant.value, sessionId.value)
    · rw [hkey, Dict.get?_erase_self] at hdocument
      cases hdocument
    · rw [Dict.get?_erase_ne _ hkey] at hdocument
      exact h.named key document hdocument

end Represents

variable (server schemaVersion) in
theorem represents_after (configuration : ConfigurationSnapshot) (calls : List EvidenceCall)
    (howned : ∀ call ∈ calls, call.OwnedBy owner) :
    Represents server schemaVersion owner (after server schemaVersion configuration calls) := by
  have hrun : ∀ s, Represents server schemaVersion owner s →
      Represents server schemaVersion owner (calls.foldl (serve server schemaVersion) s) := by
    induction calls with
    | nil => exact fun s hs => hs
    | cons call rest ih =>
        refine fun s hs => ih (fun c hc => howned c (List.mem_cons_of_mem _ hc)) _ ?_
        have hcall := howned call List.mem_cons_self
        cases call with
        | saveRun run => exact hs.saveRun hcall
        | store completion => exact hs.store hcall
        | storeDocument completion => exact hs.storeDocument hcall
        | deleteForSession tenant sessionId => exact hs.deleteForSession tenant sessionId
  exact hrun _ (represents_fresh configuration)

namespace Represents

theorem ofRun (h : Represents server schemaVersion owner s) (tenant : TenantId) (runId : RunId) :
    s.database.tables.rows.ofRun runId.value tenant.value = written (s.keptFor tenant runId) := by
  rw [h.rows, ofRun_written, keptFor]

theorem loadDocument_of_stored (h : Represents server schemaVersion owner s) {tenant : TenantId}
    {sessionId : SessionId} {document : EvidenceDocument}
    (hdocument : s.memory.document? tenant sessionId = some document) {run : ProcessingRunRow}
    (hrun : s.database.tables.runs.get? document.runId.value = some run) :
    ∃ loaded provenance, s.database.loadDocument server tenant sessionId = .ok (some loaded) ∧
      (EvidenceBundle.gathered tenant document.runId sessionId
        (s.keptFor tenant document.runId)).HasAudio provenance ∧
      loaded.SameResult (document.holding ((EvidenceBundle.gathered tenant document.runId
        sessionId (s.keptFor tenant document.runId)).inheriting provenance)) := by
  have hrow := h.documents (tenant.value, sessionId.value)
  have hstored : s.memory.documents.get? (tenant.value, sessionId.value) = some document :=
    hdocument
  rw [hstored, Option.map_some] at hrow
  obtain ⟨hnamed, howner⟩ := h.named _ _ hstored
  have hsession : run.sessionId = sessionId.value := (h.runs _ _ hrun).trans howner
  have hof : ∀ bundle ∈ s.keptFor tenant document.runId, IsOf tenant document.runId bundle :=
    fun bundle hmem => of_decide_eq_true (List.mem_filter.1 hmem).2
  have hplain : ∀ bundle ∈ s.keptFor tenant document.runId, bundle.Plain :=
    fun bundle hmem => (h.sound bundle (List.mem_of_mem_filter hmem)).plain
  obtain ⟨bundle, provenance, hload, haudio, hsame⟩ := load_gathered server.toEvidenceServer
    hrun hsession (h.ofRun tenant document.runId) hof hplain
  obtain ⟨manifest, hmanifest, hread⟩ :=
    documentFrom_documentRow server schemaVersion document tenant.value bundle
  have hid : Identifier.of "RunId" document.runId.value = .ok document.runId.toIdentifier :=
    Identifier.of_value _ _
  refine ⟨{ document.holding bundle with manifest := manifest }, provenance, ?_, haudio, {
    sessionId := rfl
    runId := rfl
    manifest := hmanifest
    tokens := hsame.tokens
    assessments := hsame.assessments
    availability := hsame.availability
    speechEvents := hsame.speechEvents
    visualEvents := hsame.visualEvents
    prosody := hsame.prosody
    cooccurrences := hsame.cooccurrences }⟩
  have hrunId : (documentRow server schemaVersion document tenant.value).runId =
      document.runId.value := rfl
  dsimp only at hrow
  have hload' : s.database.tables.load server.toEvidenceServer tenant
      ⟨document.runId.toIdentifier⟩ = .ok (some bundle) := hload
  simp only [EvidenceDatabase.loadDocument, hrow, hrunId, hid, Functor.map, Except.map, bind,
    Except.bind, hload', hread]

theorem loadDocument_of_none (h : Represents server schemaVersion owner s) {tenant : TenantId}
    {sessionId : SessionId} (hdocument : s.memory.document? tenant sessionId = none) :
    s.database.loadDocumentPayload tenant sessionId = none ∧
      s.database.loadDocument server tenant sessionId = .ok none := by
  have hrow := h.documents (tenant.value, sessionId.value)
  have hstored : s.memory.documents.get? (tenant.value, sessionId.value) = none := hdocument
  rw [hstored, Option.map_none] at hrow
  rw [loadDocumentPayload, EvidenceDatabase.loadDocument, hrow]
  exact ⟨rfl, rfl⟩

theorem payload_of_stored (h : Represents server schemaVersion owner s) {tenant : TenantId}
    {sessionId : SessionId} {document : EvidenceDocument}
    (hdocument : s.memory.document? tenant sessionId = some document) :
    s.database.loadDocumentPayload tenant sessionId =
      some (server.column (renderDocument document schemaVersion)) := by
  have hrow := h.documents (tenant.value, sessionId.value)
  have hstored : s.memory.documents.get? (tenant.value, sessionId.value) = some document :=
    hdocument
  rw [hstored, Option.map_some] at hrow
  rw [loadDocumentPayload, hrow]
  rfl

/-- A run that holds the bundle of the document alone gives back the document. -/
theorem loadDocument_of_completion (h : Represents server schemaVersion owner s)
    {tenant : TenantId} {sessionId : SessionId} {completion : CompletedEvidence}
    (hdocument : s.memory.document? tenant sessionId = some completion.document)
    (hkept : s.keptFor tenant completion.document.runId = [completion.bundle]) :
    ∃ loaded provenance, s.database.loadDocument server tenant sessionId = .ok (some loaded) ∧
      completion.bundle.HasAudio provenance ∧
      loaded.SameResult (completion.document.inheriting provenance) := by
  have hmem : completion.bundle ∈ s.keptFor tenant completion.document.runId := by
    rw [hkept]
    exact List.mem_cons_self
  have hknown := h.known _ (List.mem_of_mem_filter hmem)
  rw [← completion.carries.runId] at hknown
  obtain ⟨run, hrun⟩ := Option.isSome_iff_exists.1 hknown
  obtain ⟨loaded, provenance, hload, haudio, hsame⟩ := h.loadDocument_of_stored hdocument hrun
  have hevidence : completion.document.holding ((EvidenceBundle.gathered tenant
      completion.document.runId sessionId [completion.bundle]).inheriting provenance) =
        completion.document.inheriting provenance := by
    rw [EvidenceDocument.inheriting, ← completion.carries.evidence]
    simp [EvidenceDocument.holding, EvidenceBundle.gathered, EvidenceBundle.inheriting]
  rw [hkept, hevidence] at hsame
  rw [hkept] at haudio
  refine ⟨loaded, provenance, hload, ?_, hsame⟩
  simpa [EvidenceBundle.HasAudio, EvidenceBundle.gathered, completion.carries.runId] using haudio

end Represents

end Represents

/-- How the documents of a tenant and a session agree. -/
structure DocumentsAgree (s : EvidenceStores) (tenant : TenantId) (sessionId : SessionId) :
    Prop where
  missing : s.memory.document? tenant sessionId = none →
    s.database.loadDocumentPayload tenant sessionId = none ∧
      s.database.loadDocument server tenant sessionId = .ok none
  served : ∀ document, s.memory.document? tenant sessionId = some document →
    s.database.loadDocumentPayload tenant sessionId =
      some (server.column (renderDocument document schemaVersion))
  loaded : ∀ document run, s.memory.document? tenant sessionId = some document →
    s.database.tables.runs.get? document.runId.value = some run →
      ∃ loaded provenance, s.database.loadDocument server tenant sessionId = .ok (some loaded) ∧
        loaded.SameResult (document.holding ((EvidenceBundle.gathered tenant document.runId
          sessionId (s.keptFor tenant document.runId)).inheriting provenance))
  published : ∀ completion : CompletedEvidence,
    s.memory.document? tenant sessionId = some completion.document →
      s.keptFor tenant completion.document.runId = [completion.bundle] →
        ∃ loaded provenance, s.database.loadDocument server tenant sessionId = .ok (some loaded) ∧
          completion.bundle.HasAudio provenance ∧
          loaded.SameResult (completion.document.inheriting provenance)

/-- Where memory has no document, Postgres has none. The document that memory has is served as it
was rendered, and loads with its own manifest and the evidence that is kept of its run; stored with
its bundle alone, it loads as it was published, save that its readings inherit the provenance of
the run's audio. -/
theorem documents_agree (owner : String → String) (configuration : ConfigurationSnapshot)
    (calls : List EvidenceCall) (howned : ∀ call ∈ calls, call.OwnedBy owner) (tenant : TenantId)
    (sessionId : SessionId) :
    DocumentsAgree server schemaVersion (after server schemaVersion configuration calls) tenant
      sessionId := by
  have h := represents_after server schemaVersion configuration calls howned
  exact {
    missing := h.loadDocument_of_none
    served := fun document => h.payload_of_stored
    loaded := fun document run hdocument hrun => by
      obtain ⟨loaded, provenance, hload, -, hsame⟩ := h.loadDocument_of_stored hdocument hrun
      exact ⟨loaded, provenance, hload, hsame⟩
    published := fun completion => h.loadDocument_of_completion }

/-- The server that hands back documents as they were given. -/
def verbatim : DocumentServer where
  toEvidenceServer := EvidenceRepositories.inOrder
  takes _ := true
  column := id
  text _ := rfl
  members entries _ := ⟨entries, rfl, by simp⟩

def measuredDocument : EvidenceDocument where
  sessionId := studySessionId
  runId := Coordinator.sampleRunId
  manifest := ⟨defaultConfiguration.pipelineVersion, defaultConfiguration.schemaVersion,
    taxonomyVersion, defaultConfiguration.id, .empty, rfl⟩
  transcript := measuredBundle.transcript
  quality := measuredBundle.quality
  speechEvents := []
  visualEvents := []
  prosody := measuredBundle.prosody
  cooccurrences := []

def measuredEvidence : CompletedEvidence where
  bundle := measuredBundle
  document := measuredDocument
  completed := ⟨Coordinator.sample id, Coordinator.sampleRunId, Coordinator.sampleSessionId,
    [Coordinator.hearing 0 (.ok measuredRate)], studySession .completing, defaultConfiguration, 0,
    by rfl⟩

def publishedCalls : List EvidenceCall :=
  [.saveRun ⟨Coordinator.sampleRunId.value, studySessionId.value⟩, .store measuredEvidence,
    .storeDocument measuredEvidence]

theorem owned_publishedCalls :
    ∀ call ∈ publishedCalls, call.OwnedBy fun _ => studySessionId.value := by
  simp [publishedCalls, EvidenceCall.OwnedBy, measuredEvidence, measuredBundle]

theorem documents_agree_study :
    ∃ loaded provenance, (after verbatim "1.0.0" defaultConfiguration
        publishedCalls).database.loadDocument verbatim studyTenant studySessionId =
          .ok (some loaded) ∧
      measuredBundle.HasAudio provenance ∧
      loaded.SameResult (measuredDocument.inheriting provenance) :=
  (documents_agree verbatim "1.0.0" (fun _ => studySessionId.value) defaultConfiguration
    publishedCalls owned_publishedCalls studyTenant studySessionId).published measuredEvidence
      rfl rfl

section Deletion

variable {server : DocumentServer} {schemaVersion : String} {owner : String → String}
  {s : EvidenceStores} (h : Represents server schemaVersion owner s) (tenant : TenantId)
  (sessionId : SessionId)

namespace Represents

include h

theorem whose_matched :
    s.database.tables.rows.whose (s.database.matched tenant sessionId) =
      written (s.kept.filter (isOfSession tenant sessionId)) := by
  rw [h.rows, whose_written]
  exact congrArg written (List.filter_congr fun bundle hmem => h.matched tenant sessionId hmem)

theorem mem_bundles {key : String × String} {bundle : EvidenceBundle}
    (hget : s.memory.bundles.get? key = some bundle) :
    bundle ∈ s.kept ∧ bundleKey bundle = key := by
  rw [h.bundles] at hget
  obtain ⟨hkept, hkey⟩ := List.mem_filter.1 (List.mem_of_getLast? hget)
  exact ⟨hkept, of_decide_eq_true hkey⟩

theorem length_bundles_le :
    (s.memory.bundles.filter (World.isBundleOf tenant sessionId)).entries.length ≤
      (s.kept.filter (isOfSession tenant sessionId)).length := by
  have hentry : ∀ entry ∈ (s.memory.bundles.filter (World.isBundleOf tenant sessionId)).entries,
      entry.2 ∈ s.kept.filter (isOfSession tenant sessionId) ∧ bundleKey entry.2 = entry.1 := by
    intro entry hmem
    obtain ⟨hmem, hof⟩ := List.mem_filter.1 hmem
    obtain ⟨hkept, hkey⟩ :=
      h.mem_bundles ((s.memory.bundles.get?_eq_some_iff_mem entry.1 entry.2).2 hmem)
    refine ⟨List.mem_filter.2 ⟨hkept, ?_⟩, hkey⟩
    rwa [← hkey, isBundleOf_bundleKey] at hof
  have hkeys : ((s.memory.bundles.filter (World.isBundleOf tenant sessionId)).entries.map
      fun entry => bundleKey entry.2) =
        (s.memory.bundles.filter (World.isBundleOf tenant sessionId)).entries.map Prod.fst :=
    List.map_congr_left fun entry hmem => (hentry entry hmem).2
  have hnodup : ((s.memory.bundles.filter (World.isBundleOf tenant sessionId)).entries.map
      Prod.snd).Nodup := by
    refine List.Nodup.of_map bundleKey ?_
    rw [List.map_map]
    exact hkeys ▸ (s.memory.bundles.filter (World.isBundleOf tenant sessionId)).nodup
  have hle := hnodup.length_le_of_subset fun bundle hmem => by
    obtain ⟨entry, hentered, rfl⟩ := List.mem_map.1 hmem
    exact (hentry entry hentered).1
  rwa [List.length_map] at hle

theorem exists_bundle {bundle : EvidenceBundle}
    (hmem : bundle ∈ s.kept.filter (isOfSession tenant sessionId)) :
    0 < (s.memory.bundles.filter (World.isBundleOf tenant sessionId)).entries.length := by
  obtain ⟨hkept, hof⟩ := List.mem_filter.1 hmem
  have hne : (s.kept.filter fun b => bundleKey b = bundleKey bundle) ≠ [] :=
    List.ne_nil_of_mem (List.mem_filter.2 ⟨hkept, decide_eq_true rfl⟩)
  obtain ⟨last, hlast⟩ : ∃ last, (s.kept.filter fun b =>
      bundleKey b = bundleKey bundle).getLast? = some last :=
    ⟨_, List.getLast?_eq_some_getLast hne⟩
  have hget := (h.bundles (bundleKey bundle)).trans hlast
  obtain ⟨hlastKept, hkey⟩ := h.mem_bundles hget
  have hlastOf : isOfSession tenant sessionId last = true := by
    rw [h.isOfSession_iff tenant sessionId hlastKept, hkey]
    exact (h.isOfSession_iff tenant sessionId hkept).1 hof
  refine List.length_pos_of_mem (List.mem_filter.2
    ⟨(Dict.get?_eq_some_iff_mem _ _ _).1 hget, ?_⟩)
  rw [← hkey]
  exact (isBundleOf_bundleKey tenant sessionId last).trans hlastOf

theorem deleteEvidenceForSession_reports :
    (s.memory.deleteEvidenceForSession tenant sessionId).1 =
      ((s.memory.bundles.filter (World.isBundleOf tenant sessionId)).entries.length +
        if s.database.documents.contains (tenant.value, sessionId.value) then 1 else 0 : ℕ) := by
  have hcontains : s.database.documents.contains (tenant.value, sessionId.value) =
      s.memory.documents.contains (tenant.value, sessionId.value) := by
    rw [Dict.contains, Dict.contains, h.documents, Option.isSome_map]
  rw [deleteEvidenceForSession_fst, Dict.length_sub_length_filter_not, hcontains]
  split_ifs <;> simp

/-- Postgres reports the rows of the kept bundles of the session and its document. -/
theorem purgeSessionRows_reports :
    (s.database.purgeSessionRows tenant sessionId).1 =
      (written (s.kept.filter (isOfSession tenant sessionId))).size +
        if s.database.documents.contains (tenant.value, sessionId.value) then 1 else 0 := by
  rw [purgeSessionRows_eq, h.whose_matched]

theorem ofRun_purgeSessionRows (runId tenantId : String) :
    (s.database.purgeSessionRows tenant sessionId).2.tables.rows.ofRun runId tenantId =
      if owner runId = sessionId.value ∧ tenantId = tenant.value then .empty
      else s.database.tables.rows.ofRun runId tenantId := by
  rw [purgeSessionRows_eq]
  change (s.database.tables.rows.whose fun run other =>
    !s.database.matched tenant sessionId run other).ofRun runId tenantId = _
  rw [EvidenceRows.ofRun_whose]
  cases hrun : s.database.tables.runs.get? runId with
  | none =>
      have hnone : (s.kept.filter fun bundle =>
          decide (bundle.runId.value = runId ∧ bundle.tenant.value = tenantId)) = [] := by
        refine List.filter_eq_nil_iff.2 fun bundle hmem hof => ?_
        have hknown := h.known bundle hmem
        rw [(of_decide_eq_true hof).1, hrun] at hknown
        cases hknown
      have hempty : s.database.tables.rows.ofRun runId tenantId = .empty := by
        rw [h.rows]
        exact (whose_written (fun run other => decide (run = runId ∧ other = tenantId)) _).trans
          (congrArg written hnone)
      rw [hempty]
      split_ifs <;> rfl
  | some run =>
      have hmem : runId ∈ s.database.runIds sessionId ↔ owner runId = sessionId.value := by
        rw [mem_runIds_iff, hrun, ← h.runs _ _ hrun]
        simp
      simp only [EvidenceDatabase.matched, hmem]
      by_cases hboth : owner runId = sessionId.value ∧ tenantId = tenant.value
      · simp [hboth]
      · rw [if_neg hboth]
        simp [hboth]

end Represents

end Deletion

/-- What deleting the evidence of a session does on Postgres, and how its report compares with that
of memory, which counts bundles and not rows. -/
structure DeletesAlike (owner : String → String) (s : EvidenceStores) (tenant : TenantId)
    (sessionId : SessionId) : Prop where
  reports_le : (s.memory.deleteEvidenceForSession tenant sessionId).1 ≤
    (s.database.purgeSessionRows tenant sessionId).1
  reports_nothing : (s.database.purgeSessionRows tenant sessionId).1 = 0 ↔
    (s.memory.deleteEvidenceForSession tenant sessionId).1 = 0
  removed : (s.database.purgeSessionRows tenant sessionId).1 +
    (s.database.purgeSessionRows tenant sessionId).2.size = s.database.size
  rows : ∀ runId tenantId,
    (s.database.purgeSessionRows tenant sessionId).2.tables.rows.ofRun runId tenantId =
      if owner runId = sessionId.value ∧ tenantId = tenant.value then .empty
      else s.database.tables.rows.ofRun runId tenantId
  documents : ∀ key, (s.database.purgeSessionRows tenant sessionId).2.documents.get? key =
    if key = (tenant.value, sessionId.value) then none else s.database.documents.get? key
  again : ((s.database.purgeSessionRows tenant sessionId).2.purgeSessionRows tenant sessionId).1 = 0

/-- A deletion removes the rows of the session's runs and its document, no others, and reports how
many. It reports none on Postgres exactly when in memory, and never fewer than there. -/
theorem deletions_agree (server : DocumentServer) (schemaVersion : String)
    (owner : String → String) (configuration : ConfigurationSnapshot) (calls : List EvidenceCall)
    (howned : ∀ call ∈ calls, call.OwnedBy owner) (tenant : TenantId) (sessionId : SessionId) :
    DeletesAlike owner (after server schemaVersion configuration calls) tenant sessionId := by
  have h := represents_after server schemaVersion configuration calls howned
  have hle := h.length_bundles_le tenant sessionId
  have hassessed : ∀ bundle ∈ ((after server schemaVersion configuration calls).kept.filter
      (isOfSession tenant sessionId)), bundle.quality.assessments ≠ [] :=
    fun bundle hmem => (h.sound bundle (List.mem_of_mem_filter hmem)).assessed
  have hsize := length_le_size_written hassessed
  refine {
    reports_le := ?_
    reports_nothing := ?_
    removed := purgeSessionRows_size _ _ _
    rows := h.ofRun_purgeSessionRows tenant sessionId
    documents := ?_
    again := purgeSessionRows_again _ _ _ }
  · rw [h.deleteEvidenceForSession_reports, h.purgeSessionRows_reports]
    omega
  · rw [h.deleteEvidenceForSession_reports, h.purgeSessionRows_reports, Int.natCast_eq_zero,
      Nat.add_eq_zero_iff, Nat.add_eq_zero_iff]
    refine and_congr_left fun _ => ⟨fun hnone => by omega, fun hnone => ?_⟩
    have hkept : ((after server schemaVersion configuration calls).kept.filter
        (isOfSession tenant sessionId)) = [] := by
      refine List.eq_nil_iff_forall_not_mem.2 fun bundle hmem => ?_
      have hpos := h.exists_bundle tenant sessionId hmem
      omega
    rw [hkept]
    rfl
  · intro key
    rw [purgeSessionRows_eq]
    change (Dict.erase _ _).get? key = _
    split_ifs with hkey
    · rw [hkey, Dict.get?_erase_self]
    · exact Dict.get?_erase_ne _ hkey

theorem deletions_agree_study :
    ((after verbatim "1.0.0" defaultConfiguration publishedCalls).database.purgeSessionRows
        studyTenant studySessionId).2.size = 0 ∧
      (((after verbatim "1.0.0" defaultConfiguration publishedCalls).database.purgeSessionRows
        studyTenant studySessionId).2.purgeSessionRows studyTenant studySessionId).1 = 0 :=
  ⟨rfl, (deletions_agree verbatim "1.0.0" (fun _ => studySessionId.value) defaultConfiguration
    publishedCalls owned_publishedCalls studyTenant studySessionId).again⟩

end EvidenceStores

end OratoriaEngine
