import OratoriaEngine.IngestFrames
import OratoriaEngine.PostgresEvidence
import OratoriaEngine.ReconcileSteps

/-!
# The two evidence repositories

What completing a session stores is kept in memory whole and on Postgres as rows. A bundle that
was stored once comes back from its rows up to the order of its collections, its prosody under
the provenance of the run's audio.
-/

namespace OratoriaEngine

open Stateful

/-- Every window was built with the default tolerance, every measurement of the quality is
certain. -/
def StreamingState.Plain (s : StreamingState) : Prop :=
  (∀ reading ∈ s.prosody, reading.window.Plain) ∧
    (∀ assessment ∈ s.quality.assessments, assessment.Plain) ∧
    ∀ record ∈ s.quality.availability, record.window.Plain

theorem Interval.plain_of_eq_ok {startMs endMs : ℤ} {window : Interval}
    (h : Interval.of startMs endMs = .ok window) : window.Plain := (Interval.of_eq_ok h).2.2

theorem SpeechAssembler.plain_of_mem_prosody {a : SpeechAssembler} {result : SpeechResult}
    {assembled : AssembledSpeech} (h : a.assemble result = .ok assembled)
    {reading : ProsodyReading} (hr : reading ∈ assembled.prosody) : reading.window.Plain := by
  obtain ⟨tokens, -, h⟩ := Except.bind_eq_ok.1 h
  obtain ⟨events, -, h⟩ := Except.bind_eq_ok.1 h
  obtain ⟨prosody, hprosody, h⟩ := Except.bind_eq_ok.1 h
  cases h
  obtain ⟨hypothesis, -, hread⟩ := Except.mem_of_mapM_eq_ok hprosody hr
  obtain ⟨window, hwindow, hread⟩ := Except.bind_eq_ok.1 hread
  have hplain := Interval.plain_of_eq_ok hwindow
  cases hvalue : hypothesis.value with
  | none =>
      rw [hvalue] at hread
      cases hread
      exact hplain
  | some value =>
      rw [hvalue] at hread
      obtain ⟨confidence, -, hread⟩ := Except.bind_eq_ok.1 hread
      cases hread
      exact hplain

namespace VisualAssembler

theorem plain_of_mem_grade {signal : VisualQualitySignal}
    {graded : List QualityAssessment × ModalityAvailability} (h : grade signal = .ok graded) :
    (∀ assessment ∈ graded.1, assessment.Plain) ∧ graded.2.window.Plain := by
  obtain ⟨assessed, hassessed, h⟩ := Except.bind_eq_ok.1 h
  obtain ⟨record, hrecord, h⟩ := Except.bind_eq_ok.1 h
  cases h
  obtain ⟨window, hwindow, hassessed⟩ := Except.bind_eq_ok.1 hassessed
  cases hassessed
  obtain ⟨window', hwindow', hrecord⟩ := Except.bind_eq_ok.1 hrecord
  constructor
  · have hratio : ∀ value m, ratio value = .measured m → m.confidence = .certain ∧ m.unit ≠ "" := by
      intro value m hm
      cases hm
      exact ⟨rfl, (by decide : "ratio" ≠ "")⟩
    intro assessment hmem
    simp only [List.mem_cons, List.not_mem_nil, or_false] at hmem
    have hplain := Interval.plain_of_eq_ok hwindow
    rcases hmem with rfl | rfl | rfl | rfl <;> exact ⟨hplain, hratio _⟩
  · have hplain := Interval.plain_of_eq_ok hwindow'
    split_ifs at hrecord <;> cases hrecord <;> exact hplain

theorem plain_of_assemble {a : VisualAssembler} {result : VisualResult}
    {assembled : AssembledVisual} (h : a.assemble result = .ok assembled) :
    (∀ assessment ∈ assembled.assessments, assessment.Plain) ∧
      ∀ record ∈ assembled.availability, record.window.Plain := by
  obtain ⟨built, -, h⟩ := Except.bind_eq_ok.1 h
  obtain ⟨graded, hgraded, h⟩ := Except.bind_eq_ok.1 h
  cases h
  have heach : ∀ pair ∈ graded, (∀ assessment ∈ pair.1, assessment.Plain) ∧
      pair.2.window.Plain := by
    intro pair hpair
    obtain ⟨signal, -, hsignal⟩ := Except.mem_of_mapM_eq_ok hgraded hpair
    exact plain_of_mem_grade hsignal
  constructor
  · intro assessment hmem
    obtain ⟨pair, hpair, hin⟩ := List.mem_flatMap.1 hmem
    exact (heach pair hpair).1 assessment hin
  · intro record hmem
    obtain ⟨pair, hpair, rfl⟩ := List.mem_map.1 hmem
    exact (heach pair hpair).2

end VisualAssembler

namespace Coordinator

variable (c : Coordinator) (ports : StreamPorts)

theorem keeps_plain_absorbSpeech (result : SpeechResult) :
    Keeps (fun t : Stream => t.state.Plain) (absorbSpeech c ports result) := by
  intro t
  obtain ⟨transcript, events, prosody, hstate, hgrown⟩ := state_exec_absorbSpeech c ports result t
  dsimp only
  rw [hstate]
  rcases hgrown with rfl | ⟨assembled, hassembled, rfl⟩
  · rfl
  · have hnew : ∀ reading ∈ assembled.prosody, reading.window.Plain :=
      fun _ => SpeechAssembler.plain_of_mem_prosody hassembled
    simp only [StreamingState.Plain, List.mem_append, or_imp, forall_and]
    exact propext ⟨fun h => ⟨h.1.1, h.2⟩, fun h => ⟨⟨h.1, hnew⟩, h.2⟩⟩

theorem keeps_plain_absorbVisual (result : VisualResult) :
    Keeps (fun t : Stream => t.state.Plain) (absorbVisual c ports result) := by
  intro t
  obtain ⟨events, quality, hstate, hgrown⟩ := state_exec_absorbVisual c ports result t
  dsimp only
  rw [hstate]
  rcases hgrown with rfl | ⟨assembled, hassembled, rfl⟩
  · rfl
  · obtain ⟨hassessments, havailability⟩ := VisualAssembler.plain_of_assemble hassembled
    simp only [StreamingState.Plain, QualityReport.extended, List.mem_append, or_imp, forall_and]
    exact propext ⟨fun h => ⟨h.1, h.2.1.1, h.2.2.1⟩, fun h =>
      ⟨h.1, ⟨h.2.1, hassessments⟩, h.2.2, havailability⟩⟩

theorem plain_after {t : Stream} (h : t.state.Plain) (r : Request) : (c.after t r).state.Plain := by
  have hblind : ∀ modality, BlindToRefusal (fun t : Stream => t.state.Plain) modality :=
    fun _ => ⟨fun _ _ => rfl, fun _ _ _ => rfl⟩
  have hchunks : ∀ modality t l, (withChunks t modality l).state.Plain = t.state.Plain := by
    intro modality t l
    cases modality <;> rfl
  obtain ⟨ports, call⟩ := r
  cases call with
  | audio sequence window =>
      have hview := view_ingest_eq c ports (.transcribe window) (ports.speech window)
        (absorbSpeech c ports) sequence (hblind .audio) (hchunks .audio) (fun _ => rfl)
        (keeps_plain_absorbSpeech c ports) t
      exact hview.mpr h
  | video sequence frames =>
      have hview := view_ingest_eq c ports (.observe frames) (ports.vision frames)
        (absorbVisual c ports) sequence (hblind .video) (hchunks .video) (fun _ => rfl)
        (keeps_plain_absorbVisual c ports) t
      exact hview.mpr h

theorem plain_runCalls (runId : RunId) (sessionId : SessionId) (requests : List Request) :
    (c.runCalls (.fresh runId sessionId) requests).state.Plain := by
  have hfresh : (Stream.fresh runId sessionId).state.Plain :=
    ⟨fun _ h => (nomatch h), fun _ h => (nomatch h), fun _ h => (nomatch h)⟩
  have hrun : ∀ t : Stream, t.state.Plain → (c.runCalls t requests).state.Plain := by
    induction requests with
    | nil => exact fun t ht => ht
    | cons r rest ih => exact fun t ht => ih _ (plain_after c ht r)
  exact hrun _ hfresh

end Coordinator

/-- Completing a session stores the bundle, after some calls on the stream of its run. -/
def Completes (bundle : EvidenceBundle) : Prop :=
  ∃ (c : Coordinator) (runId : RunId) (sessionId : SessionId) (requests : List Coordinator.Request)
    (session : AnalysisSession) (configuration : ConfigurationSnapshot) (wallMs : ℤ)
    (document : EvidenceDocument),
    assembleEvidence (c.runCalls (.fresh runId sessionId) requests).state session configuration
      bundle.tenant bundle.sessionId wallMs = .ok (bundle, document)

theorem plain_withTransportQuality {state closed : StreamingState} {session : AnalysisSession}
    {wallMs : ℤ} {quality : QualityReport} (hplain : state.Plain)
    (h : withTransportQuality state session wallMs = .ok (quality, closed)) :
    closed.prosody = state.prosody ∧ (∀ assessment ∈ quality.assessments, assessment.Plain) ∧
      ∀ record ∈ quality.availability, record.window.Plain := by
  obtain ⟨captured, hcaptured, h⟩ := Except.bind_eq_ok.1 h
  cases h
  have hloss : ∀ modality l, (chunkLoss modality captured l).Plain := by
    intro modality l
    refine ⟨Interval.plain_of_eq_ok hcaptured, fun m hm => ?_⟩
    cases hm
    exact ⟨rfl, (by decide : "ratio" ≠ "")⟩
  refine ⟨rfl, ?_, ?_⟩
  · intro assessment hmem
    rcases List.mem_append.1 hmem with hold | hnew
    · exact hplain.2.1 assessment hold
    · split_ifs at hnew
      · simp only [List.mem_cons, List.not_mem_nil, or_false] at hnew
        rcases hnew with rfl | rfl <;> exact hloss _ _
      · rw [List.mem_singleton] at hnew
        rw [hnew]
        exact hloss _ _
  · intro record hmem
    exact hplain.2.2 record (by simpa [QualityReport.extended] using hmem)

theorem plain_of_completes {bundle : EvidenceBundle} (h : Completes bundle) : bundle.Plain := by
  obtain ⟨c, runId, sessionId, requests, session, configuration, wallMs, document, h⟩ := h
  have hstate := c.plain_runCalls runId sessionId requests
  obtain ⟨⟨quality, closed⟩, hquality, h⟩ := Except.bind_eq_ok.1 h
  obtain ⟨hprosody, hassessments, havailability⟩ := plain_withTransportQuality hstate hquality
  obtain ⟨pairs, -, h⟩ := Except.bind_eq_ok.1 h
  obtain ⟨manifest, -, h⟩ := Except.bind_eq_ok.1 h
  obtain ⟨_, -, h⟩ := Except.bind_eq_ok.1 h
  have hbundle := congrArg Prod.fst (Except.ok.inj h)
  dsimp only at hbundle
  rw [← hbundle]
  exact ⟨fun reading hr => hstate.1 reading (hprosody ▸ hr), hassessments, havailability⟩

structure CompletedBundle where
  bundle : EvidenceBundle
  completed : Completes bundle

/-- The tables and, in memory, the bundles by tenant and run. -/
structure EvidenceRepositories where
  tables : EvidenceTables
  bundles : Dict (String × String) EvidenceBundle

inductive RepositoryCall
  | saveRun (run : ProcessingRunRow)
  | store (completed : CompletedBundle)

namespace EvidenceRepositories

variable (r : EvidenceRepositories)

def fresh : EvidenceRepositories := ⟨.fresh, .empty⟩

/-- The bundle a call stores: both repositories keep what the database takes. -/
def taken : RepositoryCall → Option EvidenceBundle
  | .saveRun _ => none
  | .store completed =>
      if (r.tables.store completed.bundle).isSome then some completed.bundle else none

def serve : RepositoryCall → EvidenceRepositories
  | .saveRun run => ⟨r.tables.saveRun run, r.bundles⟩
  | .store completed =>
      match r.tables.store completed.bundle with
      | some tables =>
          ⟨tables, r.bundles.set (completed.bundle.tenant.value, completed.bundle.runId.value)
            completed.bundle⟩
      | none => r

def runCalls (calls : List RepositoryCall) : EvidenceRepositories := calls.foldl serve r

def stored : EvidenceRepositories → List RepositoryCall → List EvidenceBundle
  | _, [] => []
  | r, call :: rest => (r.taken call).toList ++ stored (r.serve call) rest

def IsOf (tenant : TenantId) (runId : RunId) (bundle : EvidenceBundle) : Prop :=
  bundle.runId.value = runId.value ∧ bundle.tenant.value = tenant.value

instance (tenant : TenantId) (runId : RunId) : DecidablePred (IsOf tenant runId) :=
  fun _ => inferInstanceAs (Decidable (_ ∧ _))

/-- What the calls store under one tenant and run. -/
def storedFor (calls : List RepositoryCall) (tenant : TenantId) (runId : RunId) :
    List EvidenceBundle := (r.stored calls).filter (IsOf tenant runId)

end EvidenceRepositories

section Selected

variable {α ρ : Type} {write : α → ρ} {key : ρ → Prop} [DecidablePred key]

theorem filter_map_of_forall (h : ∀ a, key (write a)) (l : List α) :
    (l.map write).filter (fun row => key row) = l.map write := by
  apply List.filter_eq_self.2
  intro row hrow
  obtain ⟨a, -, rfl⟩ := List.mem_map.1 hrow
  exact decide_eq_true (h a)

theorem filter_map_of_forall_not (h : ∀ a, ¬key (write a)) (l : List α) :
    (l.map write).filter (fun row => key row) = [] := by
  apply List.filter_eq_nil_iff.2
  intro row hrow
  obtain ⟨a, -, rfl⟩ := List.mem_map.1 hrow
  exact fun hkey => h a (of_decide_eq_true hkey)

end Selected

theorem prosodyToRow_key (reading : ProsodyReading) (runId : String) (tenant : TenantId) :
    (prosodyToRow reading runId tenant).runId = runId ∧
      (prosodyToRow reading runId tenant).tenantId = tenant.value := by
  unfold prosodyToRow
  cases reading.value <;> exact ⟨rfl, rfl⟩

theorem assessmentToRow_key (assessment : QualityAssessment) (runId : String)
    (tenant : TenantId) :
    (assessmentToRow assessment runId tenant).runId = runId ∧
      (assessmentToRow assessment runId tenant).tenantId = tenant.value := by
  unfold assessmentToRow
  cases assessment.value <;> exact ⟨rfl, rfl⟩

theorem ofRun_writeBundle (bundle : EvidenceBundle) (tenant : TenantId) (runId : RunId) :
    (writeBundle bundle).ofRun runId.value tenant.value =
      if EvidenceRepositories.IsOf tenant runId bundle then writeBundle bundle else .empty := by
  have hprosody : ∀ reading, ((prosodyToRow reading bundle.runId.value bundle.tenant).runId =
      runId.value ∧ (prosodyToRow reading bundle.runId.value bundle.tenant).tenantId =
        tenant.value) ↔ EvidenceRepositories.IsOf tenant runId bundle := by
    intro reading
    obtain ⟨hrun, htenant⟩ := prosodyToRow_key reading bundle.runId.value bundle.tenant
    rw [hrun, htenant, EvidenceRepositories.IsOf]
  have hassessment : ∀ assessment, ((assessmentToRow assessment bundle.runId.value
      bundle.tenant).runId = runId.value ∧ (assessmentToRow assessment bundle.runId.value
        bundle.tenant).tenantId = tenant.value) ↔
          EvidenceRepositories.IsOf tenant runId bundle := by
    intro assessment
    obtain ⟨hrun, htenant⟩ := assessmentToRow_key assessment bundle.runId.value bundle.tenant
    rw [hrun, htenant, EvidenceRepositories.IsOf]
  split_ifs with h
  · simp only [EvidenceRows.ofRun, writeBundle, EvidenceRows.mk.injEq]
    refine ⟨filter_map_of_forall ?_ _, filter_map_of_forall ?_ _, filter_map_of_forall ?_ _,
      filter_map_of_forall ?_ _, filter_map_of_forall ?_ _, filter_map_of_forall ?_ _,
      filter_map_of_forall ?_ _⟩ <;> intro a
    exacts [h, h, h, (hprosody a).2 h, (hassessment a).2 h, h, h]
  · simp only [EvidenceRows.ofRun, writeBundle, EvidenceRows.empty, EvidenceRows.mk.injEq]
    refine ⟨filter_map_of_forall_not ?_ _, filter_map_of_forall_not ?_ _,
      filter_map_of_forall_not ?_ _, filter_map_of_forall_not ?_ _,
      filter_map_of_forall_not ?_ _, filter_map_of_forall_not ?_ _,
      filter_map_of_forall_not ?_ _⟩ <;> intro a
    exacts [h, h, h, (hprosody a).not.2 h, (hassessment a).not.2 h, h, h]

namespace EvidenceRepositories

variable (r : EvidenceRepositories)

/-- The rows of the given bundles, in order. -/
def written : List EvidenceBundle → EvidenceRows
  | [] => .empty
  | bundle :: rest => (writeBundle bundle).append (written rest)

theorem written_append (bundles more : List EvidenceBundle) :
    written (bundles ++ more) = (written bundles).append (written more) := by
  induction bundles with
  | nil => rfl
  | cons bundle rest ih => rw [List.cons_append, written, ih, written, EvidenceRows.append_assoc]

/-- What one call does to the rows, the runs and the memory of one tenant and run. -/
theorem serve_cases (call : RepositoryCall) :
    (r.taken call = none ∧ (r.serve call).tables.rows = r.tables.rows ∧
      (r.serve call).bundles = r.bundles ∧
        ∀ key, (r.tables.runs.get? key).isSome → ((r.serve call).tables.runs.get? key).isSome) ∨
    ∃ completed : CompletedBundle, r.taken call = some completed.bundle ∧
      (r.serve call).tables.rows = r.tables.rows.append (writeBundle completed.bundle) ∧
      (r.serve call).bundles = r.bundles.set (completed.bundle.tenant.value,
        completed.bundle.runId.value) completed.bundle ∧
      (r.serve call).tables.runs = r.tables.runs ∧
      (r.tables.runs.get? completed.bundle.runId.value).isSome := by
  cases call with
  | saveRun run =>
      refine .inl ⟨rfl, rfl, rfl, fun key hkey => ?_⟩
      change ((r.tables.runs.set run.id run).get? key).isSome
      rw [Dict.get?_set]
      split_ifs
      · rfl
      · exact hkey
  | store completed =>
      by_cases h : (r.tables.runs.get? completed.bundle.runId.value).isSome ∧
          (r.tables.rows.append (writeBundle completed.bundle)).Keyed
      · have hstore : r.tables.store completed.bundle = some { r.tables with
            rows := r.tables.rows.append (writeBundle completed.bundle) } := if_pos h
        refine .inr ⟨completed, ?_, ?_, ?_, ?_, h.1⟩ <;> simp only [taken, serve, hstore]
        rfl
      · have hstore : r.tables.store completed.bundle = none := if_neg h
        refine .inl ⟨?_, ?_, ?_, ?_⟩ <;> simp only [taken, serve, hstore]
        · rfl
        · exact fun _ hkey => hkey

theorem rows_runCalls (calls : List RepositoryCall) :
    (r.runCalls calls).tables.rows = r.tables.rows.append (written (r.stored calls)) := by
  induction calls generalizing r with
  | nil => exact (EvidenceRows.append_empty _).symm
  | cons call rest ih =>
      change ((r.serve call).runCalls rest).tables.rows = _
      rw [ih, stored, written_append]
      rcases serve_cases r call with ⟨htaken, hrows, -⟩ | ⟨completed, htaken, hrows, -⟩
      · rw [htaken, hrows]
        rfl
      · rw [htaken, hrows, EvidenceRows.append_assoc]
        change _ = r.tables.rows.append
          (((writeBundle completed.bundle).append .empty).append _)
        rw [EvidenceRows.append_empty]

theorem ofRun_written (bundles : List EvidenceBundle) (tenant : TenantId) (runId : RunId) :
    (written bundles).ofRun runId.value tenant.value =
      written (bundles.filter (IsOf tenant runId)) := by
  induction bundles with
  | nil => rfl
  | cons bundle rest ih =>
      rw [written, EvidenceRows.ofRun_append, ofRun_writeBundle, ih, List.filter_cons]
      by_cases h : IsOf tenant runId bundle
      · rw [if_pos h, if_pos (decide_eq_true h), written]
      · rw [if_neg h, if_neg (by simpa using h)]
        rfl

theorem completes_of_mem_stored {calls : List RepositoryCall} {bundle : EvidenceBundle}
    (h : bundle ∈ r.stored calls) : Completes bundle := by
  induction calls generalizing r with
  | nil => cases h
  | cons call rest ih =>
      rcases List.mem_append.1 h with hnow | hlater
      · rcases serve_cases r call with ⟨htaken, -⟩ | ⟨completed, htaken, -⟩
        · rw [htaken] at hnow
          cases hnow
        · rw [htaken] at hnow
          rw [List.mem_singleton.1 hnow]
          exact completed.completed
      · exact ih _ hlater

theorem known_runCalls (calls : List RepositoryCall) :
    (∀ key, (r.tables.runs.get? key).isSome → ((r.runCalls calls).tables.runs.get? key).isSome) ∧
      ∀ bundle ∈ r.stored calls,
        ((r.runCalls calls).tables.runs.get? bundle.runId.value).isSome := by
  induction calls generalizing r with
  | nil => exact ⟨fun _ h => h, fun _ h => (nomatch h)⟩
  | cons call rest ih =>
      obtain ⟨hkeeps, hknown⟩ := ih (r.serve call)
      rcases serve_cases r call with ⟨htaken, -, -, hruns⟩ | ⟨completed, htaken, -, -, hruns, hrun⟩
      · refine ⟨fun key hkey => hkeeps key (hruns key hkey), ?_⟩
        rw [stored, htaken]
        exact hknown
      · refine ⟨fun key hkey => hkeeps key (by rwa [hruns]), ?_⟩
        rw [stored, htaken]
        intro bundle hmem
        rcases List.mem_cons.1 hmem with rfl | hmem
        · exact hkeeps _ (by rwa [hruns])
        · exact hknown bundle hmem

/-- In memory the last bundle stored under a tenant and a run is found. -/
theorem bundles_runCalls (calls : List RepositoryCall) (tenant : TenantId) (runId : RunId) :
    (r.runCalls calls).bundles.get? (tenant.value, runId.value) =
      (r.storedFor calls tenant runId).getLast?.or
        (r.bundles.get? (tenant.value, runId.value)) := by
  induction calls generalizing r with
  | nil => rfl
  | cons call rest ih =>
      change ((r.serve call).runCalls rest).bundles.get? _ = _
      rw [ih]
      simp only [storedFor, stored, List.filter_append, List.getLast?_append]
      rcases serve_cases r call with ⟨htaken, -, hbundles, -⟩ | ⟨completed, htaken, -, hbundles, -⟩
      · rw [htaken, hbundles]
        simp
      · rw [htaken, hbundles, Dict.get?_set]
        by_cases h : IsOf tenant runId completed.bundle
        · have hkey : (tenant.value, runId.value) =
              (completed.bundle.tenant.value, completed.bundle.runId.value) :=
            Prod.ext h.2.symm h.1.symm
          simp [h, hkey]
        · have hkey : (tenant.value, runId.value) ≠
              (completed.bundle.tenant.value, completed.bundle.runId.value) :=
            fun hk => h ⟨(Prod.ext_iff.1 hk).2.symm, (Prod.ext_iff.1 hk).1.symm⟩
          simp [h, hkey]

section Loading

variable (server : EvidenceServer) (calls : List RepositoryCall) (tenant : TenantId)
  (runId : RunId)

theorem ofRun_fresh_runCalls :
    (fresh.runCalls calls).tables.rows.ofRun runId.value tenant.value =
      written (fresh.storedFor calls tenant runId) := by
  have hrows := rows_runCalls fresh calls
  rw [hrows, EvidenceRows.ofRun_append, ofRun_written]
  rfl

/-- A bundle stored once, under a run of its session, is loaded under a provenance of its
audio. -/
theorem load_of_stored {bundle : EvidenceBundle}
    (hstored : fresh.storedFor calls tenant runId = [bundle]) {run : ProcessingRunRow}
    (hrun : (fresh.runCalls calls).tables.runs.get? runId.value = some run)
    (hsession : run.sessionId = bundle.sessionId.value) :
    ∃ loaded provenance,
      (fresh.runCalls calls).tables.load server tenant runId = .ok (some loaded) ∧
        bundle.HasAudio provenance ∧ loaded.SameEvidence (bundle.inheriting provenance) := by
  have hmem : bundle ∈ fresh.storedFor calls tenant runId := by
    rw [hstored]
    exact List.mem_cons_self
  obtain ⟨hof, hkey⟩ := List.mem_filter.1 hmem
  have hkey : IsOf tenant runId bundle := of_decide_eq_true hkey
  have hid := (fresh.runCalls calls).tables.keyed _ _ hrun
  have htenant : tenant = bundle.tenant := by
    cases tenant
    exact congrArg TenantId.mk (Identifier.ext_value hkey.2.symm)
  have hrows : (server.answer ((fresh.runCalls calls).tables.rows.ofRun run.id
      tenant.value)).Rearranges (writeBundle bundle) := by
    have hanswer := server.rearranges
      ((fresh.runCalls calls).tables.rows.ofRun run.id tenant.value)
    have hwritten := ofRun_fresh_runCalls calls tenant runId
    rw [hstored, written, written, EvidenceRows.append_empty] at hwritten
    rwa [hid, hwritten] at hanswer ⊢
  obtain ⟨loaded, provenance, hread, haudio, hsame⟩ := readBundle_of_rearranges
    (plain_of_completes (completes_of_mem_stored fresh hof)) (hid.trans hkey.1.symm) hsession hrows
  refine ⟨loaded, provenance, ?_, haudio, hsame⟩
  rw [← htenant] at hread
  rw [EvidenceTables.load, hrun]
  exact congrArg (some <$> ·) hread

/-- A run without a row has no bundle in either repository. -/
theorem load_of_unknown (hunknown : (fresh.runCalls calls).tables.runs.get? runId.value = none) :
    (fresh.runCalls calls).tables.load server tenant runId = .ok none ∧
      (fresh.runCalls calls).bundles.get? (tenant.value, runId.value) = none := by
  constructor
  · rw [EvidenceTables.load, hunknown]
  · have hnone : fresh.storedFor calls tenant runId = [] := by
      apply List.filter_eq_nil_iff.2
      intro bundle hmem hof
      have hknown := (known_runCalls fresh calls).2 bundle hmem
      have hof : IsOf tenant runId bundle := of_decide_eq_true hof
      rw [hof.1, hunknown] at hknown
      cases hknown
    rw [bundles_runCalls, hnone]
    rfl

/-- What was stored once for a run of its session is found in both repositories and is the same up
to the order of its collections, save that on Postgres every reading inherits the provenance of
the run's audio. A run that is not known is found in neither. -/
theorem loads_under_audio :
    (∀ bundle, fresh.storedFor calls tenant runId = [bundle] →
      (fresh.runCalls calls).bundles.get? (tenant.value, runId.value) = some bundle ∧
      ∃ run, (fresh.runCalls calls).tables.runs.get? runId.value = some run ∧
        (run.sessionId = bundle.sessionId.value → ∃ loaded provenance,
          (fresh.runCalls calls).tables.load server tenant runId = .ok (some loaded) ∧
          bundle.HasAudio provenance ∧ loaded.SameEvidence (bundle.inheriting provenance) ∧
          ((∀ reading ∈ bundle.prosody, reading.provenance = provenance) →
            loaded.SameEvidence bundle))) ∧
    ((fresh.runCalls calls).tables.runs.get? runId.value = none →
      (fresh.runCalls calls).tables.load server tenant runId = .ok none ∧
      (fresh.runCalls calls).bundles.get? (tenant.value, runId.value) = none) := by
  constructor
  · intro bundle hstored
    constructor
    · rw [bundles_runCalls, hstored]
      rfl
    · have hmem : bundle ∈ fresh.storedFor calls tenant runId := by
        rw [hstored]
        exact List.mem_cons_self
      obtain ⟨hof, hkey⟩ := List.mem_filter.1 hmem
      have hkey : IsOf tenant runId bundle := of_decide_eq_true hkey
      have hknown := (known_runCalls fresh calls).2 bundle hof
      rw [hkey.1] at hknown
      obtain ⟨run, hrun⟩ := Option.isSome_iff_exists.1 hknown
      refine ⟨run, hrun, fun hsession => ?_⟩
      obtain ⟨loaded, provenance, hload, haudio, hsame⟩ :=
        load_of_stored server calls tenant runId hstored hrun hsession
      refine ⟨loaded, provenance, hload, haudio, hsame, fun hown => ?_⟩
      rwa [EvidenceBundle.inheriting_of_own hown] at hsame
  · exact load_of_unknown server calls tenant runId

end Loading

def LoadsAlike (server : EvidenceServer) (r : EvidenceRepositories) (tenant : TenantId)
    (runId : RunId) : Prop :=
  match r.bundles.get? (tenant.value, runId.value) with
  | some bundle => ∃ loaded, r.tables.load server tenant runId = .ok (some loaded) ∧
      loaded.SameEvidence bundle
  | none => r.tables.load server tenant runId = .ok none

/-- The server that answers with the rows as they were written. -/
def inOrder : EvidenceServer where
  answer := id
  rearranges _ := ⟨.refl _, .refl _, .refl _, .refl _, .refl _, .refl _, .refl _⟩

/-- Nothing is heard, but the speaking rate is measured. -/
def measuredRate : SpeechResult :=
  ⟨Coordinator.sampleModel, [], [], [⟨.speakingRateWpm, 0, 1000, some (.fin 120), .fin 1⟩], 0⟩

def measuredStream : Stream :=
  (Coordinator.sample id).runCalls (.fresh Coordinator.sampleRunId Coordinator.sampleSessionId)
    [Coordinator.hearing 0 (.ok measuredRate)]

theorem second_nonneg : (0 : ℤ) ≤ 1000 := by decide

def measuredReading : ProsodyReading :=
  .measured .speakingRateWpm
    ⟨.zero, ⟨1000, second_nonneg⟩, Interval.defaultToleranceMs, second_nonneg,
      Interval.defaultToleranceMs_nonneg⟩
    (.fin 120) ⟨1, .raw, zero_le_one, le_rfl⟩
    ((Coordinator.sample id).speechAssembler.provenance measuredRate)

def measuredBundle : EvidenceBundle where
  runId := Coordinator.sampleRunId
  sessionId := studySessionId
  tenant := studyTenant
  transcript := .empty
  quality := ⟨[chunkLoss .audio
    ⟨.zero, .zero, Interval.defaultToleranceMs, le_rfl, Interval.defaultToleranceMs_nonneg⟩
    measuredStream.state.audioChunks.finalize], []⟩
  speechEvents := []
  visualEvents := []
  prosody := [measuredReading]
  cooccurrences := []

theorem completes_measuredBundle : Completes measuredBundle := by
  obtain ⟨⟨bundle, document⟩, h⟩ := (assembleEvidence_isOk_iff measuredStream.state
    (studySession .completing) defaultConfiguration studyTenant studySessionId 0).2 rfl
  have hbundle : Prod.fst <$> assembleEvidence measuredStream.state (studySession .completing)
      defaultConfiguration studyTenant studySessionId 0 = .ok measuredBundle := by rfl
  rw [h] at hbundle
  cases hbundle
  exact ⟨Coordinator.sample id, Coordinator.sampleRunId, Coordinator.sampleSessionId,
    [Coordinator.hearing 0 (.ok measuredRate)], studySession .completing, defaultConfiguration, 0,
    document, h⟩

/-- The run is known and its bundle is stored. -/
def measuredCalls : List RepositoryCall :=
  [.saveRun ⟨Coordinator.sampleRunId.value, studySessionId.value⟩,
    .store ⟨measuredBundle, completes_measuredBundle⟩]

theorem storedFor_measuredCalls :
    fresh.storedFor measuredCalls studyTenant Coordinator.sampleRunId = [measuredBundle] := by
  rfl

theorem loads_under_audio_measured :
    ∃ loaded provenance, (fresh.runCalls measuredCalls).tables.load inOrder studyTenant
        Coordinator.sampleRunId = .ok (some loaded) ∧
      measuredBundle.HasAudio provenance ∧
        loaded.SameEvidence (measuredBundle.inheriting provenance) := by
  obtain ⟨run, hrun, hloads⟩ := ((loads_under_audio inOrder measuredCalls studyTenant
    Coordinator.sampleRunId).1 measuredBundle storedFor_measuredCalls).2
  have hsession : run.sessionId = measuredBundle.sessionId.value := by
    cases hrun
    rfl
  obtain ⟨loaded, provenance, hload, haudio, hsame, -⟩ := hloads hsession
  exact ⟨loaded, provenance, hload, haudio, hsame⟩

/-- The reading comes back as one of an unknown model under an unknown configuration. -/
theorem not_loadsAlike_measured :
    ¬LoadsAlike inOrder (fresh.runCalls measuredCalls) studyTenant Coordinator.sampleRunId := by
  intro halike
  have hrun : (fresh.runCalls measuredCalls).tables.runs.get? Coordinator.sampleRunId.value =
      some ⟨Coordinator.sampleRunId.value, studySessionId.value⟩ := rfl
  obtain ⟨loaded, provenance, hload, haudio, hsame⟩ := load_of_stored inOrder measuredCalls
    studyTenant Coordinator.sampleRunId storedFor_measuredCalls hrun rfl
  have hmemory : (fresh.runCalls measuredCalls).bundles.get?
      (studyTenant.value, Coordinator.sampleRunId.value) = some measuredBundle := by rfl
  rw [LoadsAlike, hmemory] at halike
  obtain ⟨loaded', hload', hsame'⟩ := halike
  cases hload.symm.trans hload'
  have hprosody : [measuredReading].Perm [measuredReading.under provenance] :=
    hsame'.prosody.symm.trans hsame.prosody
  have hown : measuredReading.under provenance = measuredReading :=
    List.singleton_inj.1 (List.perm_singleton.1 hprosody.symm)
  have hunknown : provenance = syntheticAudioProvenance Coordinator.sampleRunId.value := by
    rcases haudio with ⟨event, hevent, -⟩ | ⟨-, h⟩
    · cases hevent
    · exact h
  rw [hunknown] at hown
  have hmodel := congrArg (·.provenance.modelVersion) hown
  exact absurd hmodel (by decide +kernel)

end EvidenceRepositories

end OratoriaEngine
