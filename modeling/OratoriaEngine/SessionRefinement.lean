import OratoriaEngine.SessionRequests

/-!
# Sessions and runs on Postgres behave as in memory

A sound operation keeps every session and every run that is there, and what it adds is new. So
what a request has read stays there whatever the others do, and under every schedule the
requests are answered by the tables as by process memory.
-/

namespace OratoriaEngine

open Interleaving

/-- Receipts are about their own sessions, runs stand under their own identifiers and refer to
sessions that are stored. -/
structure World.Tidy (w : World) : Prop where
  receipts : ∀ tenant sessionId s, w.session? tenant sessionId = some s → s.OwnReceipt
  keyed : w.RunsKeyed
  referenced : ∀ key run, w.runs.get? key = some run → w.Stored run.sessionId

theorem World.tidy_fresh (configuration : ConfigurationSnapshot) :
    (World.fresh configuration).Tidy where
  receipts tenant sessionId s h := by cases h
  keyed := World.runsKeyed_fresh configuration
  referenced key run h := by cases h

/-- What a sound operation leaves: everything that was there, and new only what it adds. -/
structure Port.Extends (o : Port) (w w' : World) : Prop where
  tidy : w'.Tidy
  sessions : ∀ tenant sessionId s, w.session? tenant sessionId = some s →
    ∃ s', w'.session? tenant sessionId = some s' ∧ s'.consent.isSome = s.consent.isSome
  runs : ∀ key run, w.runs.get? key = some run →
    ∃ run', w'.runs.get? key = some run' ∧ run'.sessionId = run.sessionId
  newSession : ∀ sessionId, w'.Stored sessionId →
    w.Stored sessionId ∨ ∃ s, o = .sessionsAdd s ∧ s.id = sessionId
  newRun : ∀ key run', w'.runs.get? key = some run' →
    (∃ run, w.runs.get? key = some run) ∨ ∃ run, o = .runsAdd run ∧ run.id.value = key

section Extends

variable {o : Port} {w w' : World}

theorem extends_of_same (h : w.Tidy) (hsessions : w'.sessions = w.sessions)
    (hruns : w'.runs = w.runs) : o.Extends w w' := by
  have hsession? : ∀ tenant sessionId, w'.session? tenant sessionId = w.session? tenant sessionId :=
    fun tenant sessionId => by rw [World.session?, hsessions]; rfl
  have hstored : ∀ sessionId, w'.Stored sessionId ↔ w.Stored sessionId := fun sessionId => by
    rw [World.Stored, hsessions]
    rfl
  refine ⟨⟨fun tenant sessionId s hs => ?_, fun key run hrun => ?_, fun key run hrun => ?_⟩,
    fun tenant sessionId s hs => ⟨s, ?_, rfl⟩, fun key run hrun => ⟨run, ?_, rfl⟩,
    fun sessionId hs => .inl ((hstored sessionId).1 hs), fun key run hrun => .inl ⟨run, ?_⟩⟩
  · exact h.receipts tenant sessionId s ((hsession? tenant sessionId).symm.trans hs)
  · exact h.keyed key run (hruns ▸ hrun)
  · exact (hstored _).2 (h.referenced key run (hruns ▸ hrun))
  · exact (hsession? tenant sessionId).trans hs
  · rwa [hruns]
  · rwa [hruns] at hrun

theorem World.stored_of_putSession (w : World) (s : AnalysisSession) (sessionId : SessionId) :
    (w.putSession s).Stored sessionId → w.Stored sessionId ∨ s.id = sessionId := by
  rintro ⟨key, stored, hstored, rfl⟩
  change (w.sessions.entries.set _ s).get? key = some stored at hstored
  rw [Dict.get?_set] at hstored
  split_ifs at hstored with hkey
  · cases hstored
    exact .inr rfl
  · exact .inl ⟨key, stored, hstored, rfl⟩

theorem extends_putSession (h : w.Tidy) {s : AnalysisSession} (hown : s.OwnReceipt)
    (hplace : ∀ stored, w.session? s.tenantId s.id = some stored →
      s.consent.isSome = stored.consent.isSome)
    (hnew : w.Stored s.id ∨ o = .sessionsAdd s) : o.Extends w (w.putSession s) where
  tidy := by
    refine ⟨fun tenant sessionId s' hs' => ?_, h.keyed, fun key run hrun => ?_⟩
    · rw [World.session?_putSession] at hs'
      split_ifs at hs' with hkey
      · cases hs'
        exact hown
      · exact h.receipts tenant sessionId s' hs'
    · exact (h.referenced key run hrun).putSession s
  sessions tenant sessionId stored hstored := by
    rw [World.session?_putSession]
    split_ifs with hkey
    · obtain ⟨rfl, rfl⟩ := hkey
      exact ⟨s, rfl, hplace stored hstored⟩
    · exact ⟨stored, hstored, rfl⟩
  runs key run hrun := ⟨run, hrun, rfl⟩
  newSession sessionId hs := by
    rcases w.stored_of_putSession s sessionId hs with hs | rfl
    · exact .inl hs
    · exact hnew.imp_right fun ho => ⟨s, ho, rfl⟩
  newRun key run hrun := .inl ⟨run, hrun⟩

theorem extends_putRun (h : w.Tidy) {run : ProcessingRun} (hstored : w.Stored run.sessionId)
    (hplace : ∀ stored, w.runs.get? run.id.value = some stored →
      run.sessionId = stored.sessionId)
    (hnew : (∃ stored, w.runs.get? run.id.value = some stored) ∨ o = .runsAdd run) :
    o.Extends w { w with runs := w.runs.set run.id.value run } where
  tidy := by
    refine ⟨h.receipts, h.keyed.set run, fun key run' hrun' => ?_⟩
    rw [Dict.get?_set] at hrun'
    split_ifs at hrun' with hkey
    · cases hrun'
      exact hstored
    · exact h.referenced key run' hrun'
  sessions tenant sessionId s hs := ⟨s, hs, rfl⟩
  runs key stored hrun := by
    rw [Dict.get?_set]
    split_ifs with hkey
    · exact ⟨run, rfl, hplace stored (hkey ▸ hrun)⟩
    · exact ⟨stored, hrun, rfl⟩
  newSession sessionId hs := .inl hs
  newRun key run' hrun' := by
    rw [Dict.get?_set] at hrun'
    split_ifs at hrun' with hkey
    · exact hkey ▸ hnew.imp_right fun ho => ⟨run, ho, rfl⟩
    · exact .inl ⟨run', hrun'⟩

theorem extends_of_sound (h : w.Tidy) (ho : o.Sound w) : o.Extends w (inMemory o w).2 := by
  cases o with
  | sessionsAdd s =>
      refine extends_putSession h ho.1 (fun stored hstored => ?_) (.inr rfl)
      exact absurd ⟨_, stored, hstored, (World.session?_eq_some hstored).2⟩ ho.2
  | sessionsSave s =>
      obtain ⟨hown, stored, hstored, hconsent⟩ := ho
      refine extends_putSession h hown (fun stored' hstored' => ?_) (.inl ?_)
      · obtain rfl := Option.some.inj (hstored.symm.trans hstored')
        exact hconsent
      · exact ⟨_, stored, hstored, (World.session?_eq_some hstored).2⟩
  | runsAdd run =>
      refine extends_putRun h ho.2 (fun stored hstored => ?_) (.inr rfl)
      rw [ho.1] at hstored
      cases hstored
  | runsSave run =>
      obtain ⟨hsession, stored, hstored, hsame⟩ := ho
      refine extends_putRun h hsession (fun stored' hstored' => ?_) (.inl ⟨stored, hstored⟩)
      obtain rfl := Option.some.inj (hstored.symm.trans hstored')
      exact hsame
  | claimIdempotencyKey application key sessionId =>
      refine extends_of_same h ?_ ?_ <;> simp only [inMemory, World.claimIdempotencyKey] <;>
        split_ifs <;> rfl
  | evidenceDeleteForSession tenant sessionId =>
      refine extends_of_same h ?_ ?_ <;>
        simp only [inMemory, World.deleteEvidenceForSession_snd]
  | _ => exact extends_of_same h rfl rfl

end Extends

section Lawful

variable {ι : Type}

abbrev SessionConfig (ι : Type) := Config Port Port.Answer Failure SessionReply World ι

/-- No request has done anything yet. -/
def SessionRequest.start {W : Type} (requests : ι → SessionRequest) (w : W) :
    Config Port Port.Answer Failure SessionReply W ι := ⟨w, fun i => .start (requests i).program⟩

/-- Every request goes on as it should, what it read is still there, and the identifier that was
generated for it is free until it adds under it. -/
structure Lawful (requests : ι → SessionRequest) (c : SessionConfig ι) : Prop where
  heeds : ∀ i, Heeds (requests i).Needs (c.threads i).rest (c.threads i).past
  tidy : c.world.Tidy
  sessions : ∀ i tenant sessionId found,
    ⟨.sessionsGet tenant sessionId, .ok (some found)⟩ ∈ (c.threads i).past →
      found.tenantId = tenant ∧ found.id = sessionId ∧ found.OwnReceipt ∧
        ∃ s, c.world.session? tenant sessionId = some s ∧
          s.consent.isSome = found.consent.isSome
  runs : ∀ i runId found, ⟨.runsGet runId, .ok (some found)⟩ ∈ (c.threads i).past →
    found.id = runId ∧ ∃ run, c.world.runs.get? runId.value = some run ∧
      run.sessionId = found.sessionId
  freeSession : ∀ i sessionId, (requests i).newSession? = some sessionId →
    AddedNothing (c.threads i).past → ¬c.world.Stored sessionId
  freeRun : ∀ i runId, (requests i).newRun? = some runId → AddedNothing (c.threads i).past →
    c.world.runs.get? runId.value = none

structure OwnIds (requests : ι → SessionRequest) : Prop where
  session : ∀ i j sessionId, (requests i).newSession? = some sessionId →
    (requests j).newSession? = some sessionId → i = j
  run : ∀ i j runId, (requests i).newRun? = some runId → (requests j).newRun? = some runId → i = j

variable {requests : ι → SessionRequest}

theorem lawful_start {w : World} (htidy : w.Tidy)
    (hsessions : ∀ i sessionId, (requests i).newSession? = some sessionId → ¬w.Stored sessionId)
    (hruns : ∀ i runId, (requests i).newRun? = some runId → w.runs.get? runId.value = none) :
    Lawful requests (SessionRequest.start requests w) where
  heeds i := (requests i).heeds_program
  tidy := htidy
  sessions _ _ _ _ h := absurd h List.not_mem_nil
  runs _ _ _ h := absurd h List.not_mem_nil
  freeSession i sessionId h _ := hsessions i sessionId h
  freeRun i runId h _ := hruns i runId h

theorem Lawful.sound {c : SessionConfig ι} (h : Lawful requests c) {i : ι} {o : Port}
    {next : Except Failure o.Answer → Command SessionReply}
    (hrest : (c.threads i).rest = .call o next) : o.Sound c.world := by
  have hneeds := h.heeds i
  rw [hrest] at hneeds
  have hneed := hneeds.1
  cases o with
  | sessionsAdd s => exact ⟨hneed.2.1, h.freeSession i s.id hneed.1 hneed.2.2⟩
  | sessionsSave s =>
      obtain ⟨tenant, sessionId, found, hread, hcarries⟩ := hneed
      obtain ⟨rfl, rfl, hown, stored, hstored, hconsent⟩ := h.sessions i _ _ found hread
      refine ⟨hcarries.ownReceipt hown, stored, ?_, hcarries.isSome.trans hconsent.symm⟩
      rw [hcarries.1, hcarries.2.1, hstored]
  | runsAdd run =>
      obtain ⟨hrun, hnothing, tenant, found, hread⟩ := hneed
      obtain ⟨-, -, -, stored, hstored, -⟩ := h.sessions i _ _ found hread
      exact ⟨h.freeRun i run.id hrun hnothing,
        _, stored, hstored, (World.session?_eq_some hstored).2⟩
  | runsSave run =>
      obtain ⟨runId, found, hread, hid, hsession⟩ := hneed
      obtain ⟨hfound, stored, hstored, hsame⟩ := h.runs i runId found hread
      have hreferenced := h.tidy.referenced _ stored hstored
      rw [hsame, ← hsession] at hreferenced
      refine ⟨hreferenced, stored, ?_, hsession.trans hsame.symm⟩
      rw [hid, hfound, hstored]
  | _ => trivial

variable [DecidableEq ι]

theorem mem_past_resumed {threads : ι → Thread Port Port.Answer Failure SessionReply} {i j : ι}
    {o : Port} {next : Except Failure o.Answer → Command SessionReply}
    {r : Except Failure o.Answer} {e : Event Port Port.Answer Failure} :
    e ∈ (Function.update threads i ((threads i).resume o next r) j).past ↔
      e ∈ (threads j).past ∨ j = i ∧ e = ⟨o, r⟩ := by
  by_cases hj : j = i
  · subst hj
    rw [Function.update_self, Thread.resume, List.mem_append, List.mem_singleton]
    simp
  · rw [Function.update_of_ne hj]
    simp [hj]

theorem addedNothing_resumed {threads : ι → Thread Port Port.Answer Failure SessionReply}
    {i j : ι} {o : Port} {next : Except Failure o.Answer → Command SessionReply}
    {r : Except Failure o.Answer}
    (h : AddedNothing (Function.update threads i ((threads i).resume o next r) j).past) :
    AddedNothing (threads j).past ∧ (j = i → o.Adds = false) :=
  ⟨fun e he => h e (mem_past_resumed.2 (.inl he)),
    fun hj => h ⟨o, r⟩ (mem_past_resumed.2 (.inr ⟨hj, rfl⟩))⟩

theorem Lawful.resumed (hids : OwnIds requests) {c : SessionConfig ι} (h : Lawful requests c)
    {i : ι} {o : Port} {next : Except Failure o.Answer → Command SessionReply}
    (hrest : (c.threads i).rest = .call o next) {r : Except Failure o.Answer} {w' : World}
    (hext : o.Extends c.world w')
    (hread : ∀ tenant sessionId found,
      (⟨o, r⟩ : Event Port Port.Answer Failure) =
          ⟨.sessionsGet tenant sessionId, .ok (some found)⟩ →
        c.world.session? tenant sessionId = some found)
    (hreadRun : ∀ runId found,
      (⟨o, r⟩ : Event Port Port.Answer Failure) = ⟨.runsGet runId, .ok (some found)⟩ →
        c.world.runs.get? runId.value = some found) :
    Lawful requests ⟨w', Function.update c.threads i ((c.threads i).resume o next r)⟩ := by
  have hneeds := h.heeds i
  rw [hrest] at hneeds
  obtain ⟨hneed, hnext⟩ := hneeds
  refine ⟨fun j => ?_, hext.tidy, fun j tenant sessionId found hj => ?_,
    fun j runId found hj => ?_, fun j sessionId hj hnothing hstored => ?_,
    fun j runId hj hnothing => ?_⟩
  · by_cases hj : j = i
    · subst hj
      simpa only [Function.update_self, Thread.resume] using hnext r
    · simpa only [Function.update_of_ne hj] using h.heeds j
  · have hknown : found.tenantId = tenant ∧ found.id = sessionId ∧ found.OwnReceipt ∧
        ∃ s, c.world.session? tenant sessionId = some s ∧
          s.consent.isSome = found.consent.isSome := by
      rcases mem_past_resumed.1 hj with hj | ⟨-, heq⟩
      · exact h.sessions j tenant sessionId found hj
      · have hfound := hread tenant sessionId found heq.symm
        obtain ⟨htenant, hid⟩ := World.session?_eq_some hfound
        exact ⟨htenant, hid, h.tidy.receipts _ _ _ hfound, found, hfound, rfl⟩
    obtain ⟨htenant, hid, hown, s, hs, hconsent⟩ := hknown
    obtain ⟨s', hs', hconsent'⟩ := hext.sessions tenant sessionId s hs
    exact ⟨htenant, hid, hown, s', hs', hconsent'.trans hconsent⟩
  · have hknown : found.id = runId ∧ ∃ run, c.world.runs.get? runId.value = some run ∧
        run.sessionId = found.sessionId := by
      rcases mem_past_resumed.1 hj with hj | ⟨-, heq⟩
      · exact h.runs j runId found hj
      · have hfound := hreadRun runId found heq.symm
        exact ⟨RunId.ext_value (h.tidy.keyed _ _ hfound), found, hfound, rfl⟩
    obtain ⟨hid, run, hrun, hsession⟩ := hknown
    obtain ⟨run', hrun', hsession'⟩ := hext.runs runId.value run hrun
    exact ⟨hid, run', hrun', hsession'.trans hsession⟩
  · obtain ⟨hbefore, hquiet⟩ := addedNothing_resumed hnothing
    rcases hext.newSession sessionId hstored with hstored | ⟨s, rfl, hs⟩
    · exact h.freeSession j sessionId hj hbefore hstored
    · cases hquiet (hids.session j i s.id (hs ▸ hj) hneed.1)
  · obtain ⟨hbefore, hquiet⟩ := addedNothing_resumed hnothing
    rw [Option.eq_none_iff_forall_not_mem]
    intro run' hrun'
    rcases hext.newRun runId.value run' hrun' with ⟨run, hrun⟩ | ⟨run, rfl, hrun⟩
    · rw [h.freeRun j runId hj hbefore] at hrun
      cases hrun
    · have hid : run.id = runId := RunId.ext_value hrun
      cases hquiet (hids.run j i runId hj (hid ▸ hneed.1))

theorem lawful_step (hids : OwnIds requests) {c : SessionConfig ι} (h : Lawful requests c)
    (choice : Choice Failure ι) : Lawful requests (step inMemory c choice) := by
  rcases step_cases inMemory c choice with
    ⟨r, -, hstep⟩ | ⟨o, next, hrest, ⟨e, -, hstep⟩ | ⟨-, hstep⟩⟩
  · rwa [hstep]
  · rw [hstep]
    refine h.resumed hids hrest (extends_of_same h.tidy rfl rfl) ?_ ?_
    · intro tenant sessionId found heq
      cases heq
    · intro runId found heq
      cases heq
  · rw [hstep]
    refine h.resumed hids hrest (extends_of_sound h.tidy (h.sound hrest)) ?_ ?_
    · intro tenant sessionId found heq
      obtain ⟨rfl, hanswer⟩ := Event.mk.inj heq
      exact Except.ok.inj (eq_of_heq hanswer)
    · intro runId found heq
      obtain ⟨rfl, hanswer⟩ := Event.mk.inj heq
      exact Except.ok.inj (eq_of_heq hanswer)

/-- Whatever the requests, their order call by call and the calls that fail, the tables answer
them as process memory does, and represent what it holds when they are through. -/
theorem postgres_refines_memory (requests : ι → SessionRequest) (hids : OwnIds requests)
    {w : World} {c : SessionTables × World} (hstands : Stands w c) (htidy : w.Tidy)
    (hsessions : ∀ i sessionId, (requests i).newSession? = some sessionId → ¬w.Stored sessionId)
    (hruns : ∀ i runId, (requests i).newRun? = some runId → w.runs.get? runId.value = none)
    (schedule : List (Choice Failure ι)) :
    let memory := run inMemory (SessionRequest.start requests w) schedule
    let postgres := run onPostgres (SessionRequest.start requests c) schedule
    postgres.threads = memory.threads ∧ Stands memory.world postgres.world ∧
      ∀ resource limit, PostgresAuditLog.forResource postgres.world.1 resource limit =
        .ok (memory.world.auditForResource resource limit) := by
  obtain ⟨hthreads, hworlds⟩ := run_related inMemory onPostgres Stands
    (Lawful requests)
    (fun c choice h => lawful_step hids h choice)
    (fun c i o next w' h hrest hw' => hw'.answered (h.sound hrest))
    (SessionRequest.start requests c) (lawful_start htidy hsessions hruns) rfl hstands schedule
  exact ⟨hthreads, hworlds, hworlds.represents.forResource⟩

end Lawful

def createAndOpen : Bool → SessionRequest
  | false => .create (CreateSession.rivals false)
  | true => .openRun operator studySessionId studyRunId ⟨1, 0, 0⟩ 5

def createThenOpen : List (Choice Failure Bool) :=
  List.replicate 6 (false, none) ++ List.replicate 2 (true, none) ++ List.replicate 3 (false, none)

theorem ownIds_createAndOpen : OwnIds createAndOpen where
  session i j sessionId hi hj := by
    cases i <;> cases j <;> simp [createAndOpen, SessionRequest.newSession?] at hi hj ⊢
  run i j runId hi hj := by
    cases i <;> cases j <;> simp [createAndOpen, SessionRequest.newRun?] at hi hj ⊢

theorem postgres_refines_memory_createThenOpen :
    let c := (SessionTables.fresh, World.fresh defaultConfiguration)
    let memory := run inMemory (SessionRequest.start createAndOpen c.2) createThenOpen
    let postgres := run onPostgres (SessionRequest.start createAndOpen c) createThenOpen
    memory.world.runs.contains studyRunId.value = true ∧ (postgres.threads = memory.threads ∧
      Stands memory.world postgres.world ∧
        ∀ resource limit, PostgresAuditLog.forResource postgres.world.1 resource limit =
          .ok (memory.world.auditForResource resource limit)) := by
  refine ⟨by decide +kernel, postgres_refines_memory createAndOpen ownIds_createAndOpen
    (Stands.fresh defaultConfiguration) (World.tidy_fresh defaultConfiguration) ?_ ?_
    createThenOpen⟩
  · rintro i sessionId - ⟨key, s, hs, -⟩
    cases hs
  · intro i runId _
    rfl

end OratoriaEngine
