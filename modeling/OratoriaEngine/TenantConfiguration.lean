import OratoriaEngine.IdempotentCreation
import OratoriaEngine.Lib.Lockstep
import OratoriaEngine.SnapshotImmutability
import OratoriaEngine.TenantIsolation

/-!
# The configuration of a tenant

A new session runs under the snapshot that is current for its tenant. In process memory that is
what was last published for the tenant. On Postgres it is the youngest row of all tenants, so a
tenant has a configuration of its own only as long as nobody stores anything but the default.
-/

namespace OratoriaEngine

open Runs (EveryStep)

def callsFor {κ : Type*} (owner : κ → Option TenantId) (tenant : TenantId) (calls : List κ) :
    List κ := calls.filter fun c => decide (owner c = none ∨ owner c = some tenant)

/-- What is current for a tenant, and what its sessions are created and frozen under, is what it
would be without the calls of the others, and the default until the tenant publishes. -/
structure OwnConfiguration {σ κ : Type*} (step : σ → κ → σ) (owner : κ → Option TenantId)
    (publishes : κ → Prop) (current : σ → TenantId → Except Failure ConfigurationSnapshot)
    (createdUnder : σ → κ → Option (Except Failure (Option ConfigurationSnapshot)))
    (default : ConfigurationSnapshot) (s : σ) (calls : List κ) : Prop where
  own : ∀ tenant, current (calls.foldl step s) tenant =
    current ((callsFor owner tenant calls).foldl step s) tenant
  untilPublished : ∀ tenant, (∀ c ∈ calls, owner c = some tenant → ¬publishes c) →
    current (calls.foldl step s) tenant = .ok default
  created : ∀ before c rest tenant found, calls = before ++ c :: rest → owner c = some tenant →
    createdUnder (before.foldl step s) c = some found →
      found = some <$> current ((callsFor owner tenant before).foldl step s) tenant

namespace CreateSession

open Program

/-- The creation asks for the configuration of its tenant and freezes nothing but the snapshot. -/
def Freezes (tenant : TenantId) (snapshot : ConfigurationSnapshot) : Port → Prop
  | .configurationCurrent asked => asked = tenant
  | .configurationFreeze frozen _ => frozen = snapshot
  | _ => True

def Finds (snapshot : ConfigurationSnapshot) : (o : Port) → o.Answer → Prop
  | .configurationCurrent _, a => a = snapshot
  | _, _ => True

def Under (snapshot : ConfigurationSnapshot) (created : CreatedSession) : Prop :=
  created.wasExisting = false → created.session.configuration = snapshot.id

variable {mint : StreamGrant → String} {caller : AuthenticatedCaller}
  {command : CreateSessionCommand} {snapshot : ConfigurationSnapshot}

theorem newSession_configuration {sessionId : SessionId} {capabilities : NegotiatedCapabilities}
    {nowMs : ℤ} {session : AnalysisSession}
    (h : newSession caller command sessionId capabilities snapshot nowMs = .ok session) :
    session.configuration = snapshot.id := by
  obtain ⟨receipt, -, h⟩ := Except.bind_eq_ok.1 h
  unfold AnalysisSession.withConsent at h
  split_ifs at h
  cases h
  rfl

theorem confined_replay {tenant : TenantId} (epochMs : ℤ) :
    Confined (Freezes tenant snapshot) (Finds snapshot) (replay mint caller command epochMs) := by
  unfold replay
  cases command.idempotencyKey with
  | none => exact confined_pure _
  | some key => exact confined_port_bind trivial fun _ _ => confined_pure _

theorem confined_claim {tenant : TenantId} (sessionId : SessionId) (epochMs : ℤ) :
    Confined (Freezes tenant snapshot) (Finds snapshot)
      (claim mint caller command sessionId epochMs) := by
  unfold claim
  cases command.idempotencyKey with
  | none => exact confined_pure _
  | some key =>
      apply confined_port_bind trivial
      intro claimed _
      split_ifs
      · exact confined_pure _
      · exact confined_replay _

theorem confined_program (c : Call) (snapshot : ConfigurationSnapshot) :
    Confined (Freezes c.caller.tenant snapshot) (Finds snapshot) c.program := by
  unfold Call.program execute Command.requireScope
  split_ifs
  · refine confined_bind (confined_pure ()) fun _ => confined_bind (confined_replay _) ?_
    intro existing
    cases existing with
    | some existing => exact confined_pure _
    | none =>
        apply confined_port_bind trivial
        intro decision _
        by_cases hallowed : decision.allowed = true
        · simp only [if_pos hallowed]
          apply confined_ofExcept_bind
          intro capabilities _
          refine confined_port_bind rfl fun current hcurrent => ?_
          obtain rfl : current = snapshot := hcurrent
          apply confined_ofExcept_bind
          intro session _
          apply confined_bind (confined_claim _ _)
          intro replayed
          cases replayed with
          | some replayed => exact confined_pure _
          | none =>
              refine confined_port_bind trivial fun _ _ => confined_port_bind rfl fun _ _ => ?_
              refine confined_port_bind trivial fun _ _ => confined_port_bind trivial fun _ _ => ?_
              exact confined_pure _
        · simp only [if_neg hallowed]
          exact confined_raise _
  · exact confined_raise _

theorem ensures_replay (trusted : ∀ o : Port, o.Answer → Prop) (epochMs : ℤ) :
    Ensures trusted (fun found => ∀ existing, found = some existing → existing.wasExisting = true)
      (replay mint caller command epochMs) := by
  unfold replay
  cases command.idempotencyKey with
  | none => exact ensures_pure fun existing h => nomatch h
  | some key =>
      apply ensures_port_bind
      intro found _
      apply ensures_pure
      intro existing h
      obtain ⟨session, -, rfl⟩ := Option.map_eq_some_iff.1 h
      rfl

/-- A session that a creation adds names the snapshot it was told is current. -/
theorem ensures_program (c : Call) (snapshot : ConfigurationSnapshot) :
    Ensures (Finds snapshot) (Under snapshot) c.program := by
  have hold : ∀ existing : CreatedSession, existing.wasExisting = true → Under snapshot existing :=
    fun existing h hnew => by rw [h] at hnew; cases hnew
  unfold Call.program execute Command.requireScope
  split_ifs
  · refine ensures_bind (Q := fun _ => True) (ensures_pure trivial) fun _ _ => ?_
    refine ensures_bind (ensures_replay _ _) fun existing hexisting => ?_
    cases existing with
    | some existing => exact ensures_pure (hold existing (hexisting _ rfl))
    | none =>
        apply ensures_port_bind
        intro decision _
        by_cases hallowed : decision.allowed = true
        · simp only [if_pos hallowed]
          apply ensures_ofExcept_bind
          intro capabilities _
          refine ensures_port_bind fun current hcurrent => ?_
          obtain rfl : current = snapshot := hcurrent
          apply ensures_ofExcept_bind
          intro session hsession
          have hclaim : Ensures (Finds current)
              (fun found => ∀ existing, found = some existing → existing.wasExisting = true)
              (claim c.mint c.caller c.command c.sessionId (c.epochMs 3)) := by
            unfold claim
            cases c.command.idempotencyKey with
            | none => exact ensures_pure fun existing h => nomatch h
            | some key =>
                apply ensures_port_bind
                intro claimed _
                split_ifs
                · exact ensures_pure fun existing h => nomatch h
                · exact ensures_replay _ _
          refine ensures_bind hclaim fun replayed hreplayed => ?_
          cases replayed with
          | some replayed => exact ensures_pure (hold replayed (hreplayed _ rfl))
          | none =>
              refine ensures_port_bind fun _ _ => ensures_port_bind fun _ _ => ?_
              refine ensures_port_bind fun _ _ => ensures_port_bind fun _ _ => ?_
              exact ensures_pure fun _ => newSession_configuration hsession
        · simp only [if_neg hallowed]
          exact ensures_raise _
  · exact ensures_raise _

def added : Except Failure CreatedSession → Option AnalysisSession
  | .ok created => if created.wasExisting then none else some created.session
  | .error _ => none

theorem added_eq_some {r : Except Failure CreatedSession} {session : AnalysisSession}
    (h : added r = some session) :
    ∃ created, r = .ok created ∧ created.wasExisting = false ∧ created.session = session := by
  cases r with
  | error e => cases h
  | ok created =>
      rw [added] at h
      split_ifs at h with hold
      exact ⟨created, rfl, by simpa using hold, Option.some.inj h⟩

end CreateSession

inductive ConfigurationCall
  | publish (snapshot : ConfigurationSnapshot) (tenant : Option TenantId)
  | freeze (snapshot : ConfigurationSnapshot) (sessionId : SessionId) (tenant : TenantId)
  | createSession (call : CreateSession.Call)

namespace ConfigurationCall

/-- On whose behalf the call is made. -/
def owner : ConfigurationCall → Option TenantId
  | publish _ tenant => tenant
  | freeze _ _ tenant => some tenant
  | createSession call => some call.caller.tenant

def publishes : ConfigurationCall → Prop
  | publish _ _ => True
  | _ => False

def publishedFor (tenant : TenantId) : ConfigurationCall → Option ConfigurationSnapshot
  | publish snapshot publisher => if publisher = some tenant then some snapshot else none
  | _ => none

/-- The snapshot of the call is the one that its identifier denotes. -/
def Names (named : ConfigurationSnapshotId → ConfigurationSnapshot) : ConfigurationCall → Prop
  | publish snapshot _ | freeze snapshot _ _ => named snapshot.id = snapshot
  | createSession _ => True

def step (w : World) : ConfigurationCall → World
  | publish snapshot tenant => (w.publish snapshot tenant).2
  | freeze snapshot sessionId _ => (inMemory (.configurationFreeze snapshot sessionId) w).2
  | createSession call => (call.program.run inMemory Program.noFault 0 w).2

/-- The snapshot that is found for a session the call has added. -/
def createdUnder (w : World) :
    ConfigurationCall → Option (Except Failure (Option ConfigurationSnapshot))
  | createSession call =>
      let (r, w') := call.program.run inMemory Program.noFault 0 w
      (CreateSession.added r).map fun session => .ok (w'.configuration? session.configuration)
  | _ => none

end ConfigurationCall

/-- Every stored snapshot is the one its identifier denotes, and what is current is stored. -/
structure World.Named (named : ConfigurationSnapshotId → ConfigurationSnapshot) (w : World) :
    Prop where
  published : ∀ key snapshot, w.published.get? key = some snapshot →
    snapshot.id.value = key ∧ named snapshot.id = snapshot
  current : ∀ tenant, w.configuration? (w.currentConfiguration tenant).id =
    some (w.currentConfiguration tenant)

section InMemory

variable {named : ConfigurationSnapshotId → ConfigurationSnapshot} {w : World}
  {snapshot : ConfigurationSnapshot} {tenant : TenantId}

theorem ConfigurationSnapshotId.ext_value {a b : ConfigurationSnapshotId}
    (h : a.value = b.value) : a = b := by
  obtain ⟨⟨a, ha⟩⟩ := a
  obtain ⟨⟨b, hb⟩⟩ := b
  cases h
  rfl

theorem World.Named.publish_eq (hw : w.Named named) (hsnapshot : named snapshot.id = snapshot)
    (publisher : Option TenantId) :
    (w.publish snapshot publisher).2 = w.withPublished snapshot publisher := by
  unfold World.publish
  cases hold : w.published.get? snapshot.id.value with
  | none => rfl
  | some existing =>
      obtain ⟨hid, hnamed⟩ := hw.published _ _ hold
      have hsame : existing = snapshot := by
        rw [← hnamed, ConfigurationSnapshotId.ext_value hid, hsnapshot]
      simp only [if_pos hsame]

theorem currentConfiguration_withPublished (w : World) (snapshot : ConfigurationSnapshot)
    (publisher : Option TenantId) (tenant : TenantId) :
    (w.withPublished snapshot publisher).currentConfiguration tenant =
      if publisher = some tenant then snapshot else w.currentConfiguration tenant := by
  cases publisher with
  | none => rfl
  | some publisher =>
      change ((w.currentByTenant.set publisher.value snapshot).get? tenant.value).getD _ = _
      rw [Dict.get?_set]
      by_cases h : publisher = tenant
      · rw [h, if_pos rfl, if_pos rfl, Option.getD_some]
      · have hvalue : tenant.value ≠ publisher.value := fun heq =>
          h (TenantId.ext_value heq).symm
        rw [if_neg hvalue, if_neg (fun heq => h (Option.some.inj heq))]
        rfl

theorem World.Named.publish (hw : w.Named named) (hsnapshot : named snapshot.id = snapshot)
    (publisher : Option TenantId) : (w.publish snapshot publisher).2.Named named := by
  have hkept : ∀ snapshotId found, w.configuration? snapshotId = some found →
      (w.publish snapshot publisher).2.configuration? snapshotId = some found :=
    fun _ _ h => get?_publish h snapshot publisher
  have hnew : (w.withPublished snapshot publisher).configuration? snapshot.id = some snapshot :=
    Dict.get?_set_self _ _ _
  have heq := hw.publish_eq hsnapshot publisher
  rw [heq] at hkept ⊢
  constructor
  · intro key found hfound
    change (w.published.set snapshot.id.value snapshot).get? key = some found at hfound
    rw [Dict.get?_set] at hfound
    split_ifs at hfound with hkey
    · cases hfound
      exact ⟨hkey.symm, hsnapshot⟩
    · exact hw.published key found hfound
  · intro other
    rw [currentConfiguration_withPublished]
    split_ifs
    · exact hnew
    · exact hkept _ _ (hw.current other)

theorem World.Named.freeze (hw : w.Named named) (hsnapshot : named snapshot.id = snapshot)
    (sessionId : SessionId) : (w.freeze snapshot sessionId).Named named := by
  constructor
  · intro key found hfound
    unfold World.freeze at hfound
    dsimp only at hfound
    split_ifs at hfound
    · exact hw.published key found hfound
    · rw [Dict.get?_set] at hfound
      split_ifs at hfound with hkey
      · cases hfound
        exact ⟨hkey.symm, hsnapshot⟩
      · exact hw.published key found hfound
  · exact fun other => get?_freeze (hw.current other) snapshot sessionId

/-- A call that freezes nothing but what its identifier denotes keeps what is current. -/
theorem named_inMemory (hw : w.Named named) {o : Port}
    (ho : CreateSession.Freezes tenant snapshot o) (hsnapshot : named snapshot.id = snapshot) :
    (inMemory o w).2.Named named ∧
      ∀ other, (inMemory o w).2.currentConfiguration other = w.currentConfiguration other := by
  cases o with
  | configurationFreeze frozen sessionId =>
      obtain rfl : frozen = snapshot := ho
      exact ⟨hw.freeze hsnapshot sessionId, fun _ => rfl⟩
  | claimIdempotencyKey application key sessionId =>
      simp only [inMemory, World.claimIdempotencyKey]
      split_ifs
      · exact ⟨hw, fun _ => rfl⟩
      · exact ⟨⟨hw.published, hw.current⟩, fun _ => rfl⟩
  | evidenceDeleteForSession owner sessionId =>
      simp only [inMemory, World.deleteEvidenceForSession_snd]
      exact ⟨⟨hw.published, hw.current⟩, fun _ => rfl⟩
  | _ => exact ⟨⟨hw.published, hw.current⟩, fun _ => rfl⟩

/-- What is named, and what is current, over the calls of a creation. -/
def World.Unmoved (named : ConfigurationSnapshotId → ConfigurationSnapshot) (w w' : World) :
    Prop :=
  w'.Named named ∧ ∀ tenant, w'.currentConfiguration tenant = w.currentConfiguration tenant

theorem unmoved_port (hw : w.Named named) (tenant : TenantId) {o : Port} {w' : World}
    (ho : CreateSession.Freezes tenant (w.currentConfiguration tenant) o) (h : w.Unmoved named w') :
    w.Unmoved named (inMemory o w').2 ∧ ∀ a, (inMemory o w').1 = .ok a →
      CreateSession.Finds (w.currentConfiguration tenant) o a := by
  have hnamed := (hw.published _ _ (hw.current tenant)).2
  obtain ⟨hafter, hcurrent⟩ := named_inMemory h.1 ho hnamed
  refine ⟨⟨hafter, fun other => (hcurrent other).trans (h.2 other)⟩, fun a ha => ?_⟩
  cases o with
  | configurationCurrent asked =>
      obtain rfl : asked = tenant := ho
      cases ha
      exact h.2 asked
  | _ => trivial

namespace ConfigurationCall

variable {c : ConfigurationCall}

theorem step_current (hw : w.Named named) (hc : c.Names named) :
    (step w c).Named named ∧ ∀ tenant, (step w c).currentConfiguration tenant =
      (c.publishedFor tenant).getD (w.currentConfiguration tenant) := by
  cases c with
  | publish snapshot publisher =>
      refine ⟨hw.publish hc publisher, fun tenant => ?_⟩
      simp only [step, publishedFor]
      rw [hw.publish_eq hc, currentConfiguration_withPublished]
      split_ifs <;> rfl
  | freeze snapshot sessionId tenant => exact ⟨hw.freeze hc sessionId, fun _ => rfl⟩
  | createSession call =>
      have hconfined := CreateSession.confined_program call
        (w.currentConfiguration call.caller.tenant)
      apply hconfined.run_keeps inMemory (w.Unmoved named)
      · intro o w' ho h
        exact unmoved_port hw _ ho h
      · exact ⟨hw, fun _ => rfl⟩

theorem foldl_current (hw : w.Named named) {calls : List ConfigurationCall}
    (hcalls : ∀ c ∈ calls, c.Names named) :
    (calls.foldl step w).Named named ∧ ∀ tenant,
      (calls.foldl step w).currentConfiguration tenant =
        ((calls.filterMap (publishedFor tenant)).getLast?).getD
          (w.currentConfiguration tenant) := by
  induction calls generalizing w with
  | nil => exact ⟨hw, fun _ => rfl⟩
  | cons c calls ih =>
      obtain ⟨hnamed, hstep⟩ := step_current hw (hcalls c (List.mem_cons_self ..))
      obtain ⟨hafter, hcurrent⟩ := ih hnamed fun c' hc' => hcalls c' (List.mem_cons_of_mem _ hc')
      refine ⟨hafter, fun tenant => ?_⟩
      rw [List.foldl_cons, hcurrent, hstep]
      cases hpublished : c.publishedFor tenant with
      | none => rw [List.filterMap_cons_none hpublished, Option.getD_none]
      | some snapshot =>
          rw [List.filterMap_cons_some hpublished, List.getLast?_cons, Option.getD_some]
          rfl

theorem filterMap_callsFor (tenant : TenantId) (calls : List ConfigurationCall) :
    (callsFor owner tenant calls).filterMap (publishedFor tenant) =
      calls.filterMap (publishedFor tenant) := by
  rw [callsFor, List.filterMap_filter]
  congr 1
  funext c
  cases c with
  | publish snapshot publisher =>
      by_cases hpublisher : publisher = some tenant
      · simp [owner, publishedFor, hpublisher]
      · simp [publishedFor, hpublisher]
  | _ => simp [publishedFor]

theorem filterMap_eq_nil {tenant : TenantId} {calls : List ConfigurationCall}
    (h : ∀ c ∈ calls, c.owner = some tenant → ¬c.publishes) :
    calls.filterMap (publishedFor tenant) = [] := by
  rw [List.filterMap_eq_nil_iff]
  intro c hc
  cases c with
  | publish snapshot publisher => exact if_neg fun howner => h _ hc howner trivial
  | _ => rfl

theorem createdUnder_eq (hw : w.Named named) {tenant : TenantId}
    {found : Except Failure (Option ConfigurationSnapshot)} (howner : c.owner = some tenant)
    (h : createdUnder w c = some found) : found = .ok (some (w.currentConfiguration tenant)) := by
  cases c with
  | createSession call =>
      obtain rfl : call.caller.tenant = tenant := Option.some.inj howner
      have hports := fun (o : Port) (w' : World) ho (h : w.Unmoved named w') =>
        unmoved_port (o := o) hw call.caller.tenant ho h
      have hstart : w.Unmoved named w := ⟨hw, fun _ => rfl⟩
      have hconfined := CreateSession.confined_program call
        (w.currentConfiguration call.caller.tenant)
      have hafter := hconfined.run_keeps inMemory (w.Unmoved named) hports 0 hstart
      obtain ⟨session, hadded, rfl⟩ := Option.map_eq_some_iff.1 h
      obtain ⟨created, hresult, hnew, rfl⟩ := CreateSession.added_eq_some hadded
      have hunder := (CreateSession.ensures_program call _).of_run hconfined inMemory
        (w.Unmoved named) hports 0 hstart hresult
      rw [hunder hnew, ← hafter.2 call.caller.tenant]
      exact congrArg Except.ok (hafter.1.current _)
  | _ => cases h

theorem ownConfiguration (hw : w.Named named) (hempty : w.currentByTenant = .empty)
    {calls : List ConfigurationCall} (hcalls : ∀ c ∈ calls, c.Names named) :
    OwnConfiguration step owner publishes (fun w tenant => .ok (w.currentConfiguration tenant))
      createdUnder w.defaultSnapshot w calls := by
  have hown : ∀ (calls : List ConfigurationCall) (tenant : TenantId),
      (∀ c ∈ calls, c.Names named) → (calls.foldl step w).currentConfiguration tenant =
        ((callsFor owner tenant calls).foldl step w).currentConfiguration tenant := by
    intro calls tenant hcalls
    have hfor : ∀ c ∈ callsFor owner tenant calls, c.Names named :=
      fun c hc => hcalls c (List.mem_of_mem_filter hc)
    rw [(foldl_current hw hcalls).2, (foldl_current hw hfor).2, filterMap_callsFor]
  refine ⟨fun tenant => ?_, fun tenant hquiet => ?_, ?_⟩
  · rw [hown calls tenant hcalls]
  · rw [(foldl_current hw hcalls).2, filterMap_eq_nil hquiet, World.currentConfiguration, hempty]
    rfl
  · intro before c rest tenant found heq howner hcreated
    have hbefore : ∀ c ∈ before, c.Names named :=
      fun c hc => hcalls c (heq ▸ List.mem_append_left _ hc)
    rw [createdUnder_eq (foldl_current hw hbefore).1 howner hcreated,
      hown before tenant hbefore]
    rfl

end ConfigurationCall

end InMemory

/-- What the server refuses to insert, and which of the youngest rows it finds first. -/
structure PostgresServer where
  refuses : ConfigurationSnapshotRow → Option Failure
  order : RowOrder

/-- A world with its configurations on Postgres. -/
structure PostgresWorld where
  memory : World
  store : PostgresConfigurationStore

def withPostgresConfiguration (server : PostgresServer) (nowMs : ℤ) :
    Program.Ports Port Port.Answer Failure PostgresWorld
  | .configurationCurrent tenant, w => (w.store.current server.order tenant, w)
  | .configurationFreeze snapshot sessionId, w =>
      let (r, store) := w.store.freeze server.refuses snapshot sessionId nowMs
      (r, { w with store := store })
  | o, w =>
      let (r, memory) := inMemory o w.memory
      (r, { w with memory := memory })

inductive PostgresConfigurationCall
  | freeze (snapshot : ConfigurationSnapshot) (sessionId : SessionId) (tenant : TenantId)
      (nowMs : ℤ)
  | createSession (call : CreateSession.Call) (nowMs : ℤ)

/-- The row that a snapshot is stored as, unless the server refuses it, reads as the default. -/
def ReadsDefault (refuses : ConfigurationSnapshotRow → Option Failure)
    (default snapshot : ConfigurationSnapshot) (nowMs : ℤ) : Prop :=
  refuses (snapshotToRow snapshot nowMs) = none →
    rowToSnapshot (snapshotToRow snapshot nowMs) = .ok default

namespace PostgresConfigurationCall

def owner : PostgresConfigurationCall → Option TenantId
  | freeze _ _ tenant _ => some tenant
  | createSession call _ => some call.caller.tenant

/-- Nothing is ever published on Postgres but what is frozen. -/
def publishes : PostgresConfigurationCall → Prop := fun _ => False

/-- What is asked to be frozen reads as the default, and the default itself does. -/
def StoresDefault (refuses : ConfigurationSnapshotRow → Option Failure)
    (default : ConfigurationSnapshot) : PostgresConfigurationCall → Prop
  | freeze snapshot _ _ nowMs => ReadsDefault refuses default snapshot nowMs
  | createSession _ nowMs => ReadsDefault refuses default default nowMs

variable (server : PostgresServer)

def step (w : PostgresWorld) : PostgresConfigurationCall → PostgresWorld
  | freeze snapshot sessionId _ nowMs =>
      (withPostgresConfiguration server nowMs (.configurationFreeze snapshot sessionId) w).2
  | createSession call nowMs =>
      (call.program.run (withPostgresConfiguration server nowMs) Program.noFault 0 w).2

/-- The snapshot that is found for a session the call has added. -/
def createdUnder (w : PostgresWorld) :
    PostgresConfigurationCall → Option (Except Failure (Option ConfigurationSnapshot))
  | createSession call nowMs =>
      let (r, w') :=
        call.program.run (withPostgresConfiguration server nowMs) Program.noFault 0 w
      (CreateSession.added r).map fun session => w'.store.get session.configuration
  | _ => none

end PostgresConfigurationCall

structure PostgresConfigurationStore.HoldsOnly (store : PostgresConfigurationStore)
    (default : ConfigurationSnapshot) : Prop where
  row : ∀ row ∈ store.rows.values, rowToSnapshot row = .ok default
  default : store.default = default

section Postgres

variable {server : PostgresServer} {default snapshot : ConfigurationSnapshot} {nowMs : ℤ}
  {tenant : TenantId} {w : PostgresWorld}

theorem PostgresConfigurationStore.HoldsOnly.current {store : PostgresConfigurationStore}
    (h : store.HoldsOnly default) (order : RowOrder) (tenant : TenantId) :
    store.current order tenant = .ok default := by
  unfold PostgresConfigurationStore.current
  cases hfirst : order.first store.rows.values with
  | none => exact congrArg Except.ok h.default
  | some row => exact h.row row (order.first_mem _ _ hfirst)

theorem PostgresConfigurationStore.HoldsOnly.get {store : PostgresConfigurationStore}
    (h : store.HoldsOnly default) : store.get default.id = .ok (some default) := by
  unfold PostgresConfigurationStore.get
  cases hrow : store.rows.get? default.id.value with
  | none => simp only [h.default, if_true]
  | some row => exact congrArg (some <$> ·) (h.row row (Dict.mem_values_of_get? hrow))

theorem PostgresConfigurationStore.HoldsOnly.freeze {store : PostgresConfigurationStore}
    (h : store.HoldsOnly default) (hreads : ReadsDefault server.refuses default snapshot nowMs)
    (sessionId : SessionId) :
    (store.freeze server.refuses snapshot sessionId nowMs).2.HoldsOnly default := by
  change (store.perform server.refuses ⟨snapshot, sessionId, nowMs⟩).2.HoldsOnly default
  obtain ⟨-, ⟨e, -, hstep⟩ | ⟨haccepts, hstep⟩⟩ | ⟨_, -, ⟨-, e, hstep⟩ | ⟨-, hstep⟩⟩ :=
    store.perform_cases server.refuses ⟨snapshot, sessionId, nowMs⟩
  · rwa [hstep]
  · rw [hstep]
    refine ⟨fun row hrow => ?_, h.default⟩
    obtain ⟨key, hget⟩ := (Dict.mem_values_iff _ _).1 hrow
    change (store.rows.set snapshot.id.value (snapshotToRow snapshot nowMs)).get? key = _ at hget
    rw [Dict.get?_set] at hget
    split_ifs at hget
    · cases hget
      exact hreads haccepts
    · exact h.row row (Dict.mem_values_of_get? hget)
  · rwa [hstep]
  · rwa [hstep]

theorem holdsOnly_port (hreads : ReadsDefault server.refuses default default nowMs) {o : Port}
    {w : PostgresWorld} (ho : CreateSession.Freezes tenant default o)
    (h : w.store.HoldsOnly default) :
    (withPostgresConfiguration server nowMs o w).2.store.HoldsOnly default ∧
      ∀ a, (withPostgresConfiguration server nowMs o w).1 = .ok a →
        CreateSession.Finds default o a := by
  cases o with
  | configurationCurrent asked =>
      refine ⟨h, fun a ha => ?_⟩
      exact Except.ok.inj (ha.symm.trans (h.current server.order asked))
  | configurationFreeze frozen sessionId =>
      obtain rfl : frozen = default := ho
      exact ⟨h.freeze hreads sessionId, fun _ _ => trivial⟩
  | _ => exact ⟨h, fun _ _ => trivial⟩

namespace PostgresConfigurationCall

variable {c : PostgresConfigurationCall}

theorem holdsOnly_step (h : w.store.HoldsOnly default)
    (hc : c.StoresDefault server.refuses default) :
    (step server w c).store.HoldsOnly default := by
  cases c with
  | freeze snapshot sessionId tenant nowMs => exact h.freeze hc sessionId
  | createSession call nowMs =>
      have hconfined := CreateSession.confined_program call default
      apply hconfined.run_keeps (withPostgresConfiguration server nowMs)
        (fun w => w.store.HoldsOnly default)
      · intro o w' ho h'
        exact holdsOnly_port hc ho h'
      · exact h

theorem holdsOnly_foldl (h : w.store.HoldsOnly default) {calls : List PostgresConfigurationCall}
    (hcalls : ∀ c ∈ calls, c.StoresDefault server.refuses default) :
    (calls.foldl (step server) w).store.HoldsOnly default := by
  induction calls generalizing w with
  | nil => exact h
  | cons c calls ih =>
      apply ih (holdsOnly_step h (hcalls c (List.mem_cons_self ..)))
      intro c' hc'
      exact hcalls c' (List.mem_cons_of_mem _ hc')

theorem createdUnder_eq (h : w.store.HoldsOnly default)
    (hc : c.StoresDefault server.refuses default)
    {found : Except Failure (Option ConfigurationSnapshot)}
    (hcreated : createdUnder server w c = some found) : found = .ok (some default) := by
  cases c with
  | createSession call nowMs =>
      have hports := fun (o : Port) (w' : PostgresWorld)
          (ho : CreateSession.Freezes call.caller.tenant default o) =>
        holdsOnly_port (w := w') hc ho
      have hconfined := CreateSession.confined_program call default
      have hafter := hconfined.run_keeps _
        (fun w : PostgresWorld => w.store.HoldsOnly default) hports 0 h
      obtain ⟨session, hadded, rfl⟩ := Option.map_eq_some_iff.1 hcreated
      obtain ⟨created, hresult, hnew, rfl⟩ := CreateSession.added_eq_some hadded
      have hunder := (CreateSession.ensures_program call _).of_run hconfined _
        (fun w : PostgresWorld => w.store.HoldsOnly default) hports 0 h hresult
      rw [hunder hnew]
      exact hafter.get
  | freeze snapshot sessionId tenant nowMs => cases hcreated

/-- On Postgres a tenant's configuration is its own as long as it is everybody's. -/
theorem ownConfiguration (h : w.store.HoldsOnly default) {calls : List PostgresConfigurationCall}
    (hcalls : ∀ c ∈ calls, c.StoresDefault server.refuses default) :
    OwnConfiguration (step server) owner publishes (fun w => w.store.current server.order)
      (createdUnder server) default w calls := by
  have hown : ∀ (calls : List PostgresConfigurationCall) (tenant : TenantId),
      (∀ c ∈ calls, c.StoresDefault server.refuses default) →
        (calls.foldl (step server) w).store.current server.order tenant = .ok default :=
    fun calls tenant hcalls => (holdsOnly_foldl h hcalls).current server.order tenant
  have hfor : ∀ (calls : List PostgresConfigurationCall) (tenant : TenantId),
      (∀ c ∈ calls, c.StoresDefault server.refuses default) →
        ∀ c ∈ callsFor owner tenant calls, c.StoresDefault server.refuses default :=
    fun calls tenant hcalls c hc => hcalls c (List.mem_of_mem_filter hc)
  refine ⟨fun tenant => ?_, fun tenant _ => hown calls tenant hcalls, ?_⟩
  · rw [hown calls tenant hcalls, hown _ tenant (hfor calls tenant hcalls)]
  · intro before c rest tenant found heq _ hcreated
    have hbefore : ∀ c ∈ before, c.StoresDefault server.refuses default :=
      fun c hc => hcalls c (heq ▸ List.mem_append_left _ hc)
    have hc := hcalls c (heq ▸ List.mem_append_right _ (List.mem_cons_self ..))
    rw [createdUnder_eq (holdsOnly_foldl h hbefore) hc hcreated,
      hown _ tenant (hfor before tenant hbefore)]
    rfl

end PostgresConfigurationCall

end Postgres

theorem PostgresConfigurationStore.holdsOnly_empty (default : ConfigurationSnapshot) :
    (PostgresConfigurationStore.empty default).HoldsOnly default :=
  ⟨fun _ hrow => (by cases hrow), rfl⟩

/-- In process memory a tenant's configuration is its own, where identifiers are not reused. On
Postgres it is its own in every run that stores nothing that reads as anything but the default. -/
theorem configurations_own_of_storesDefault
    {named : ConfigurationSnapshotId → ConfigurationSnapshot} {w : World} (hw : w.Named named)
    (hempty : w.currentByTenant = .empty) {calls : List ConfigurationCall}
    (hcalls : ∀ c ∈ calls, c.Names named) (server : PostgresServer) (memory : World)
    {default : ConfigurationSnapshot} {freezes : List PostgresConfigurationCall}
    (hfreezes : ∀ c ∈ freezes, c.StoresDefault server.refuses default) :
    OwnConfiguration ConfigurationCall.step ConfigurationCall.owner ConfigurationCall.publishes
        (fun w tenant => .ok (w.currentConfiguration tenant)) ConfigurationCall.createdUnder
        w.defaultSnapshot w calls ∧
      OwnConfiguration (PostgresConfigurationCall.step server) PostgresConfigurationCall.owner
        PostgresConfigurationCall.publishes (fun w => w.store.current server.order)
        (PostgresConfigurationCall.createdUnder server) default ⟨memory, .empty default⟩ freezes :=
  ⟨ConfigurationCall.ownConfiguration hw hempty hcalls,
    PostgresConfigurationCall.ownConfiguration
      (PostgresConfigurationStore.holdsOnly_empty default) hfreezes⟩

def impatientRevision : ConfigurationSnapshot :=
  { Deployment.revisedConfiguration with
    fusionWindow := { Deployment.revisedConfiguration.fusionWindow with
      configuration := Deployment.revisedConfiguration.id } }

def youngestRow : List ConfigurationSnapshotRow → Option ConfigurationSnapshotRow
  | [] => none
  | row :: rows =>
      match youngestRow rows with
      | none => some row
      | some other => some (if row.createdAt < other.createdAt then other else row)

theorem youngestRow_eq_none {rows : List ConfigurationSnapshotRow} (h : youngestRow rows = none) :
    rows = [] := by
  cases rows with
  | nil => rfl
  | cons row rows =>
      rw [youngestRow] at h
      split at h <;> cases h

theorem youngestRow_spec {rows : List ConfigurationSnapshotRow} {row : ConfigurationSnapshotRow}
    (h : youngestRow rows = some row) :
    row ∈ rows ∧ ∀ other ∈ rows, other.createdAt ≤ row.createdAt := by
  induction rows generalizing row with
  | nil => cases h
  | cons first rows ih =>
      rw [youngestRow] at h
      cases hrest : youngestRow rows with
      | none =>
          rw [hrest] at h
          cases h
          rw [youngestRow_eq_none hrest]
          simp
      | some other =>
          obtain ⟨hmem, hle⟩ := ih hrest
          rw [hrest] at h
          cases h
          split_ifs with hyounger
          · refine ⟨List.mem_cons_of_mem _ hmem, fun row hrow => ?_⟩
            rcases List.mem_cons.1 hrow with rfl | hrow
            · omega
            · exact hle row hrow
          · refine ⟨List.mem_cons_self .., fun row hrow => ?_⟩
            rcases List.mem_cons.1 hrow with rfl | hrow
            · exact le_rfl
            · have := hle row hrow
              omega

def plainServer : PostgresServer where
  refuses _ := none
  order :=
    { first := youngestRow
      first_mem := fun _ _ h => (youngestRow_spec h).1
      youngest := fun _ _ h => (youngestRow_spec h).2
      first_eq_none := fun _ h => youngestRow_eq_none h }

def studyCreation : CreateSession.Call where
  mint _ := "token"
  caller := operator
  command := studyCommand none
  sessionId := studySessionId
  epochMs _ := 0

/-- A study is created while another tenant has a revision of its own, or none yet. -/
theorem configurations_own_study :
    OwnConfiguration ConfigurationCall.step ConfigurationCall.owner ConfigurationCall.publishes
        (fun w tenant => .ok (w.currentConfiguration tenant)) ConfigurationCall.createdUnder
        defaultConfiguration (World.fresh defaultConfiguration)
        [.publish impatientRevision (some visitingTenant), .createSession studyCreation] ∧
      OwnConfiguration (PostgresConfigurationCall.step plainServer)
        PostgresConfigurationCall.owner PostgresConfigurationCall.publishes
        (fun w => w.store.current plainServer.order)
        (PostgresConfigurationCall.createdUnder plainServer) defaultConfiguration
        ⟨World.fresh defaultConfiguration, .empty defaultConfiguration⟩
        [.freeze defaultConfiguration studySessionId visitingTenant 0,
          .createSession studyCreation 1] := by
  let named : ConfigurationSnapshotId → ConfigurationSnapshot := fun snapshotId =>
    if snapshotId = defaultConfiguration.id then defaultConfiguration else impatientRevision
  have hrevision : impatientRevision.id ≠ defaultConfiguration.id := by decide +kernel
  have hfresh : (World.fresh defaultConfiguration).Named named := by
    refine ⟨fun key snapshot hget => ?_, fun tenant => rfl⟩
    change (Dict.empty.set defaultConfiguration.id.value defaultConfiguration).get? key = _ at hget
    rw [Dict.get?_set] at hget
    split_ifs at hget with hkey
    · cases hget
      exact ⟨hkey.symm, if_pos rfl⟩
    · cases hget
  apply configurations_own_of_storesDefault hfresh rfl
  · intro c hc
    simp only [List.mem_cons, List.not_mem_nil, or_false] at hc
    obtain rfl | rfl := hc
    · exact if_neg hrevision
    · trivial
  · intro c hc
    simp only [List.mem_cons, List.not_mem_nil, or_false] at hc
    obtain rfl | rfl := hc
    · exact fun _ => (rowToSnapshot_snapshotToRow_iff 0).2 rfl
    · exact fun _ => (rowToSnapshot_snapshotToRow_iff 1).2 rfl

/-- On Postgres, what one tenant freezes becomes current for another. -/
theorem not_configurations_own_sharedRows :
    ¬OwnConfiguration (PostgresConfigurationCall.step plainServer)
      PostgresConfigurationCall.owner PostgresConfigurationCall.publishes
      (fun w => w.store.current plainServer.order)
      (PostgresConfigurationCall.createdUnder plainServer) defaultConfiguration
      ⟨World.fresh defaultConfiguration, .empty defaultConfiguration⟩
      [.freeze impatientRevision studySessionId visitingTenant 0] := by
  intro h
  have hdefault := h.untilPublished studyTenant fun _ _ _ hpublishes => hpublishes
  have hreads : rowToSnapshot (snapshotToRow impatientRevision 0) = .ok impatientRevision :=
    (rowToSnapshot_snapshotToRow_iff 0).2 rfl
  have hsame : impatientRevision = defaultConfiguration :=
    Except.ok.inj (hreads.symm.trans hdefault)
  exact absurd (congrArg ConfigurationSnapshot.silenceThresholdMs hsame) (by decide)

end OratoriaEngine
