import OratoriaEngine.FrozenConfiguration
import OratoriaEngine.Lib.WriteOnce
import OratoriaEngine.PostgresConfiguration

/-!
# What freezing a snapshot promises

A snapshot that was frozen is found under its identifier from then on, and its session runs
under it until the session is frozen again. A store keeps the promise as long as no snapshot is
frozen that it neither holds nor tells from the one it holds.
-/

namespace OratoriaEngine

open Runs (EveryStep Honoured)

/-- The snapshot a historical run was produced under. -/
def World.configuration? (w : World) (snapshotId : ConfigurationSnapshotId) :
    Option ConfigurationSnapshot := w.published.get? snapshotId.value

inductive StoreCall
  | publish (snapshot : ConfigurationSnapshot) (tenant : Option TenantId)
  | freeze (snapshot : ConfigurationSnapshot) (sessionId : SessionId)

namespace StoreCall

def snapshot : StoreCall → ConfigurationSnapshot
  | publish snapshot _ | freeze snapshot _ => snapshot

def perform : StoreCall → World → Except Failure Unit × World
  | publish snapshot tenant, w => w.publish snapshot tenant
  | freeze snapshot sessionId, w => inMemory (.configurationFreeze snapshot sessionId) w

def step (w : World) (c : StoreCall) : World := (c.perform w).2

def Freezes (w : World) (c : StoreCall) (frozen : ConfigurationSnapshot × SessionId) : Prop :=
  c = .freeze frozen.1 frozen.2 ∧ (c.perform w).1 = .ok ()

/-- What a freeze asks for does not contradict what is stored under its identifier. -/
def Unconflicted (w : World) (c : StoreCall) : Prop :=
  ∀ snapshot sessionId existing, c = .freeze snapshot sessionId →
    w.configuration? snapshot.id = some existing → existing = snapshot

end StoreCall

/-- Over the calls, frozen snapshots are found and conflicting ones are refused. -/
structure World.KeepsFrozen (w : World) (calls : List StoreCall) : Prop where
  immutable : Honoured StoreCall.step (fun w frozen => w.configuration? frozen.1.id = some frozen.1)
    StoreCall.Freezes (fun _ _ => True) w calls
  bound : Honoured StoreCall.step (fun w frozen => w.forSession frozen.2 = some frozen.1)
    StoreCall.Freezes (fun frozen c => ∀ snapshot, c ≠ .freeze snapshot frozen.2) w calls
  refused : EveryStep StoreCall.step (fun w c => ∀ existing,
    w.configuration? c.snapshot.id = some existing → existing ≠ c.snapshot →
      ∃ e, (c.perform w).1 = .error e) w calls

section InMemory

variable {w : World} {snapshot : ConfigurationSnapshot} {sessionId : SessionId}

theorem configuration?_step {snapshotId : ConfigurationSnapshotId}
    (h : w.configuration? snapshotId = some snapshot) (c : StoreCall) :
    (StoreCall.step w c).configuration? snapshotId = some snapshot := by
  cases c with
  | publish published tenant => exact get?_publish h published tenant
  | freeze frozen other => exact get?_freeze h frozen other

theorem forSession_step (h : w.forSession sessionId = some snapshot) {c : StoreCall}
    (hc : ∀ again, c ≠ .freeze again sessionId) :
    (StoreCall.step w c).forSession sessionId = some snapshot := by
  cases c with
  | publish published tenant => exact forSession_publish h published tenant
  | freeze again other =>
      apply forSession_freeze h again
      intro heq
      exact hc again (by rw [heq])

theorem publish_of_conflict {existing : ConfigurationSnapshot}
    (h : w.configuration? snapshot.id = some existing) (hne : existing ≠ snapshot)
    (tenant : Option TenantId) : ∃ e, (w.publish snapshot tenant).1 = .error e := by
  unfold World.configuration? at h
  rw [World.publish, h]
  exact ⟨_, congrArg Prod.fst (if_neg hne)⟩

theorem configuration?_freeze (w : World) (snapshot : ConfigurationSnapshot)
    (sessionId : SessionId) :
    (w.freeze snapshot sessionId).configuration? snapshot.id =
      some ((w.configuration? snapshot.id).getD snapshot) := by
  unfold World.configuration?
  cases h : w.published.get? snapshot.id.value with
  | some existing => exact get?_freeze h snapshot sessionId
  | none =>
      have habsent : ¬w.published.contains snapshot.id.value = true := by
        rw [Dict.contains, h]
        exact Bool.false_ne_true
      simp only [World.freeze, if_neg habsent, Dict.get?_set_self, Option.getD_none]

theorem forSession_freeze_self (w : World) (snapshot : ConfigurationSnapshot)
    (sessionId : SessionId) :
    (w.freeze snapshot sessionId).forSession sessionId =
      (w.freeze snapshot sessionId).configuration? snapshot.id := by
  have hbound : (w.freeze snapshot sessionId).bySession.get? sessionId.value = some snapshot.id :=
    Dict.get?_set_self _ _ _
  rw [World.forSession, hbound]
  rfl

/-- A freeze leads to the snapshot exactly when nothing else is stored under its identifier. -/
theorem configuration?_freeze_eq_some_iff :
    (w.freeze snapshot sessionId).configuration? snapshot.id = some snapshot ↔
      ∀ existing, w.configuration? snapshot.id = some existing → existing = snapshot := by
  rw [configuration?_freeze]
  cases w.configuration? snapshot.id with
  | none => simp
  | some existing => simp

/-- The store in process memory keeps what it promises exactly when no freeze of the run
contradicts what is stored. -/
theorem keepsFrozen_iff_unconflicted (w : World) (calls : List StoreCall) :
    w.KeepsFrozen calls ↔ EveryStep StoreCall.step StoreCall.Unconflicted w calls := by
  constructor
  · intro h before c after heq snapshot sessionId existing hc
    subst hc
    have hkept := Runs.honoured_iff_everyStep (fun w c frozen hw _ => configuration?_step hw c)
      |>.1 h.immutable before _ after heq (snapshot, sessionId) ⟨rfl, rfl⟩
    exact configuration?_freeze_eq_some_iff.1 hkept existing
  · intro h
    have hfreeze : ∀ before c after, calls = before ++ c :: after → ∀ frozen,
        StoreCall.Freezes (before.foldl StoreCall.step w) c frozen →
          (StoreCall.step (before.foldl StoreCall.step w) c).configuration? frozen.1.id =
            some frozen.1 := by
      rintro before c after heq ⟨snapshot, sessionId⟩ ⟨rfl, -⟩
      apply configuration?_freeze_eq_some_iff.2
      exact fun existing => h before _ after heq snapshot sessionId existing rfl
    refine ⟨?_, ?_, ?_⟩
    · apply (Runs.honoured_iff_everyStep fun w c frozen hw _ => configuration?_step hw c).2
      exact hfreeze
    · have hstable : ∀ (w : World) (c : StoreCall) (frozen : ConfigurationSnapshot × SessionId),
          w.forSession frozen.2 = some frozen.1 → (∀ again, c ≠ .freeze again frozen.2) →
            (StoreCall.step w c).forSession frozen.2 = some frozen.1 :=
        fun w c frozen hw hc => forSession_step hw hc
      apply (Runs.honoured_iff_everyStep hstable).2
      rintro before c after heq ⟨snapshot, sessionId⟩ ⟨rfl, hok⟩
      have hfound := hfreeze before _ after heq (snapshot, sessionId) ⟨rfl, hok⟩
      exact (forSession_freeze_self _ snapshot sessionId).trans hfound
    · intro before c after heq existing hexisting hne
      cases c with
      | publish snapshot tenant => exact publish_of_conflict hexisting hne tenant
      | freeze snapshot sessionId =>
          exact absurd (h before _ after heq snapshot sessionId existing rfl hexisting) hne

end InMemory

structure FreezeCall where
  snapshot : ConfigurationSnapshot
  sessionId : SessionId
  createdAt : ℤ

namespace PostgresConfigurationStore

variable (refuses : ConfigurationSnapshotRow → Option Failure)

def perform (store : PostgresConfigurationStore) (c : FreezeCall) :
    Except Failure Unit × PostgresConfigurationStore :=
  store.freeze refuses c.snapshot c.sessionId c.createdAt

def step (store : PostgresConfigurationStore) (c : FreezeCall) : PostgresConfigurationStore :=
  (store.perform refuses c).2

def Freezes (store : PostgresConfigurationStore) (c : FreezeCall)
    (snapshot : ConfigurationSnapshot) : Prop :=
  c.snapshot = snapshot ∧ (store.perform refuses c).1 = .ok ()

/-- Over the calls, frozen snapshots are found and conflicting ones are refused. -/
structure KeepsFrozen (store : PostgresConfigurationStore) (calls : List FreezeCall) : Prop where
  immutable : Honoured (step refuses)
    (fun store (snapshot : ConfigurationSnapshot) => store.get snapshot.id = .ok (some snapshot))
    (Freezes refuses) (fun _ _ => True) store calls
  refused : EveryStep (step refuses) (fun store c => ∀ row,
    store.rows.get? c.snapshot.id.value = some row → rowToSnapshot row ≠ .ok c.snapshot →
      ∃ e, (store.perform refuses c).1 = .error e) store calls

/-- A snapshot whose document goes in or is already there names itself in its window, and has
the versions of the row that is there. -/
structure Distinguishes (store : PostgresConfigurationStore) (c : FreezeCall) : Prop where
  inserted : store.rows.get? c.snapshot.id.value = none →
    refuses (snapshotToRow c.snapshot c.createdAt) = none →
      c.snapshot.fusionWindow.configuration = c.snapshot.id
  stored : ∀ row, store.rows.get? c.snapshot.id.value = some row →
    row.payload = snapshotToJson c.snapshot →
      ReadsVersions row c.snapshot ∧ c.snapshot.fusionWindow.configuration = c.snapshot.id

variable {store : PostgresConfigurationStore} {c : FreezeCall}

theorem perform_cases (store : PostgresConfigurationStore) (c : FreezeCall) :
    (store.rows.get? c.snapshot.id.value = none ∧
        ((∃ e, refuses (snapshotToRow c.snapshot c.createdAt) = some e ∧
            store.perform refuses c = (.error e, store)) ∨
          refuses (snapshotToRow c.snapshot c.createdAt) = none ∧
            store.perform refuses c =
              (.ok (), store.insert (snapshotToRow c.snapshot c.createdAt)))) ∨
      ∃ row, store.rows.get? c.snapshot.id.value = some row ∧
        (row.payload ≠ snapshotToJson c.snapshot ∧
            (∃ e, store.perform refuses c = (.error e, store)) ∨
          row.payload = snapshotToJson c.snapshot ∧ store.perform refuses c = (.ok (), store)) := by
  unfold perform freeze
  cases hrow : store.rows.get? c.snapshot.id.value with
  | none =>
      refine Or.inl ⟨rfl, ?_⟩
      cases hrefuses : refuses (snapshotToRow c.snapshot c.createdAt) with
      | some e => exact Or.inl ⟨e, rfl, rfl⟩
      | none => exact Or.inr ⟨rfl, rfl⟩
  | some row =>
      refine Or.inr ⟨row, rfl, ?_⟩
      by_cases hpayload : row.payload = snapshotToJson c.snapshot
      · exact Or.inr ⟨hpayload, if_neg (not_not.2 hpayload)⟩
      · exact Or.inl ⟨hpayload, _, if_pos hpayload⟩

theorem get?_rows_step {row : ConfigurationSnapshotRow} {key : String}
    (h : store.rows.get? key = some row) (c : FreezeCall) :
    (step refuses store c).rows.get? key = some row := by
  unfold step
  obtain ⟨hnone, ⟨e, -, hstep⟩ | ⟨-, hstep⟩⟩ | ⟨_, -, ⟨-, e, hstep⟩ | ⟨-, hstep⟩⟩ :=
    perform_cases refuses store c
  · rwa [hstep]
  · have hkey : key ≠ c.snapshot.id.value := by
      rintro rfl
      rw [hnone] at h
      cases h
    rw [hstep]
    exact (Dict.get?_set_ne _ _ hkey).trans h
  · rwa [hstep]
  · rwa [hstep]

variable {refuses}

/-- The row under the snapshot's identifier reads as the snapshot. -/
def Holds (store : PostgresConfigurationStore) (snapshot : ConfigurationSnapshot) : Prop :=
  ∃ row, store.rows.get? snapshot.id.value = some row ∧ rowToSnapshot row = .ok snapshot

section Holds

variable {snapshot : ConfigurationSnapshot} {row : ConfigurationSnapshotRow}

theorem holds_iff (hrow : store.rows.get? snapshot.id.value = some row) :
    store.Holds snapshot ↔ rowToSnapshot row = .ok snapshot := by
  constructor
  · rintro ⟨row', hrow', hread⟩
    rw [hrow] at hrow'
    cases hrow'
    exact hread
  · intro hread
    exact ⟨row, hrow, hread⟩

theorem get_eq_ok_iff (hrow : store.rows.get? snapshot.id.value = some row) :
    store.get snapshot.id = .ok (some snapshot) ↔ store.Holds snapshot := by
  rw [holds_iff hrow, get, hrow]
  constructor
  · intro h
    obtain ⟨read, hread, heq⟩ := Except.map_eq_ok.1 h
    cases heq
    exact hread
  · intro hread
    exact congrArg (some <$> ·) hread

theorem holds_step (h : store.Holds snapshot) (c : FreezeCall) :
    (step refuses store c).Holds snapshot := by
  obtain ⟨row, hrow, hread⟩ := h
  exact ⟨row, get?_rows_step refuses hrow c, hread⟩

end Holds

theorem exists_row_of_perform_ok (h : (store.perform refuses c).1 = .ok ()) :
    ∃ row, (step refuses store c).rows.get? c.snapshot.id.value = some row := by
  obtain ⟨-, ⟨e, -, hstep⟩ | ⟨-, hstep⟩⟩ | ⟨row, hrow, -⟩ :=
    perform_cases refuses store c
  · rw [hstep] at h
    cases h
  · rw [step, hstep]
    exact ⟨_, Dict.get?_set_self _ _ _⟩
  · exact ⟨row, get?_rows_step refuses hrow c⟩

theorem distinguishes_of_refused (h : (store.perform refuses c).1 ≠ .ok ()) :
    Distinguishes refuses store c := by
  obtain ⟨hnone, ⟨e, hrefuses, -⟩ | ⟨-, hstep⟩⟩ | ⟨row, hrow, ⟨hpayload, -⟩ | ⟨-, hstep⟩⟩ :=
    perform_cases refuses store c
  · refine ⟨fun _ haccepts => ?_, fun row hrow => ?_⟩
    · rw [hrefuses] at haccepts
      cases haccepts
    · rw [hnone] at hrow
      cases hrow
  · exact absurd (congrArg Prod.fst hstep) h
  · refine ⟨fun hnone => ?_, fun row' hrow' hsame => ?_⟩
    · rw [hrow] at hnone
      cases hnone
    · obtain rfl := Option.some.inj (hrow.symm.trans hrow')
      exact absurd hsame hpayload
  · exact absurd (congrArg Prod.fst hstep) h

theorem distinguishes_iff_of_inserted (hnone : store.rows.get? c.snapshot.id.value = none)
    (hrefuses : refuses (snapshotToRow c.snapshot c.createdAt) = none) :
    Distinguishes refuses store c ↔ c.snapshot.fusionWindow.configuration = c.snapshot.id := by
  constructor
  · intro h
    exact h.inserted hnone hrefuses
  · intro hnames
    refine ⟨fun _ _ => hnames, fun row hrow => ?_⟩
    rw [hnone] at hrow
    cases hrow

theorem distinguishes_iff_of_stored {row : ConfigurationSnapshotRow}
    (hrow : store.rows.get? c.snapshot.id.value = some row)
    (hpayload : row.payload = snapshotToJson c.snapshot) :
    Distinguishes refuses store c ↔
      ReadsVersions row c.snapshot ∧ c.snapshot.fusionWindow.configuration = c.snapshot.id := by
  constructor
  · intro h
    exact h.stored row hrow hpayload
  · intro hreads
    refine ⟨fun hnone => ?_, fun row' hrow' _ => ?_⟩
    · rw [hrow] at hnone
      cases hnone
    · obtain rfl := Option.some.inj (hrow.symm.trans hrow')
      exact hreads

/-- A freeze that returned is found at once exactly when the call meets the condition. -/
theorem distinguishes_iff (store : PostgresConfigurationStore) (c : FreezeCall) :
    Distinguishes refuses store c ↔
      ((store.perform refuses c).1 = .ok () → (step refuses store c).Holds c.snapshot) := by
  have hrefused : ∀ {e : Failure} {store' : PostgresConfigurationStore},
      store.perform refuses c = (.error e, store') → (store.perform refuses c).1 ≠ .ok () := by
    intro e store' hstep hok
    rw [hstep] at hok
    cases hok
  obtain ⟨hnone, ⟨e, -, hstep⟩ | ⟨hrefuses, hstep⟩⟩ |
      ⟨row, hrow, ⟨-, e, hstep⟩ | ⟨hpayload, hstep⟩⟩ := perform_cases refuses store c
  · exact iff_of_true (distinguishes_of_refused (hrefused hstep)) (absurd · (hrefused hstep))
  · have hnew : (step refuses store c).rows.get? c.snapshot.id.value =
        some (snapshotToRow c.snapshot c.createdAt) := by
      rw [step, hstep]
      exact Dict.get?_set_self _ _ _
    rw [distinguishes_iff_of_inserted hnone hrefuses, holds_iff hnew,
      rowToSnapshot_snapshotToRow_iff, hstep]
    exact ⟨fun h _ => h, fun h => h rfl⟩
  · exact iff_of_true (distinguishes_of_refused (hrefused hstep)) (absurd · (hrefused hstep))
  · rw [distinguishes_iff_of_stored hrow hpayload, holds_iff (get?_rows_step refuses hrow c),
      rowToSnapshot_eq_ok_iff (store.keyed _ _ hrow) hpayload, hstep]
    exact ⟨fun h _ => h, fun h => h rfl⟩

/-- The store on Postgres keeps what it promises exactly when every snapshot that is frozen can
be told from the row that is stored for it. -/
theorem keepsFrozen_iff_distinguishes (store : PostgresConfigurationStore)
    (calls : List FreezeCall) :
    KeepsFrozen refuses store calls ↔
      EveryStep (step refuses) (Distinguishes refuses) store calls := by
  constructor
  · intro h before c after heq
    rw [distinguishes_iff]
    intro hok
    obtain ⟨row, hrow⟩ := exists_row_of_perform_ok hok
    have hget := h.immutable before c [] after c.snapshot heq ⟨rfl, hok⟩ fun _ hm => by cases hm
    exact (get_eq_ok_iff hrow).1 hget
  · intro h
    refine ⟨?_, ?_⟩
    · rintro before c during rest snapshot heq ⟨rfl, hok⟩ -
      have hnow := (distinguishes_iff _ c).1 (h before c _ heq) hok
      have hstable : ∀ (store : PostgresConfigurationStore) (c : FreezeCall)
          (snapshot : ConfigurationSnapshot), store.Holds snapshot → True →
            (step refuses store c).Holds snapshot := fun _ c _ hs _ => holds_step hs c
      have hlater := Runs.holds_foldl hstable hnow fun c' (_ : c' ∈ during) => trivial
      obtain ⟨row, hrow, -⟩ := id hlater
      exact (get_eq_ok_iff hrow).2 hlater
    · intro before c after heq row hrow hne
      cases hresult : ((before.foldl (step refuses) store).perform refuses c).1 with
      | error e => exact ⟨e, rfl⟩
      | ok done =>
          have hnow := (distinguishes_iff _ c).1 (h before c _ heq) hresult
          exact absurd ((holds_iff (get?_rows_step refuses hrow c)).1 hnow) hne

end PostgresConfigurationStore

/-- In process memory a frozen snapshot is immutable over exactly the runs in which no freeze
contradicts what is stored under its identifier. On Postgres these are the runs in which every
snapshot that goes in names itself in its fusion window and every snapshot whose document is
stored has the versions of its row. -/
theorem keepsFrozen_iff_neverConfused (w : World) (calls : List StoreCall)
    (refuses : ConfigurationSnapshotRow → Option Failure) (store : PostgresConfigurationStore)
    (freezes : List FreezeCall) :
    (w.KeepsFrozen calls ↔ EveryStep StoreCall.step StoreCall.Unconflicted w calls) ∧
      (store.KeepsFrozen refuses freezes ↔
        EveryStep (PostgresConfigurationStore.step refuses)
          (PostgresConfigurationStore.Distinguishes refuses) store freezes) :=
  ⟨keepsFrozen_iff_unconflicted w calls, store.keepsFrozen_iff_distinguishes freezes⟩

def impatientConfiguration : ConfigurationSnapshot :=
  { defaultConfiguration with silenceThresholdMs := 500 }

def retaxedConfiguration : ConfigurationSnapshot :=
  { defaultConfiguration with taxonomyVersion := ⟨2, 0, 0⟩ }

/-- Each store lets a snapshot be frozen that differs from the default under its identifier. -/
theorem not_keepsFrozen_sharedId :
    ¬(World.fresh defaultConfiguration).KeepsFrozen
        [.freeze impatientConfiguration studySessionId] ∧
      ¬(PostgresConfigurationStore.empty defaultConfiguration).KeepsFrozen (fun _ => none)
        [⟨defaultConfiguration, studySessionId, 0⟩, ⟨retaxedConfiguration, studySessionId, 1⟩] := by
  constructor
  · intro h
    have hquiet := (keepsFrozen_iff_unconflicted _ _).1 h [] _ [] rfl
    have hsame := hquiet impatientConfiguration studySessionId defaultConfiguration rfl rfl
    exact absurd (congrArg ConfigurationSnapshot.silenceThresholdMs hsame) (by decide)
  · intro h
    have htold := (PostgresConfigurationStore.keepsFrozen_iff_distinguishes _ _).1 h
      [⟨defaultConfiguration, studySessionId, 0⟩] _ [] rfl
    have hversions := (htold.stored (snapshotToRow defaultConfiguration 0) rfl rfl).1
    have hsame := Except.ok.inj ((SemanticVersion.parse_toString _).symm.trans hversions.taxonomy)
    exact absurd hsame (by decide)

end OratoriaEngine
