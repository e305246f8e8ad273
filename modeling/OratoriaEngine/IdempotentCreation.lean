import OratoriaEngine.Commands
import OratoriaEngine.Lib.Interleaving

/-!
# Creating a session under an idempotency key

Concurrent creations under one key are arbitrated by the claim of the key. A call that
loses the claim looks for what its holder created, and goes on as if it had won when
that is not there.
-/

namespace OratoriaEngine

def World.claimed? (w : World) (application : ApplicationId) (key : String) : Option SessionId :=
  w.idempotency.get? (application.value, key)

def World.Stored (w : World) (id : SessionId) : Prop :=
  ∃ k session, w.sessions.entries.get? k = some session ∧ session.id = id

theorem World.stored_putSession (w : World) (session : AnalysisSession) :
    (w.putSession session).Stored session.id := by
  refine ⟨(session.tenantId.value, session.id.value), session, ?_, rfl⟩
  exact Dict.get?_set_self _ _ _

theorem World.Stored.putSession {w : World} {id : SessionId} (h : w.Stored id)
    (session : AnalysisSession) : (w.putSession session).Stored id := by
  obtain ⟨k, stored, hget, hid⟩ := h
  by_cases hk : k = (session.tenantId.value, session.id.value)
  · have hkey := w.sessions.keyed k stored hget
    rw [hk, Prod.mk.injEq] at hkey
    rw [← hid, ← SessionId.ext_value hkey.2]
    exact w.stored_putSession session
  · exact ⟨k, stored, (Dict.get?_set_ne _ _ hk).trans hget, hid⟩

theorem World.findByIdempotencyKey_eq_some {w : World} {application : ApplicationId}
    {key : String} {session : AnalysisSession}
    (h : w.findByIdempotencyKey application key = some session) :
    w.claimed? application key = some session.id ∧ w.Stored session.id := by
  unfold findByIdempotencyKey at h
  unfold claimed?
  cases hclaim : w.idempotency.get? (application.value, key) with
  | none => simp [hclaim] at h
  | some sessionId =>
      rw [hclaim] at h
      have hfound := List.find?_some h
      simp only [Bool.and_eq_true, decide_eq_true_eq] at hfound
      obtain ⟨k, hk⟩ := (Dict.mem_values_iff _ _).1 (List.mem_of_find?_eq_some h)
      exact ⟨by rw [hfound.1], k, session, hk, rfl⟩

namespace CreateSession

open Interleaving

/-- One call of the use case. -/
structure Call where
  mint : StreamGrant → String
  caller : AuthenticatedCaller
  command : CreateSessionCommand
  sessionId : SessionId
  epochMs : ℕ → ℤ

def Call.program (c : Call) : Command CreatedSession :=
  execute c.mint c.caller c.command c.sessionId c.epochMs

variable {ι : Type} (calls : ι → Call) (application : ApplicationId) (key : String)

def CreatedBy (session : AnalysisSession) (c : Call) : Prop :=
  session.id = c.sessionId ∧ session.tenantId = c.caller.tenant

/-- A claim is final, what is stored stays, and the only session added is the one the key is
claimed for. -/
structure Arbitrates (w w' : World) : Prop where
  claimed : ∀ id, w.claimed? application key = some id → w'.claimed? application key = some id
  stored : ∀ id, w.Stored id → w'.Stored id
  added : ∀ k session, w'.sessions.entries.get? k = some session →
    w.sessions.entries.get? k = some session ∨
      w'.claimed? application key = some session.id ∧ ∃ i, CreatedBy session (calls i)

/-- A call that lost its claim finds what the holder of the key created. -/
def FindsHolder (sessionId : SessionId) : Assumption Port Port.Answer Failure World :=
  fun past o w => o = .findByIdempotencyKey application key →
    ⟨.claimIdempotencyKey application key sessionId, .ok false⟩ ∈ past →
      w.findByIdempotencyKey application key ≠ none

variable {calls application key}

theorem Arbitrates.refl (w : World) : Arbitrates calls application key w w :=
  ⟨fun _ h => h, fun _ h => h, fun _ _ h => .inl h⟩

theorem Arbitrates.trans {a b c : World} (hab : Arbitrates calls application key a b)
    (hbc : Arbitrates calls application key b c) : Arbitrates calls application key a c := by
  refine ⟨fun id h => hbc.claimed id (hab.claimed id h),
    fun id h => hbc.stored id (hab.stored id h), fun k session h => ?_⟩
  rcases hbc.added k session h with h | h
  · rcases hab.added k session h with h | ⟨hid, hby⟩
    · exact .inl h
    · exact .inr ⟨hbc.claimed _ hid, hby⟩
  · exact .inr h

/-- A call that touches neither the claims nor the sessions. -/
theorem arbitrates_of_same {w w' : World} (hclaims : w'.idempotency = w.idempotency)
    (hsessions : w'.sessions = w.sessions) : Arbitrates calls application key w w' := by
  refine ⟨fun id h => ?_, fun id h => ?_, fun k session h => .inl ?_⟩
  · rwa [World.claimed?, hclaims]
  · rwa [World.Stored, hsessions]
  · rwa [hsessions] at h

theorem arbitrates_claim (w : World) (sessionId : SessionId) :
    Arbitrates calls application key w
      (inMemory (.claimIdempotencyKey application key sessionId) w).2 := by
  unfold inMemory World.claimIdempotencyKey
  dsimp only
  split_ifs with hheld
  · exact .refl w
  · refine ⟨fun id h => ?_, fun _ h => h, fun _ _ h => .inl h⟩
    exact absurd (by rw [Dict.contains, show w.idempotency.get? _ = some id from h]; rfl) hheld

theorem claimed?_of_won {w : World} {sessionId : SessionId}
    (h : (inMemory (.claimIdempotencyKey application key sessionId) w).1 = .ok true) :
    (inMemory (.claimIdempotencyKey application key sessionId) w).2.claimed? application key =
      some sessionId := by
  unfold inMemory World.claimIdempotencyKey at h ⊢
  dsimp only at h ⊢
  split_ifs at h with hheld
  · cases h
  · rw [if_neg hheld]
    exact Dict.get?_set_self _ _ _

theorem arbitrates_add {w : World} {session : AnalysisSession}
    (hclaimed : w.claimed? application key = some session.id)
    (hby : ∃ i, CreatedBy session (calls i)) :
    Arbitrates calls application key w (w.putSession session) := by
  refine ⟨fun _ h => h, fun _ h => h.putSession session, fun k stored h => ?_⟩
  have hput : (w.sessions.entries.set (session.tenantId.value, session.id.value) session).get? k =
      some stored := h
  rw [Dict.get?_set] at hput
  split_ifs at hput with hk
  · cases hput
    exact .inr ⟨hclaimed, hby⟩
  · exact .inl hput

section Call

variable {ok : Assumption Port Port.Answer Failure World}
  {past : List (Event Port Port.Answer Failure)} {w : World} (mint : StreamGrant → String)
  {caller : AuthenticatedCaller} {command : CreateSessionCommand} {session : AnalysisSession}

def ReturnsClaimed (application : ApplicationId) (key : String) (created : CreatedSession)
    (w : World) : Prop :=
  w.claimed? application key = some created.session.id ∧ w.Stored created.session.id

theorem Arbitrates.returnsClaimed {created : CreatedSession} {w w' : World}
    (hw : Arbitrates calls application key w w') (h : ReturnsClaimed application key created w) :
    ReturnsClaimed application key created w' :=
  ⟨hw.claimed _ h.1, hw.stored _ h.2⟩

theorem safe_insert (hclaimed : w.claimed? application key = some session.id)
    (hby : ∃ i, CreatedBy session (calls i)) (caller : AuthenticatedCaller)
    (command : CreateSessionCommand) (snapshot : ConfigurationSnapshot)
    (capabilities : NegotiatedCapabilities) (nowMs consumedMs : ℤ) :
    Safe inMemory (Arbitrates calls application key) ok
      (Returning (ReturnsClaimed application key))
      (insert mint caller command session snapshot capabilities nowMs consumedMs) past w := by
  refine safe_port_bind fun u hu _ => ⟨arbitrates_add (hu.claimed _ hclaimed) hby, fun _ _ => ?_⟩
  refine safe_port_bind fun u₁ hu₁ _ => ⟨arbitrates_of_same rfl rfl, fun _ _ => ?_⟩
  refine safe_port_bind fun u₂ hu₂ _ => ⟨arbitrates_of_same rfl rfl, fun _ _ => ?_⟩
  refine safe_port_bind fun u₃ hu₃ _ => ⟨arbitrates_of_same rfl rfl, fun _ _ => ?_⟩
  apply safe_pure
  intro u₄ hu₄
  have hadded : ReturnsClaimed application key (created mint caller session nowMs false)
      (u.putSession session) := ⟨hu.claimed _ hclaimed, u.stored_putSession session⟩
  exact hu₄.returnsClaimed (hu₃.returnsClaimed (hu₂.returnsClaimed (hu₁.returnsClaimed hadded)))

theorem safe_replay_bind (happlication : caller.application = application)
    (hkey : command.idempotencyKey = some key) (epochMs : ℤ)
    {f : Option CreatedSession → Command CreatedSession}
    (hsome : ∀ created past' u, ReturnsClaimed application key created u →
      Safe inMemory (Arbitrates calls application key) ok
        (Returning (ReturnsClaimed application key)) (f (some created)) past' u)
    (hnone : ∀ past' u, ok past (.findByIdempotencyKey application key) u →
      u.findByIdempotencyKey application key = none →
        Safe inMemory (Arbitrates calls application key) ok
          (Returning (ReturnsClaimed application key)) (f none) past' u) :
    Safe inMemory (Arbitrates calls application key) ok
      (Returning (ReturnsClaimed application key))
      (replay mint caller command epochMs >>= f) past w := by
  unfold replay
  rw [hkey, happlication, Program.bind_assoc]
  refine safe_port_bind fun u _ hok => ⟨.refl u, fun found hfound => ?_⟩
  cases hfound
  cases hlookup : u.findByIdempotencyKey application key with
  | none => exact hnone _ u hok hlookup
  | some session =>
      exact hsome (created mint caller session epochMs true) _ u
        (World.findByIdempotencyKey_eq_some hlookup)

end Call

variable {w : World}

/-- A call that finds the holder's session whenever it lost its claim adds at most the session the
key is claimed for, and returns that one. -/
theorem safe_program {c : Call} (hc : ∃ i, calls i = c)
    (happlication : c.caller.application = application)
    (hkey : c.command.idempotencyKey = some key) :
    Safe inMemory (Arbitrates calls application key) (FindsHolder application key c.sessionId)
      (Returning (ReturnsClaimed application key)) c.program [] w := by
  have hreturn : ∀ created past' u, ReturnsClaimed application key created u →
      Safe inMemory (Arbitrates calls application key) (FindsHolder application key c.sessionId)
        (Returning (ReturnsClaimed application key)) (pure created) past' u :=
    fun created past' u h => safe_pure fun u' hu' => hu'.returnsClaimed h
  unfold Call.program execute Command.requireScope
  split_ifs with hallowed
  · apply safe_replay_bind c.mint happlication hkey _ hreturn
    intro past u _ _
    refine safe_port_bind fun u₁ _ _ => ⟨.refl u₁, fun decision _ => ?_⟩
    by_cases hquota : decision.allowed = true
    · simp only [if_pos hquota]
      apply safe_ofExcept_bind
      intro capabilities _
      refine safe_port_bind fun u₂ _ _ => ⟨.refl u₂, fun snapshot _ => ?_⟩
      apply safe_ofExcept_bind
      intro session hsession
      obtain ⟨hid, -, htenant⟩ := newSession_eq_ok hsession
      unfold claim
      rw [hkey, happlication, Program.bind_assoc]
      refine safe_port_bind fun u₃ _ _ => ⟨arbitrates_claim u₃ c.sessionId, fun won hwon => ?_⟩
      cases won with
      | true =>
          refine safe_insert c.mint ?_ ?_ _ _ _ _ _ _
          · rw [hid]
            exact claimed?_of_won hwon
          · obtain ⟨i, rfl⟩ := hc
            exact ⟨i, hid, htenant⟩
      | false =>
          apply safe_replay_bind c.mint happlication hkey _ hreturn
          intro past' u' hok hlookup
          exact absurd hlookup (hok rfl (List.mem_append_right _ (List.mem_singleton_self _)))
    · simp only [if_neg hquota]
      exact safe_raise _
  · exact safe_raise _

/-- All calls, none of which has done anything yet. -/
def start (calls : ι → Call) (w : World) :
    Config Port Port.Answer Failure CreatedSession World ι :=
  ⟨w, fun i => .start (calls i).program⟩

/-- The session came into the repository between the two worlds. -/
def Added (w w' : World) (k : String × String) (session : AnalysisSession) : Prop :=
  w'.sessions.entries.get? k = some session ∧ w.sessions.entries.get? k ≠ some session

/-- At most one session was added since `w`, and every call that returned, returned that one. -/
structure OneSession (w : World) (c : Config Port Port.Answer Failure CreatedSession World ι) :
    Prop where
  single : ∀ k k' session session', Added w c.world k session → Added w c.world k' session' →
    k = k' ∧ session = session'
  returned : ∀ i created, (c.threads i).outcome = some (.ok created) →
    c.world.Stored created.session.id ∧
      ∀ k session, Added w c.world k session → session.id = created.session.id
  agreed : ∀ i j created created', (c.threads i).outcome = some (.ok created) →
    (c.threads j).outcome = some (.ok created') → created.session.id = created'.session.id

/-- Whatever the interleaving and the failures, one session at most comes of one key, as long as
a call that lost its claim finds what the holder created. -/
theorem oneSession_of_findsHolder [DecidableEq ι] {calls : ι → Call} {application : ApplicationId}
    {key : String} {w : World} {schedule : List (Choice Failure ι)}
    (hsame : ∀ i, (calls i).caller.application = application ∧
      (calls i).command.idempotencyKey = some key)
    (hdistinct : Function.Injective fun i => (calls i).sessionId)
    (hfinds : Admissible inMemory (fun i => FindsHolder application key (calls i).sessionId)
      (start calls w) schedule) :
    OneSession w (run inMemory (start calls w) schedule) := by
  have hsafe : AllSafe inMemory (Arbitrates calls application key)
      (fun i => FindsHolder application key (calls i).sessionId)
      (fun _ => Returning (ReturnsClaimed application key)) (start calls w) :=
    fun i => safe_program ⟨i, rfl⟩ (hsame i).1 (hsame i).2
  obtain ⟨hmove, hend⟩ := run_safe Arbitrates.refl (fun _ _ _ => Arbitrates.trans) hsafe hfinds
  have hclaimed : ∀ k session, Added w (run inMemory (start calls w) schedule).world k session →
      (run inMemory (start calls w) schedule).world.claimed? application key = some session.id ∧
        ∃ i, CreatedBy session (calls i) :=
    fun k session h => (hmove.added k session h.1).resolve_left h.2
  have hreturned : ∀ i created,
      ((run inMemory (start calls w) schedule).threads i).outcome = some (.ok created) →
      ReturnsClaimed application key created (run inMemory (start calls w) schedule).world :=
    fun i created h => outcome_of_allSafe Arbitrates.refl hend h created rfl
  refine ⟨fun k k' session session' h h' => ?_, fun i created h => ⟨(hreturned i created h).2, ?_⟩,
    fun i j created created' h h' => ?_⟩
  · obtain ⟨hid, i, hi⟩ := hclaimed k session h
    obtain ⟨hid', j, hj⟩ := hclaimed k' session' h'
    have hsameId : session.id = session'.id := Option.some.inj (hid.symm.trans hid')
    obtain rfl : i = j := hdistinct (hi.1.symm.trans (hsameId.trans hj.1))
    have hk : k = k' := by
      rw [(run inMemory (start calls w) schedule).world.sessions.keyed k session h.1,
        (run inMemory (start calls w) schedule).world.sessions.keyed k' session' h'.1, hsameId,
        hi.2, hj.2]
    refine ⟨hk, ?_⟩
    have hget := h.1
    rw [hk] at hget
    exact Option.some.inj (hget.symm.trans h'.1)
  · intro k session hadded
    exact Option.some.inj ((hclaimed k session hadded).1.symm.trans (hreturned i created h).1)
  · exact Option.some.inj ((hreturned i created h).1.symm.trans (hreturned j created' h').1)

def rivals (second : Bool) : Call where
  mint := fun _ => "token"
  caller := operator
  command := studyCommand (some "key-1")
  sessionId := if second then ⟨⟨"session-2", by decide⟩⟩ else studySessionId
  epochMs := fun _ => 0

theorem rivals_injective : Function.Injective fun i => (rivals i).sessionId := by decide

/-- The first call runs to its end, then the second one looks the key up. -/
def oneAfterTheOther : List (Choice Failure Bool) :=
  List.replicate 8 (false, none) ++ [(true, none)]

/-- The first call claims the key; the second one loses it, finds nothing and adds its own
session before the first one does. -/
def secondOvertakes : List (Choice Failure Bool) :=
  List.replicate 4 (false, none) ++ List.replicate 6 (true, none) ++ [(false, none)]

theorem oneSession_of_oneAfterTheOther :
    OneSession (.fresh defaultConfiguration)
      (run inMemory (start rivals (.fresh defaultConfiguration)) oneAfterTheOther) := by
  refine oneSession_of_findsHolder (fun i => ⟨rfl, rfl⟩) rivals_injective ?_
  refine ⟨?_, ?_, ?_, ?_, ?_, ?_, ?_, ?_, ?_, trivial⟩
  all_goals
    intro o next h _ ho hpast
    cases h
    first | exact (List.not_mem_nil hpast).elim | cases ho

theorem not_oneSession_of_secondOvertakes :
    ¬OneSession (.fresh defaultConfiguration)
      (run inMemory (start rivals (.fresh defaultConfiguration)) secondOvertakes) := by
  intro h
  have hkey := (h.single ("tenant-1", "session-1") ("tenant-1", "session-2") _ _ ⟨rfl, by decide⟩
    ⟨rfl, by decide⟩).1
  exact absurd hkey (by decide)

end CreateSession

end OratoriaEngine
