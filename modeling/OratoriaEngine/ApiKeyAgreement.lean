import OratoriaEngine.ApiKeys

/-!
# When a key authenticates

A secret authenticates from the issue of its key until the key expires, is revoked or is
replaced by another of the same hash; afterwards it never does again. The directory on Postgres
gives the answers of the one in process memory.
-/

namespace OratoriaEngine

variable {sha256 : String → String} {pepper : String}

def InMemoryApiKeyDirectory.IssuesFresh (directory : InMemoryApiKeyDirectory) : KeyCall → Prop
  | .issue grant => ∀ hash record, directory.byHash.get? hash = some record → record.id ≠ grant.id
  | .revoke _ _ => True

namespace InMemoryApiKeyDirectory

theorem next_pepper (directory : InMemoryApiKeyDirectory) (c : KeyCall) :
    (next sha256 directory c).pepper = directory.pepper := by
  cases c with
  | issue grant => rfl
  | revoke keyId atMs =>
      unfold next revoke
      dsimp only
      split <;> rfl

theorem foldl_pepper (calls : List KeyCall) (directory : InMemoryApiKeyDirectory) :
    (calls.foldl (next sha256) directory).pepper = directory.pepper := by
  induction calls generalizing directory with
  | nil => rfl
  | cons c calls ih => rw [List.foldl_cons, ih, next_pepper]

variable (sha256 pepper) in
theorem after_pepper (calls : List KeyCall) : (after sha256 pepper calls).pepper = pepper :=
  foldl_pepper calls _

theorem revokedBy_id (keyId : ApiKeyId) (atMs : ℤ) (record : ApiKeyRecord) :
    (record.revokedBy keyId atMs).id = record.id := by
  unfold ApiKeyRecord.revokedBy
  split_ifs <;> rfl

theorem Distinct.next {directory : InMemoryApiKeyDirectory} (h : directory.Distinct) {c : KeyCall}
    (hc : directory.IssuesFresh c) : (next sha256 directory c).Distinct := by
  cases c with
  | issue grant =>
      intro hash hash' record record' hget hget' hid
      simp only [InMemoryApiKeyDirectory.next, get?_issue] at hget hget'
      split_ifs at hget hget' with heq heq' heq'
      · rw [heq, heq']
      · cases hget
        exact absurd hid.symm (hc hash' record' hget')
      · cases hget'
        exact absurd hid (hc hash record hget)
      · exact h hash hash' record record' hget hget' hid
  | revoke keyId atMs =>
      intro hash hash' record record' hget hget' hid
      simp only [InMemoryApiKeyDirectory.next, (revoke_spec h keyId atMs).2] at hget hget'
      obtain ⟨was, hwas, rfl⟩ := Option.map_eq_some_iff.1 hget
      obtain ⟨was', hwas', rfl⟩ := Option.map_eq_some_iff.1 hget'
      rw [revokedBy_id, revokedBy_id] at hid
      exact h hash hash' was was' hwas hwas' hid

/-- Every record is one of an issue, revoked or not, and no two have one identifier. -/
structure Traced (sha256 : String → String) (pepper : String) (calls : List KeyCall)
    (directory : InMemoryApiKeyDirectory) : Prop where
  distinct : directory.Distinct
  issued : ∀ hash record, directory.byHash.get? hash = some record →
    ∃ grant revokedAtMs, .issue grant ∈ calls ∧ hash = grant.hash sha256 pepper ∧
      record = { grant.record sha256 pepper with revokedAtMs := revokedAtMs }

variable (sha256 pepper) in
theorem traced_after {calls : List KeyCall}
    (hids : ((calls.filterMap KeyCall.issued?).map KeyGrant.id).Nodup) :
    Traced sha256 pepper calls (after sha256 pepper calls) ∧
      Runs.EveryStep (next sha256) IssuesFresh ⟨pepper, .empty⟩ calls := by
  induction calls using List.reverseRecOn with
  | nil =>
      refine ⟨⟨?_, ?_⟩, Runs.everyStep_nil _⟩
      · intro _ _ _ _ h
        cases h
      · intro _ _ h
        cases h
  | append_singleton calls c ih =>
      rw [List.filterMap_append, List.map_append, List.nodup_append] at hids
      obtain ⟨hbefore, hsteps⟩ := ih hids.1
      have hafter : after sha256 pepper (calls ++ [c]) =
          next sha256 (after sha256 pepper calls) c := by
        rw [after, List.foldl_append]
        rfl
      have hfresh : (after sha256 pepper calls).IssuesFresh c := by
        cases c with
        | revoke keyId atMs => trivial
        | issue grant =>
            intro hash record hget hid
            obtain ⟨earlier, _, hearlier, -, rfl⟩ := hbefore.issued hash record hget
            refine hids.2.2 earlier.id ?_ grant.id (by simp [KeyCall.issued?]) hid
            exact List.mem_map_of_mem (List.mem_filterMap.2 ⟨_, hearlier, rfl⟩)
      refine ⟨⟨?_, ?_⟩, ?_⟩
      · rw [hafter]
        exact hbefore.distinct.next hfresh
      · intro hash record hget
        rw [hafter] at hget
        have hmem : ∀ grant, KeyCall.issue grant ∈ calls → KeyCall.issue grant ∈ calls ++ [c] :=
          fun grant h => List.mem_append_left _ h
        cases c with
        | issue grant =>
            rw [InMemoryApiKeyDirectory.next, get?_issue, after_pepper] at hget
            split_ifs at hget with heq
            · cases hget
              exact ⟨grant, none, by simp, heq, rfl⟩
            · obtain ⟨earlier, at_, hearlier, hrest⟩ := hbefore.issued hash record hget
              exact ⟨earlier, at_, hmem earlier hearlier, hrest⟩
        | revoke keyId atMs =>
            rw [InMemoryApiKeyDirectory.next, (revoke_spec hbefore.distinct keyId atMs).2] at hget
            obtain ⟨was, hwas, rfl⟩ := Option.map_eq_some_iff.1 hget
            obtain ⟨earlier, at_, hearlier, hhash, rfl⟩ := hbefore.issued hash was hwas
            unfold ApiKeyRecord.revokedBy
            split_ifs
            · exact ⟨earlier, some atMs, hmem earlier hearlier, hhash, rfl⟩
            · exact ⟨earlier, at_, hmem earlier hearlier, hhash, rfl⟩
      · exact Runs.everyStep_append.2 ⟨hsteps, Runs.everyStep_cons.2 ⟨hfresh, Runs.everyStep_nil _⟩⟩

end InMemoryApiKeyDirectory

/-- The call replaces the key by another of the same hash, or revokes it. -/
def KeyCall.Withdraws (sha256 : String → String) (pepper : String) (grant : KeyGrant) :
    KeyCall → Prop
  | .issue other => other.hash sha256 pepper = grant.hash sha256 pepper
  | .revoke keyId _ => keyId = grant.id

namespace InMemoryApiKeyDirectory

theorem get?_next_iff {directory : InMemoryApiKeyDirectory} (h : directory.Distinct)
    (hpepper : directory.pepper = pepper) (grant : KeyGrant) (c : KeyCall) :
    (next sha256 directory c).byHash.get? (grant.hash sha256 pepper) =
        some (grant.record sha256 pepper) ↔
      (∃ other, c = .issue other ∧ other.record sha256 pepper = grant.record sha256 pepper) ∨
        ¬c.Withdraws sha256 pepper grant ∧
          directory.byHash.get? (grant.hash sha256 pepper) =
            some (grant.record sha256 pepper) := by
  cases c with
  | issue other =>
      rw [next, get?_issue, hpepper]
      unfold KeyCall.Withdraws
      split_ifs with hhash
      · simp [hhash]
      · have hother : other.record sha256 pepper ≠ grant.record sha256 pepper := fun hsame =>
          hhash (congrArg ApiKeyRecord.hashedSecret hsame).symm
        simp [hother, Ne.symm hhash]
  | revoke keyId atMs =>
      rw [next, (revoke_spec h keyId atMs).2, Option.map_eq_some_iff]
      unfold KeyCall.Withdraws
      constructor
      · rintro ⟨was, hwas, heq⟩
        by_cases hid : was.id = keyId
        · rw [ApiKeyRecord.revokedBy, if_pos hid] at heq
          cases congrArg ApiKeyRecord.revokedAtMs heq
        · rw [ApiKeyRecord.revokedBy, if_neg hid] at heq
          subst heq
          exact .inr ⟨fun hsame => hid hsame.symm, hwas⟩
      · rintro (⟨other, hother, -⟩ | ⟨hid, hget⟩)
        · cases hother
        · refine ⟨_, hget, ?_⟩
          rw [ApiKeyRecord.revokedBy, if_neg fun hsame => hid hsame.symm]

/-- A key stands after some calls exactly when it was issued and not withdrawn since. -/
theorem get?_after_iff {calls : List KeyCall}
    (hids : ((calls.filterMap KeyCall.issued?).map KeyGrant.id).Nodup) (grant : KeyGrant) :
    (after sha256 pepper calls).byHash.get? (grant.hash sha256 pepper) =
        some (grant.record sha256 pepper) ↔
      ∃ before c rest, calls = before ++ c :: rest ∧
        (∃ other, c = .issue other ∧ other.record sha256 pepper = grant.record sha256 pepper) ∧
          ∀ c' ∈ rest, ¬c'.Withdraws sha256 pepper grant := by
  refine Runs.foldl_iff_last (next sha256) (fun directory => directory.byHash.get?
    (grant.hash sha256 pepper) = some (grant.record sha256 pepper)) ?_ ?_
  · intro h
    cases h
  · intro before c rest heq
    have hbefore : ((before.filterMap KeyCall.issued?).map KeyGrant.id).Nodup := by
      rw [heq, List.filterMap_append, List.map_append, List.nodup_append] at hids
      exact hids.1
    exact get?_next_iff (traced_after sha256 pepper hbefore).1.distinct
      (after_pepper sha256 pepper before) grant c

end InMemoryApiKeyDirectory

open InMemoryApiKeyDirectory

/-- A secret authenticates exactly when a key of the same hash was issued, is not expired and was
neither revoked nor replaced since; the caller it makes is the one of that key. -/
theorem authenticate_eq_some_iff (sha256 : String → String) (pepper : String)
    (calls : List KeyCall) (hids : ((calls.filterMap KeyCall.issued?).map KeyGrant.id).Nodup)
    (nowMs : ℤ) (presentedSecret traceId : String) (caller : AuthenticatedCaller) :
    (after sha256 pepper calls).authenticate sha256 nowMs presentedSecret traceId = some caller ↔
      ∃ before grant rest, calls = before ++ .issue grant :: rest ∧
        grant.hash sha256 pepper = hashSecret sha256 pepper presentedSecret ∧
        (∀ c ∈ rest, ¬c.Withdraws sha256 pepper grant) ∧
        (∀ expiresAtMs, grant.expiresAtMs = some expiresAtMs → nowMs < expiresAtMs) ∧
        caller = (grant.record sha256 pepper).caller traceId := by
  unfold authenticate
  rw [after_pepper, walk_eq]
  constructor
  · intro h
    cases hget : (after sha256 pepper calls).byHash.get?
        (hashSecret sha256 pepper presentedSecret) with
    | none =>
        rw [hget] at h
        cases h
    | some record =>
        simp only [hget] at h
        split_ifs at h with husable
        obtain ⟨hunrevoked, hunexpired⟩ := ApiKeyRecord.isUsable_iff.1 husable
        obtain ⟨grant, revokedAtMs, -, hhash, rfl⟩ :=
          (traced_after sha256 pepper hids).1.issued _ record hget
        obtain rfl : revokedAtMs = none := hunrevoked
        rw [hhash] at hget
        obtain ⟨before, _, rest, heq, ⟨other, rfl, hsame⟩, hrest⟩ :=
          (get?_after_iff hids grant).1 hget
        have hid : other.id = grant.id := congrArg ApiKeyRecord.id hsame
        have hhash' : other.hash sha256 pepper = grant.hash sha256 pepper :=
          congrArg ApiKeyRecord.hashedSecret hsame
        have hexpiry : other.expiresAtMs = grant.expiresAtMs :=
          congrArg ApiKeyRecord.expiresAtMs hsame
        refine ⟨before, other, rest, heq, hhash'.trans hhash.symm, fun c hc hwithdraws => ?_,
          fun expiresAtMs h' => hunexpired expiresAtMs (hexpiry.symm.trans h'), ?_⟩
        · refine hrest c hc ?_
          cases c with
          | issue next => exact hwithdraws.trans hhash'
          | revoke keyId atMs => exact hwithdraws.trans hid
        · rw [hsame]
          exact (Option.some.inj h).symm
  · rintro ⟨before, grant, rest, heq, hhash, hrest, hunexpired, rfl⟩
    have hget := (get?_after_iff hids grant).2 ⟨before, _, rest, heq, ⟨grant, rfl, rfl⟩, hrest⟩
    have husable : (grant.record sha256 pepper).isUsable nowMs = true :=
      ApiKeyRecord.isUsable_iff.2 ⟨rfl, hunexpired⟩
    rw [← hhash, hget]
    exact if_pos husable

def studySha256 (text : String) : String :=
  if text = "pepper:oek_study" then
    "866e1ced3c4641c7d87ea5feefa5686e9881bb98c30ed3e097a57989f722db93"
  else if text = "pepper:oek_retired" then
    "42a91101067ed5971a8931ab437b7d49e00edbd34a4a42cb938129a9e735e37d"
  else ""

def studyKey : KeyGrant where
  id := ⟨⟨"study-key", by decide⟩⟩
  token := "study"
  application := studyApplication
  tenant := studyTenant
  scopes := [.sessionsWrite, .resultsRead]
  expiresAtMs := some 1000

def retiredKey : KeyGrant :=
  { studyKey with id := ⟨⟨"retired-key", by decide⟩⟩, token := "retired", expiresAtMs := none }

def studyKeyCalls : List KeyCall :=
  [.issue retiredKey, .issue studyKey, .revoke retiredKey.id 500]

theorem authenticate_eq_some_iff_study :
    (after studySha256 "pepper" studyKeyCalls).authenticate studySha256 999 "oek_study"
      "trace-1" = some ((studyKey.record studySha256 "pepper").caller "trace-1") := by
  refine (authenticate_eq_some_iff studySha256 "pepper" studyKeyCalls (by decide) 999 "oek_study"
    "trace-1" _).2 ⟨[.issue retiredKey], studyKey, [.revoke retiredKey.id 500], rfl, by decide, ?_,
      ?_, rfl⟩
  · rintro c (_ | ⟨_, ⟨⟩⟩) hwithdraws
    exact absurd hwithdraws (by unfold KeyCall.Withdraws; decide)
  · rintro expiresAtMs h
    cases h
    decide

namespace ApiKeyTable

variable {table : ApiKeyTable}

theorem ofHash?_insert {row : ApiKeyRow} (hid : table.rows.get? row.id = none)
    (hhash : table.ofHash? row.hashedSecret = none) (candidate : String) :
    (table.insert row).2.ofHash? candidate =
      if candidate = row.hashedSecret then some row else table.ofHash? candidate := by
  have hrows : (table.insert row).2.rows = table.rows.set row.id row := by
    rw [insert, dif_pos ⟨hid, hhash⟩]
  ext other
  rw [ofHash?_eq_some_iff, hrows]
  constructor
  · rintro ⟨rfl, id, hget⟩
    rw [Dict.get?_set] at hget
    split_ifs at hget with hsame
    · cases hget
      exact if_pos rfl
    · have hfound := table.ofHash?_eq_some_iff.2 ⟨rfl, id, hget⟩
      rw [if_neg fun heq => ?_, hfound]
      rw [heq, hhash] at hfound
      cases hfound
  · intro h
    split_ifs at h with heq
    · cases h
      exact ⟨heq.symm, row.id, Dict.get?_set_self _ _ _⟩
    · obtain ⟨hother, id, hget⟩ := table.ofHash?_eq_some_iff.1 h
      refine ⟨hother, id, (Dict.get?_set_ne _ _ ?_).trans hget⟩
      rintro rfl
      rw [hid] at hget
      cases hget

end ApiKeyTable

def ApiKeyRow.revokedBy (keyId : ApiKeyId) (atMs : ℤ) (row : ApiKeyRow) : ApiKeyRow :=
  if row.id = keyId.value then { row with revokedAtMs := some atMs } else row

theorem ApiKeyRow.revokedBy_of (keyId : ApiKeyId) (atMs : ℤ) (record : ApiKeyRecord)
    (scopes : List Scope) :
    (ApiKeyRow.of record scopes).revokedBy keyId atMs =
      .of (record.revokedBy keyId atMs) scopes := by
  have hid : (ApiKeyRow.of record scopes).id = keyId.value ↔ record.id = keyId :=
    ⟨ApiKeyId.ext_value, congrArg fun id : ApiKeyId => id.value⟩
  unfold ApiKeyRow.revokedBy ApiKeyRecord.revokedBy
  by_cases h : record.id = keyId
  · rw [if_pos (hid.2 h), if_pos h]
    rfl
  · rw [if_neg (hid.not.2 h), if_neg h]

theorem ApiKeyRow.revokedBy_hash (keyId : ApiKeyId) (atMs : ℤ) (row : ApiKeyRow) :
    (row.revokedBy keyId atMs).hashedSecret = row.hashedSecret := by
  unfold ApiKeyRow.revokedBy
  split_ifs <;> rfl

theorem PostgresApiKeyDirectory.revoke_spec (table : ApiKeyTable) (keyId : ApiKeyId) (atMs : ℤ) :
    ((revoke table keyId atMs).1 = true ↔
        ∃ hash row, table.ofHash? hash = some row ∧ row.id = keyId.value) ∧
      ∀ hash, (revoke table keyId atMs).2.ofHash? hash =
        (table.ofHash? hash).map (ApiKeyRow.revokedBy keyId atMs) := by
  have hstored : ∀ {hash row}, table.ofHash? hash = some row →
      table.rows.get? row.id = some row := fun h => by
    obtain ⟨-, id, hid⟩ := table.ofHash?_eq_some_iff.1 h
    rwa [table.keyed id _ hid]
  unfold revoke
  split
  next hnone =>
    have hother : ∀ {hash row}, table.ofHash? hash = some row → row.id ≠ keyId.value :=
      fun h hid => by
        have hget := hstored h
        rw [hid, hnone] at hget
        cases hget
    refine ⟨iff_of_false Bool.false_ne_true ?_, fun hash => ?_⟩
    · rintro ⟨hash, row, hfound, hid⟩
      exact hother hfound hid
    · cases hfound : table.ofHash? hash with
      | none => rfl
      | some row => rw [Option.map_some, ApiKeyRow.revokedBy, if_neg (hother hfound)]
  next row hrow =>
    have hid : row.id = keyId.value := table.keyed _ row hrow
    have hrevoked : row.revokedBy keyId atMs = { row with revokedAtMs := some atMs } := if_pos hid
    refine ⟨iff_of_true rfl ⟨row.hashedSecret, row,
      table.ofHash?_eq_some_iff.2 ⟨rfl, _, hrow⟩, hid⟩, fun hash => ?_⟩
    ext other
    rw [ApiKeyTable.ofHash?_eq_some_iff, Option.map_eq_some_iff]
    constructor
    · rintro ⟨rfl, id, hget⟩
      rw [Dict.get?_set] at hget
      split_ifs at hget with heq
      · cases hget
        exact ⟨row, table.ofHash?_eq_some_iff.2 ⟨rfl, _, hrow⟩, hrevoked⟩
      · refine ⟨other, table.ofHash?_eq_some_iff.2 ⟨rfl, id, hget⟩, ?_⟩
        have hother : other.id ≠ keyId.value := fun hsame =>
          heq ((table.keyed id other hget).symm.trans hsame)
        rw [ApiKeyRow.revokedBy, if_neg hother]
    · rintro ⟨was, hwas, rfl⟩
      refine ⟨?_, was.id, ?_⟩
      · exact (ApiKeyRow.revokedBy_hash _ _ _).trans (table.ofHash?_eq_some_iff.1 hwas).1
      · rw [Dict.get?_set]
        split_ifs with heq
        · have hget := hstored hwas
          rw [heq, hrow] at hget
          cases hget
          rw [hrevoked]
        · rw [ApiKeyRow.revokedBy, if_neg heq]
          exact hstored hwas

/-- The rows found are those of the records found. -/
structure DirectoriesAlike (directory : InMemoryApiKeyDirectory) (table : ApiKeyTable) :
    Prop where
  distinct : directory.Distinct
  stored : ∀ hash record, directory.byHash.get? hash = some record →
    ∃ scopes : List Scope, scopes.toFinset = record.scopes ∧
      table.ofHash? hash = some (.of record scopes)
  missing : ∀ hash, directory.byHash.get? hash = none → table.ofHash? hash = none

namespace DirectoriesAlike

variable {directory : InMemoryApiKeyDirectory} {table : ApiKeyTable}

theorem authenticate (h : DirectoriesAlike directory table) (nowMs : ℤ)
    (presentedSecret traceId : String) :
    PostgresApiKeyDirectory.authenticate sha256 directory.pepper table nowMs presentedSecret
        traceId = .ok (directory.authenticate sha256 nowMs presentedSecret traceId) := by
  unfold PostgresApiKeyDirectory.authenticate InMemoryApiKeyDirectory.authenticate
  rw [walk_eq]
  cases hget : directory.byHash.get? (hashSecret sha256 directory.pepper presentedSecret) with
  | none => rw [h.missing _ hget]
  | some record =>
      obtain ⟨scopes, hscopes, hrow⟩ := h.stored _ record hget
      have hread : (scopes.map (·.value)).mapM (parseMember Scope.enumeration) =
          .ok (scopes.map fun scope => scope) :=
        Except.mapM_map fun scope _ => parseMember_value Scope.enumeration scope
      simp only [hrow, ApiKeyRow.of, hread, Identifier.map_of_value, bind, Except.bind, pure,
        Except.pure, List.map_id', hscopes]
      cases hrevoked : record.revokedAtMs with
      | some atMs => simp [ApiKeyRecord.isUsable, hrevoked]
      | none =>
          cases hexpiry : record.expiresAtMs with
          | none => simp [ApiKeyRecord.isUsable, ApiKeyRecord.caller, hrevoked, hexpiry]
          | some expiresAtMs =>
              by_cases hexpired : expiresAtMs ≤ nowMs
              · simp [ApiKeyRecord.isUsable, hrevoked, hexpiry, hexpired]
              · have hahead : nowMs < expiresAtMs := not_le.1 hexpired
                simp [ApiKeyRecord.isUsable, ApiKeyRecord.caller, hrevoked, hexpiry, hexpired,
                  hahead]

theorem revoke (h : DirectoriesAlike directory table) (keyId : ApiKeyId) (atMs : ℤ) :
    (PostgresApiKeyDirectory.revoke table keyId atMs).1 = (directory.revoke keyId atMs).1 ∧
      DirectoriesAlike (directory.revoke keyId atMs).2
        (PostgresApiKeyDirectory.revoke table keyId atMs).2 := by
  obtain ⟨hanswer, hrecords⟩ := InMemoryApiKeyDirectory.revoke_spec h.distinct keyId atMs
  obtain ⟨hanswer', hrows⟩ := PostgresApiKeyDirectory.revoke_spec table keyId atMs
  refine ⟨Bool.eq_iff_iff.2 (hanswer'.trans (Iff.trans ?_ hanswer.symm)), ?_, ?_, ?_⟩
  · constructor
    · rintro ⟨hash, row, hrow, hid⟩
      cases hget : directory.byHash.get? hash with
      | none =>
          rw [h.missing hash hget] at hrow
          cases hrow
      | some record =>
          obtain ⟨scopes, -, hstored⟩ := h.stored hash record hget
          rw [hrow] at hstored
          cases hstored
          exact ⟨hash, record, hget, ApiKeyId.ext_value hid⟩
    · rintro ⟨hash, record, hget, rfl⟩
      obtain ⟨scopes, -, hstored⟩ := h.stored hash record hget
      exact ⟨hash, _, hstored, rfl⟩
  · have hnext : (next id directory (.revoke keyId atMs)).Distinct := h.distinct.next trivial
    exact hnext
  · intro hash record hget
    rw [hrecords] at hget
    obtain ⟨was, hwas, rfl⟩ := Option.map_eq_some_iff.1 hget
    obtain ⟨scopes, hscopes, hstored⟩ := h.stored hash was hwas
    refine ⟨scopes, ?_, ?_⟩
    · rw [hscopes]
      unfold ApiKeyRecord.revokedBy
      split_ifs <;> rfl
    · rw [hrows, hstored, Option.map_some, ApiKeyRow.revokedBy_of]
  · intro hash hget
    rw [hrecords, Option.map_eq_none_iff] at hget
    rw [hrows, h.missing hash hget]
    rfl

theorem issue (h : DirectoriesAlike directory table) {grant : KeyGrant}
    (hid : directory.IssuesFresh (.issue grant))
    (hhash : directory.byHash.get? (grant.hash sha256 directory.pepper) = none) :
    DirectoriesAlike (directory.issue sha256 grant).2
      (table.insert (.of (grant.record sha256 directory.pepper) grant.scopes)).2 := by
  have hrowId : table.rows.get? grant.id.value = none := by
    cases hrow : table.rows.get? grant.id.value with
    | none => rfl
    | some row =>
        have hfound := table.ofHash?_eq_some_iff.2 ⟨rfl, _, hrow⟩
        cases hget : directory.byHash.get? row.hashedSecret with
        | none =>
            rw [h.missing _ hget] at hfound
            cases hfound
        | some record =>
            obtain ⟨scopes, -, hstored⟩ := h.stored _ record hget
            have hsame := Option.some.inj (hfound.symm.trans hstored)
            have hvalue : record.id.value = grant.id.value :=
              (congrArg ApiKeyRow.id hsame).symm.trans (table.keyed _ row hrow)
            exact absurd (ApiKeyId.ext_value hvalue) (hid _ record hget)
  have hrowHash := h.missing _ hhash
  refine ⟨Distinct.next h.distinct (c := .issue grant) hid, ?_, ?_⟩
  · intro hash record hget
    rw [get?_issue] at hget
    rw [ApiKeyTable.ofHash?_insert hrowId hrowHash]
    split_ifs at hget with heq
    · cases hget
      exact ⟨grant.scopes, rfl, if_pos heq⟩
    · obtain ⟨scopes, hscopes, hstored⟩ := h.stored hash record hget
      exact ⟨scopes, hscopes, (if_neg heq).trans hstored⟩
  · intro hash hget
    rw [get?_issue] at hget
    rw [ApiKeyTable.ofHash?_insert hrowId hrowHash]
    split_ifs at hget with heq
    exact (if_neg heq).trans (h.missing hash hget)

theorem fresh (pepper : String) : DirectoriesAlike ⟨pepper, .empty⟩ .fresh where
  distinct _ _ _ _ h := by cases h
  stored _ _ h := by cases h
  missing _ _ := rfl

theorem after {calls : List KeyCall}
    (hids : ((calls.filterMap KeyCall.issued?).map KeyGrant.id).Nodup)
    (hhashes : ((calls.filterMap KeyCall.issued?).map (KeyGrant.hash sha256 pepper)).Nodup) :
    DirectoriesAlike (InMemoryApiKeyDirectory.after sha256 pepper calls)
      (PostgresApiKeyDirectory.after sha256 pepper calls) := by
  induction calls using List.reverseRecOn with
  | nil => exact fresh pepper
  | append_singleton calls c ih =>
      obtain ⟨-, hsteps⟩ := traced_after sha256 pepper hids
      have hfresh := (Runs.everyStep_cons.1 (Runs.everyStep_append.1 hsteps).2).1
      rw [List.filterMap_append, List.map_append, List.nodup_append] at hids hhashes
      have hbefore := ih hids.1 hhashes.1
      unfold InMemoryApiKeyDirectory.after PostgresApiKeyDirectory.after
      rw [List.foldl_append, List.foldl_append]
      cases c with
      | revoke keyId atMs => exact (hbefore.revoke keyId atMs).2
      | issue grant =>
          have hpepper := after_pepper sha256 pepper calls
          have hhash : (InMemoryApiKeyDirectory.after sha256 pepper calls).byHash.get?
              (grant.hash sha256 (InMemoryApiKeyDirectory.after sha256 pepper calls).pepper) =
                none := by
            rw [hpepper, Option.eq_none_iff_forall_ne_some]
            intro record hget
            obtain ⟨earlier, _, hearlier, hsame, -⟩ :=
              (traced_after sha256 pepper hids.1).1.issued _ record hget
            refine hhashes.2.2 (earlier.hash sha256 pepper) ?_ (grant.hash sha256 pepper)
              (by simp [KeyCall.issued?]) hsame.symm
            exact List.mem_map_of_mem (List.mem_filterMap.2 ⟨_, hearlier, rfl⟩)
          have hissue := hbefore.issue hfresh hhash
          rw [hpepper] at hissue
          exact hissue

end DirectoriesAlike

/-- After any calls that issue keys of distinct identifiers and hashes, the two directories
authenticate alike, and a revocation finds its key on both or on neither. -/
theorem apiKeyDirectories_agree (sha256 : String → String) (pepper : String)
    (calls : List KeyCall) (hids : ((calls.filterMap KeyCall.issued?).map KeyGrant.id).Nodup)
    (hhashes : ((calls.filterMap KeyCall.issued?).map (KeyGrant.hash sha256 pepper)).Nodup) :
    let memory := InMemoryApiKeyDirectory.after sha256 pepper calls
    let table := PostgresApiKeyDirectory.after sha256 pepper calls
    (∀ nowMs presentedSecret traceId,
      PostgresApiKeyDirectory.authenticate sha256 pepper table nowMs presentedSecret traceId =
        .ok (memory.authenticate sha256 nowMs presentedSecret traceId)) ∧
      ∀ keyId atMs,
        (PostgresApiKeyDirectory.revoke table keyId atMs).1 = (memory.revoke keyId atMs).1 := by
  intro memory table
  have halike : DirectoriesAlike memory table := DirectoriesAlike.after hids hhashes
  refine ⟨fun nowMs presentedSecret traceId => ?_, fun keyId atMs => (halike.revoke keyId atMs).1⟩
  have hpepper : memory.pepper = pepper := after_pepper sha256 pepper calls
  rw [← halike.authenticate nowMs presentedSecret traceId, hpepper]

theorem apiKeyDirectories_agree_study :
    PostgresApiKeyDirectory.authenticate studySha256 "pepper"
      (PostgresApiKeyDirectory.after studySha256 "pepper"
        [.issue studyKey, .revoke studyKey.id 500]) 600 "oek_study" "trace-1" = .ok none := by
  have hagree := (apiKeyDirectories_agree studySha256 "pepper"
    [.issue studyKey, .revoke studyKey.id 500] (List.nodup_singleton _)
    (List.nodup_singleton _)).1 600 "oek_study" "trace-1"
  rw [hagree]
  exact congrArg Except.ok (Option.isNone_iff_eq_none.1 (by decide))

end OratoriaEngine
