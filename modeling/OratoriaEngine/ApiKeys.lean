import OratoriaEngine.PostgresSessions
import OratoriaEngine.StreamTokens
import OratoriaEngine.Lib.Runs

/-!
# API keys

A key is issued once and stored as a hash. A presented secret is looked up by its hash, and
an unknown, a revoked and an expired key get one answer. The directory in process memory walks
its records; on Postgres the index finds the row, and the server keeps identifiers and hashes
distinct.
-/

namespace OratoriaEngine

structure ApiKeyRecord where
  id : ApiKeyId
  application : ApplicationId
  tenant : TenantId
  hashedSecret : String
  keyPrefix : String
  scopes : Finset Scope
  expiresAtMs : Option ℤ
  revokedAtMs : Option ℤ
  deriving DecidableEq

namespace ApiKeyRecord

def isUsable (record : ApiKeyRecord) (nowMs : ℤ) : Bool :=
  match record.revokedAtMs with
  | some _ => false
  | none => record.expiresAtMs.all fun expiresAtMs => nowMs < expiresAtMs

/-- The caller a request under the key is made by. -/
def caller (record : ApiKeyRecord) (traceId : String) : AuthenticatedCaller where
  application := record.application
  tenant := record.tenant
  keyId := record.id
  scopes := record.scopes
  traceId := traceId

theorem isUsable_iff {record : ApiKeyRecord} {nowMs : ℤ} :
    record.isUsable nowMs = true ↔ record.revokedAtMs = none ∧
      ∀ expiresAtMs, record.expiresAtMs = some expiresAtMs → nowMs < expiresAtMs := by
  unfold isUsable
  cases record.revokedAtMs with
  | none => cases record.expiresAtMs <;> simp
  | some at_ => simp

end ApiKeyRecord

/-- What an issue is given, with the identifier and the token that are generated in it. -/
structure KeyGrant where
  id : ApiKeyId
  token : String
  application : ApplicationId
  tenant : TenantId
  scopes : List Scope
  expiresAtMs : Option ℤ

def keyPrefix : String := "oek_"

def generateSecret (token : String) : String := keyPrefix ++ token

section Secrets

variable (sha256 : String → String) (pepper : String)

def hashSecret (secret : String) : String := sha256 (pepper ++ ":" ++ secret)

namespace KeyGrant

variable (grant : KeyGrant)

def secret : String := generateSecret grant.token

def hash : String := hashSecret sha256 pepper grant.secret

def record : ApiKeyRecord where
  id := grant.id
  application := grant.application
  tenant := grant.tenant
  hashedSecret := grant.hash sha256 pepper
  keyPrefix := String.ofList (grant.secret.toList.take (keyPrefix.length + 6))
  scopes := grant.scopes.toFinset
  expiresAtMs := grant.expiresAtMs
  revokedAtMs := none

end KeyGrant

end Secrets

structure InMemoryApiKeyDirectory where
  pepper : String
  byHash : Dict String ApiKeyRecord

namespace InMemoryApiKeyDirectory

variable (sha256 : String → String) (directory : InMemoryApiKeyDirectory)

def register (record : ApiKeyRecord) : InMemoryApiKeyDirectory :=
  { directory with byHash := directory.byHash.set record.hashedSecret record }

def issue (grant : KeyGrant) : (String × ApiKeyRecord) × InMemoryApiKeyDirectory :=
  let record := grant.record sha256 directory.pepper
  ((grant.secret, record), directory.register record)

def revoke (keyId : ApiKeyId) (atMs : ℤ) : Bool × InMemoryApiKeyDirectory :=
  match directory.byHash.entries.find? fun entry => entry.2.id = keyId with
  | none => (false, directory)
  | some (hashed, record) =>
      (true, { directory with
        byHash := directory.byHash.set hashed { record with revokedAtMs := some atMs } })

/-- The last record whose hash compares equal, as the walk over all of them leaves it. -/
def walk (candidate : String) : Option ApiKeyRecord :=
  directory.byHash.entries.foldl
    (fun matched entry => if entry.1 = candidate then some entry.2 else matched) none

def authenticate (nowMs : ℤ) (presentedSecret traceId : String) : Option AuthenticatedCaller :=
  match directory.walk (hashSecret sha256 directory.pepper presentedSecret) with
  | none => none
  | some matched => if matched.isUsable nowMs then some (matched.caller traceId) else none

end InMemoryApiKeyDirectory

structure ApiKeyRow where
  id : String
  applicationId : String
  tenantId : String
  hashedSecret : String
  keyPrefix : String
  scopes : List String
  expiresAtMs : Option ℤ
  revokedAtMs : Option ℤ

/-- The row of a record, whose scopes are listed in some order. -/
def ApiKeyRow.of (record : ApiKeyRecord) (scopes : List Scope) : ApiKeyRow where
  id := record.id.value
  applicationId := record.application.value
  tenantId := record.tenant.value
  hashedSecret := record.hashedSecret
  keyPrefix := record.keyPrefix
  scopes := scopes.map (·.value)
  expiresAtMs := record.expiresAtMs
  revokedAtMs := record.revokedAtMs

/-- The table `api_key`: rows by their identifier, with distinct hashes. -/
structure ApiKeyTable where
  rows : Dict String ApiKeyRow
  keyed : ∀ id row, rows.get? id = some row → row.id = id
  unique : ∀ id id' row row', rows.get? id = some row → rows.get? id' = some row' →
    row.hashedSecret = row'.hashedSecret → id = id'

namespace ApiKeyTable

def fresh : ApiKeyTable where
  rows := .empty
  keyed _ _ h := by cases h
  unique _ _ _ _ h := by cases h

variable (table : ApiKeyTable)

/-- `where(ApiKeyRow.hashed_secret == candidate)`. -/
def ofHash? (candidate : String) : Option ApiKeyRow :=
  table.rows.values.find? fun row => row.hashedSecret = candidate

theorem ofHash?_eq_some_iff {candidate : String} {row : ApiKeyRow} :
    table.ofHash? candidate = some row ↔
      row.hashedSecret = candidate ∧ ∃ id, table.rows.get? id = some row := by
  constructor
  · intro h
    exact ⟨by simpa using List.find?_some h,
      (Dict.mem_values_iff _ _).1 (List.mem_of_find?_eq_some h)⟩
  · rintro ⟨hhash, id, hid⟩
    cases hfound : table.ofHash? candidate with
    | none =>
        have hmem := (Dict.mem_values_iff _ _).2 ⟨id, hid⟩
        exact absurd hhash (by simpa using List.find?_eq_none.1 hfound row hmem)
    | some row' =>
        have hhash' : row'.hashedSecret = candidate := by simpa using List.find?_some hfound
        obtain ⟨id', hid'⟩ := (Dict.mem_values_iff _ _).1 (List.mem_of_find?_eq_some hfound)
        obtain rfl := table.unique id id' row row' hid hid' (hhash.trans hhash'.symm)
        exact hid'.symm.trans hid

/-- A row whose identifier or whose hash is taken is refused. -/
def insert (row : ApiKeyRow) : Except Failure Unit × ApiKeyTable :=
  if h : table.rows.get? row.id = none ∧ table.ofHash? row.hashedSecret = none then
    (.ok (), {
      rows := table.rows.set row.id row
      keyed := by
        intro id other hid
        rw [Dict.get?_set] at hid
        split_ifs at hid with heq
        · cases hid
          exact heq.symm
        · exact table.keyed id other hid
      unique := by
        have hfree : ∀ id other, table.rows.get? id = some other →
            other.hashedSecret ≠ row.hashedSecret := fun id other hid hhash => by
          have hfound := table.ofHash?_eq_some_iff.2 ⟨hhash, id, hid⟩
          rw [h.2] at hfound
          cases hfound
        intro id id' first second hfirst hsecond hhash
        rw [Dict.get?_set] at hfirst hsecond
        split_ifs at hfirst hsecond with hid hid' hid'
        · rw [hid, hid']
        · cases hfirst
          exact absurd hhash.symm (hfree id' second hsecond)
        · cases hsecond
          exact absurd hhash (hfree id first hfirst)
        · exact table.unique id id' first second hfirst hsecond hhash })
  else (.error integrityError, table)

end ApiKeyTable

namespace PostgresApiKeyDirectory

variable (sha256 : String → String) (pepper : String) (table : ApiKeyTable)

def authenticate (nowMs : ℤ) (presentedSecret traceId : String) :
    Except Failure (Option AuthenticatedCaller) :=
  match table.ofHash? (hashSecret sha256 pepper presentedSecret) with
  | none => .ok none
  | some row =>
      if row.revokedAtMs.isSome then .ok none
      else if row.expiresAtMs.any fun expiresAtMs => expiresAtMs ≤ nowMs then .ok none
      else do
        let application ← ApplicationId.mk <$> Identifier.of "ApplicationId" row.applicationId
        let tenant ← TenantId.mk <$> Identifier.of "TenantId" row.tenantId
        let keyId ← ApiKeyId.mk <$> Identifier.of "ApiKeyId" row.id
        let scopes ← row.scopes.mapM (parseMember Scope.enumeration)
        return some ⟨application, tenant, keyId, scopes.toFinset, traceId⟩

/-- The row of the identifier is revoked; the answer is whether there is one. -/
def revoke (keyId : ApiKeyId) (atMs : ℤ) : Bool × ApiKeyTable :=
  match h : table.rows.get? keyId.value with
  | none => (false, table)
  | some row =>
      (true, {
        rows := table.rows.set keyId.value { row with revokedAtMs := some atMs }
        keyed := by
          intro id other hid
          rw [Dict.get?_set] at hid
          split_ifs at hid with heq
          · cases hid
            exact (table.keyed _ row h).trans heq.symm
          · exact table.keyed id other hid
        unique := by
          intro id id' first second hfirst hsecond hhash
          rw [Dict.get?_set] at hfirst hsecond
          split_ifs at hfirst hsecond with hid hid' hid'
          · rw [hid, hid']
          · cases hfirst
            exact hid.trans (table.unique _ _ _ _ h hsecond hhash)
          · cases hsecond
            exact (table.unique _ _ _ _ hfirst h hhash).trans hid'.symm
          · exact table.unique id id' first second hfirst hsecond hhash })

end PostgresApiKeyDirectory

inductive KeyCall
  | issue (grant : KeyGrant)
  | revoke (keyId : ApiKeyId) (atMs : ℤ)

namespace KeyCall

def issued? : KeyCall → Option KeyGrant
  | .issue grant => some grant
  | .revoke _ _ => none

end KeyCall

section Calls

variable (sha256 : String → String) (pepper : String)

def InMemoryApiKeyDirectory.next (directory : InMemoryApiKeyDirectory) :
    KeyCall → InMemoryApiKeyDirectory
  | .issue grant => (directory.issue sha256 grant).2
  | .revoke keyId atMs => (directory.revoke keyId atMs).2

def InMemoryApiKeyDirectory.after (calls : List KeyCall) : InMemoryApiKeyDirectory :=
  calls.foldl (next sha256) ⟨pepper, .empty⟩

/-- On Postgres a key is issued by adding its row. -/
def PostgresApiKeyDirectory.next (table : ApiKeyTable) : KeyCall → ApiKeyTable
  | .issue grant => (table.insert (.of (grant.record sha256 pepper) grant.scopes)).2
  | .revoke keyId atMs => (revoke table keyId atMs).2

def PostgresApiKeyDirectory.after (calls : List KeyCall) : ApiKeyTable :=
  calls.foldl (next sha256 pepper) .fresh

end Calls

def ApiKeyRecord.revokedBy (keyId : ApiKeyId) (atMs : ℤ) (record : ApiKeyRecord) : ApiKeyRecord :=
  if record.id = keyId then { record with revokedAtMs := some atMs } else record

theorem ApiKeyId.ext_value {a b : ApiKeyId} (h : a.value = b.value) : a = b := by
  cases a
  cases b
  exact congrArg ApiKeyId.mk (Identifier.ext_value h)

namespace InMemoryApiKeyDirectory

variable {sha256 : String → String} {directory : InMemoryApiKeyDirectory}

theorem walk_eq (candidate : String) :
    directory.walk candidate = directory.byHash.get? candidate := by
  have hwalk : ∀ (entries : List (String × ApiKeyRecord)) (found : Option ApiKeyRecord),
      (entries.map Prod.fst).Nodup →
        entries.foldl (fun matched entry => if entry.1 = candidate then some entry.2 else matched)
            found = (entries.lookup candidate).or found := by
    intro entries
    induction entries with
    | nil => exact fun _ _ => rfl
    | cons entry entries ih =>
        intro found hnodup
        obtain ⟨hash, record⟩ := entry
        rw [List.map_cons, List.nodup_cons] at hnodup
        rw [List.foldl_cons, ih _ hnodup.2]
        by_cases hhash : hash = candidate
        · subst hhash
          have hnone : entries.lookup hash = none := by
            rw [List.lookup_eq_none_iff]
            intro entry hentry
            have hne : hash ≠ entry.1 := fun heq =>
              hnodup.1 (heq ▸ List.mem_map.2 ⟨entry, hentry, rfl⟩)
            simpa using hne
          simp [hnone]
        · have hbeq : (candidate == hash) = false := by simpa using Ne.symm hhash
          simp [List.lookup_cons, hbeq, hhash]
  rw [walk, hwalk _ _ directory.byHash.nodup, Option.or_none]
  rfl

def Distinct (directory : InMemoryApiKeyDirectory) : Prop :=
  ∀ hash hash' record record', directory.byHash.get? hash = some record →
    directory.byHash.get? hash' = some record' → record.id = record'.id → hash = hash'

theorem get?_issue (grant : KeyGrant) (hash : String) :
    (directory.issue sha256 grant).2.byHash.get? hash =
      if hash = grant.hash sha256 directory.pepper then
        some (grant.record sha256 directory.pepper)
      else directory.byHash.get? hash := Dict.get?_set _ _ _ _

theorem revoke_spec (h : directory.Distinct) (keyId : ApiKeyId) (atMs : ℤ) :
    ((directory.revoke keyId atMs).1 = true ↔
        ∃ hash record, directory.byHash.get? hash = some record ∧ record.id = keyId) ∧
      ∀ hash, (directory.revoke keyId atMs).2.byHash.get? hash =
        (directory.byHash.get? hash).map (ApiKeyRecord.revokedBy keyId atMs) := by
  unfold revoke
  cases hfound : directory.byHash.entries.find? fun entry => entry.2.id = keyId with
  | none =>
      have hnone : ∀ hash record, directory.byHash.get? hash = some record →
          record.id ≠ keyId := fun hash record hget => by
        have hmem := (Dict.get?_eq_some_iff_mem _ _ _).1 hget
        simpa using List.find?_eq_none.1 hfound _ hmem
      refine ⟨iff_of_false Bool.false_ne_true ?_, fun hash => ?_⟩
      · rintro ⟨hash, record, hget, hid⟩
        exact hnone hash record hget hid
      · cases hget : directory.byHash.get? hash with
        | none => rfl
        | some record =>
            rw [Option.map_some, ApiKeyRecord.revokedBy, if_neg (hnone hash record hget)]
  | some entry =>
      obtain ⟨hashed, record⟩ := entry
      have hid : record.id = keyId := by simpa using List.find?_some hfound
      have hget : directory.byHash.get? hashed = some record :=
        (Dict.get?_eq_some_iff_mem _ _ _).2 (List.mem_of_find?_eq_some hfound)
      refine ⟨iff_of_true rfl ⟨hashed, record, hget, hid⟩, fun hash => ?_⟩
      refine (Dict.get?_set _ _ _ _).trans ?_
      split_ifs with heq
      · rw [heq, hget, Option.map_some, ApiKeyRecord.revokedBy, if_pos hid]
      · cases hother : directory.byHash.get? hash with
        | none => rfl
        | some other =>
            have hne : other.id ≠ keyId := fun hsame =>
              heq (h hash hashed other record hother hget (hsame.trans hid.symm))
            rw [Option.map_some, ApiKeyRecord.revokedBy, if_neg hne]

end InMemoryApiKeyDirectory

end OratoriaEngine
