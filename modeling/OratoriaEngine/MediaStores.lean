import OratoriaEngine.Lib.Delimited
import OratoriaEngine.MediaDeletion
import OratoriaEngine.VersionText

/-!
# The two media stores

An object is put under a reference that names its kind, its session and the digest of its bytes.
In memory the reference is the key. On S3 the key is composed anew, from the parts a reference is
split into, and the deadline of an object is kept as text in its metadata.
-/

namespace OratoriaEngine

inductive MediaKind
  | rawMedia
  | derivedFeatures
  deriving DecidableEq, Repr

def MediaKind.value : MediaKind → String
  | .rawMedia => "raw_media"
  | .derivedFeatures => "derived_features"

/-- The first sixteen hexadecimal digits of SHA-256. -/
structure MediaDigest where
  hexdigest : List UInt8 → String

theorem isBlank_kind (kind : MediaKind) : isBlank kind.value = false := by
  cases kind <;> decide

def mediaRef (digest : MediaDigest) (kind : MediaKind) (sessionId : SessionId)
    (payload : List UInt8) : EvidenceRef where
  value := kind.value ++ (":" ++ sessionId.value ++ ":" ++ digest.hexdigest payload)
  visible := isBlank_append_of_head (isBlank_kind kind) _

structure StoredMedia extends StoredObject where
  kind : MediaKind
  sizeBytes : ℕ
  contentType : String

/-- What both adapters return for an object that was put. -/
def storedMedia (digest : MediaDigest) (tenant : TenantId) (sessionId : SessionId)
    (kind : MediaKind) (contentType : String) (payload : List UInt8) (expiresAtMs : ℤ) :
    StoredMedia where
  ref := mediaRef digest kind sessionId payload
  tenant := tenant
  sessionId := sessionId
  kind := kind
  sizeBytes := payload.length
  contentType := contentType
  expiresAtMs := expiresAtMs

def noLiveObject (ref : EvidenceRef) : Failure :=
  .foreign "FileNotFoundError" s!"no live object at {ref.value}"

structure MediaEntry where
  stored : StoredMedia
  payload : List UInt8

structure InMemoryMediaStore where
  objects : Dict (String × String) MediaEntry

namespace InMemoryMediaStore

def fresh : InMemoryMediaStore := ⟨.empty⟩

variable (digest : MediaDigest) (nowMs : ℤ) (store : InMemoryMediaStore) (tenant : TenantId)

def put (sessionId : SessionId) (kind : MediaKind) (contentType : String) (payload : List UInt8)
    (expiresAtMs : ℤ) : StoredMedia × InMemoryMediaStore :=
  let stored := storedMedia digest tenant sessionId kind contentType payload expiresAtMs
  (stored, ⟨store.objects.set (tenant.value, stored.ref.value) ⟨stored, payload⟩⟩)

def expired (entry : MediaEntry) : Bool := entry.stored.expiresAtMs ≤ nowMs

/-- An object past its deadline is removed when it is looked for. -/
def live (ref : EvidenceRef) : Option MediaEntry × InMemoryMediaStore :=
  match store.objects.get? (tenant.value, ref.value) with
  | none => (none, store)
  | some entry =>
      if expired nowMs entry then (none, ⟨store.objects.erase (tenant.value, ref.value)⟩)
      else (some entry, store)

def «open» (ref : EvidenceRef) : Except Failure (List UInt8) × InMemoryMediaStore :=
  let found := live nowMs store tenant ref
  match found.1 with
  | none => (.error (noLiveObject ref), found.2)
  | some entry => (.ok entry.payload, found.2)

def «exists» (ref : EvidenceRef) : Bool × InMemoryMediaStore :=
  let found := live nowMs store tenant ref
  (found.1.isSome, found.2)

def delete (ref : EvidenceRef) : Bool × InMemoryMediaStore :=
  (store.objects.contains (tenant.value, ref.value),
    ⟨store.objects.erase (tenant.value, ref.value)⟩)

def isOf (sessionId : SessionId) (key : String × String) (entry : MediaEntry) : Bool :=
  key.1 = tenant.value && entry.stored.sessionId = sessionId

def deleteForSession (sessionId : SessionId) : ℤ × InMemoryMediaStore :=
  ((store.objects.filter (isOf tenant sessionId)).entries.length,
    ⟨store.objects.filter fun key entry => !isOf tenant sessionId key entry⟩)

end InMemoryMediaStore

/-- What is kept of an object besides its key. -/
structure S3Body where
  payload : List UInt8
  contentType : String
  expiresAtMs : String

structure S3MediaStore where
  bucket : S3Bucket
  bodies : Dict String S3Body

def intOf (text : String) : Except Failure ℤ :=
  match readInt text.toList with
  | some n => .ok n
  | none => .error (.valueError s!"invalid literal for int() with base 10: '{text}'")

namespace S3MediaStore

def fresh : S3MediaStore := ⟨⟨.empty, fun _ _ h => nomatch h⟩, .empty⟩

variable (digest : MediaDigest) (listing : S3Listing) (nowMs : ℤ) (store : S3MediaStore)
  (tenant : TenantId)

def objectName (kind digest : String) : String := kind ++ "-" ++ digest

def putObject (object : S3Object) (body : S3Body) : S3MediaStore where
  bucket := {
    objects := store.bucket.objects.set object.key object
    keyed := by
      intro key other h
      rw [Dict.get?_set] at h
      split_ifs at h with hkey
      · cases h
        exact hkey
      · exact store.bucket.keyed key other h }
  bodies := store.bodies.set object.key body

def put (sessionId : SessionId) (kind : MediaKind) (contentType : String) (payload : List UInt8)
    (expiresAtMs : ℤ) : StoredMedia × S3MediaStore :=
  (storedMedia digest tenant sessionId kind contentType payload expiresAtMs,
    store.putObject ⟨tenant, sessionId, objectName kind.value (digest.hexdigest payload)⟩
      ⟨payload, contentType, toString expiresAtMs⟩)

/-- `head_object`; an object that is not there is an exception, which `_resolve` takes for
nothing. -/
def headObject (key : String) : Option S3Body :=
  if store.bucket.objects.contains key then store.bodies.get? key else none

def deleteObject (key : String) : S3MediaStore :=
  ⟨store.bucket.restrict fun key' _ => key' ≠ key, store.bodies.erase key⟩

/-- `_resolve`: the key of a live object. -/
def resolve (ref : EvidenceRef) : Except Failure (Option String) :=
  match Delimited.cut ':' ref.value.toList with
  | none => .error (.valueError "not enough values to unpack (expected 3, got 1)")
  | some (kind, rest) =>
      match Delimited.cut ':' rest with
      | none => .error (.valueError "not enough values to unpack (expected 3, got 2)")
      | some (session, digest) => do
          let sessionId ← SessionId.of (String.ofList session)
          let key := keyStem tenant sessionId ++
            objectName (String.ofList kind) (String.ofList digest)
          match store.headObject key with
          | none => return none
          | some body =>
              let expiresAtMs ← intOf body.expiresAtMs
              return if expiresAtMs ≤ nowMs then none else some key

def «open» (ref : EvidenceRef) : Except Failure (List UInt8) := do
  match ← store.resolve nowMs tenant ref with
  | none => .error (noLiveObject ref)
  | some key =>
      match store.headObject key with
      | none => .error (.foreign "ClientError" "NoSuchKey")
      | some body => return body.payload

def «exists» (ref : EvidenceRef) : Except Failure Bool := do
  return (← store.resolve nowMs tenant ref).isSome

def delete (ref : EvidenceRef) : Except Failure Bool × S3MediaStore :=
  match store.resolve nowMs tenant ref with
  | .error e => (.error e, store)
  | .ok none => (.ok false, store)
  | .ok (some key) =>
      (.ok true, store.deleteObject key)

def deleteForSession (sessionId : SessionId) : Except Failure ℤ × S3MediaStore :=
  let deleted := store.bucket.deleteForSession listing tenant sessionId
  (deleted.1, ⟨deleted.2, store.bodies.filter fun key _ => deleted.2.objects.contains key⟩)

end S3MediaStore

inductive MediaCall
  | put (tenant : TenantId) (sessionId : SessionId) (kind : MediaKind) (contentType : String)
      (payload : List UInt8) (expiresAtMs : ℤ)
  | open (tenant : TenantId) (ref : EvidenceRef)
  | exists (tenant : TenantId) (ref : EvidenceRef)
  | delete (tenant : TenantId) (ref : EvidenceRef)
  | deleteForSession (tenant : TenantId) (sessionId : SessionId)

inductive MediaAnswer
  | stored (object : StoredMedia)
  | bytes (payload : List UInt8)
  | found (isFound : Bool)
  | removed (wasThere : Bool)
  | counted (count : ℤ)

structure TimedCall where
  nowMs : ℤ
  call : MediaCall

namespace InMemoryMediaStore

def serve (digest : MediaDigest) (store : InMemoryMediaStore) (c : TimedCall) :
    Except Failure MediaAnswer × InMemoryMediaStore :=
  match c.call with
  | .put tenant sessionId kind contentType payload expiresAtMs =>
      let outcome := put digest store tenant sessionId kind contentType payload expiresAtMs
      (.ok (.stored outcome.1), outcome.2)
  | .open tenant ref =>
      let outcome := store.open c.nowMs tenant ref
      (outcome.1.map .bytes, outcome.2)
  | .exists tenant ref =>
      let outcome := store.exists c.nowMs tenant ref
      (.ok (.found outcome.1), outcome.2)
  | .delete tenant ref =>
      let outcome := store.delete tenant ref
      (.ok (.removed outcome.1), outcome.2)
  | .deleteForSession tenant sessionId =>
      let outcome := store.deleteForSession tenant sessionId
      (.ok (.counted outcome.1), outcome.2)

def next (digest : MediaDigest) (store : InMemoryMediaStore) (c : TimedCall) :
    InMemoryMediaStore := (store.serve digest c).2

/-- The store after some calls. -/
def after (digest : MediaDigest) (store : InMemoryMediaStore) (calls : List TimedCall) :
    InMemoryMediaStore := calls.foldl (next digest) store

end InMemoryMediaStore

namespace S3MediaStore

def serve (digest : MediaDigest) (listing : S3Listing) (store : S3MediaStore) (c : TimedCall) :
    Except Failure MediaAnswer × S3MediaStore :=
  match c.call with
  | .put tenant sessionId kind contentType payload expiresAtMs =>
      let outcome := put digest store tenant sessionId kind contentType payload expiresAtMs
      (.ok (.stored outcome.1), outcome.2)
  | .open tenant ref => ((store.open c.nowMs tenant ref).map .bytes, store)
  | .exists tenant ref => ((store.exists c.nowMs tenant ref).map .found, store)
  | .delete tenant ref =>
      let outcome := store.delete c.nowMs tenant ref
      (outcome.1.map .removed, outcome.2)
  | .deleteForSession tenant sessionId =>
      let outcome := store.deleteForSession listing tenant sessionId
      (outcome.1.map .counted, outcome.2)

def next (digest : MediaDigest) (listing : S3Listing) (store : S3MediaStore) (c : TimedCall) :
    S3MediaStore := (store.serve digest listing c).2

def after (digest : MediaDigest) (listing : S3Listing) (store : S3MediaStore)
    (calls : List TimedCall) : S3MediaStore := calls.foldl (next digest listing) store

end S3MediaStore

end OratoriaEngine
