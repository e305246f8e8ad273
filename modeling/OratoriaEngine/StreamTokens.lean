import OratoriaEngine.Commands
import OratoriaEngine.Conversions
import OratoriaEngine.Lib.Base64
import OratoriaEngine.Lib.Enumeration
import Mathlib.Data.List.Sort
import Mathlib.Data.String.Basic

/-!
# Stream tokens

A grant is signed rather than stored: its fields are written as compact JSON in base64, and a tag
over that payload follows the last point of the token. Whoever holds the key verifies a token
without a lookup, and reads the payload only after the tag.
-/

namespace OratoriaEngine

def Scope.enumeration : Enumeration Scope where
  typeName := "Scope"
  members := [.sessionsWrite, .sessionsRead, .resultsRead, .evidenceDelete, .jobsWrite, .admin]
  value := Scope.value
  stated scope := by cases scope <;> decide +kernel
  told scope := by cases scope <;> decide +kernel

namespace StreamToken

/-- What the minter takes from the language's library: a keyed digest, and the JSON codec on bytes.
Objects are written with sorted keys. -/
structure Library extends Texts where
  mac : (key payload : List UInt8) → List UInt8
  dumps : Dict String Json → List UInt8
  loads : List UInt8 → Except Failure Json

def minSigningKeyLength : ℕ := 32

structure HmacStreamTokenMinter where
  signingKey : String
  long : minSigningKeyLength ≤ signingKey.length

def HmacStreamTokenMinter.of (signingKey : String) : Except Failure HmacStreamTokenMinter :=
  if h : minSigningKeyLength ≤ signingKey.length then .ok ⟨signingKey, h⟩
  else .error (.valueError (s!"the stream-token signing key must be at least " ++
    s!"{minSigningKeyLength} characters; a short key makes the grant forgeable, which defeats " ++
    "the only thing this token does"))

/-- `text.rsplit(separator, 1)` where the separator occurs. -/
def rsplit {α : Type} [DecidableEq α] (separator : α) : List α → Option (List α × List α)
  | [] => none
  | c :: rest =>
      match rsplit separator rest with
      | some (front, last) => some (c :: front, last)
      | none => if c = separator then some ([], rest) else none

/-- `try: … except …: return None`. -/
def orNone {α : Type} (expected : Failure → Bool) : Except Failure α → Except Failure (Option α)
  | .ok a => .ok (some a)
  | .error f => if expected f then .ok none else .error f

def utf8 (text : String) : List UInt8 := text.toUTF8.data.toList

def b64 (raw : List UInt8) : String := String.ofList (Base64.unpadded (Base64.encode raw))

variable (lib : Library) (minter : HmacStreamTokenMinter)

def encode (claims : Dict String Json) : String := b64 (lib.dumps claims)

def decode (payload : String) : Except Failure (List (String × Json)) :=
  match Base64.decode (Base64.repadded payload.toList) with
  | none => .error (.valueError (lib.refusal "urlsafe_b64decode" payload))
  | some raw => do
      let decoded ← lib.loads raw
      match decoded with
      | .obj claims => return claims
      | _ => .error (.valueError "token payload is not an object")

def sign (payload : String) : String := b64 (lib.mac (utf8 minter.signingKey) (utf8 payload))

def sortedValues (scopes : Finset Scope) : List String :=
  ((Scope.enumeration.members.filter (· ∈ scopes)).map Scope.value).insertionSort (· ≤ ·)

def claimsOf (grant : StreamGrant) : Dict String Json :=
  Dict.empty.setAll [
    ("sid", .str grant.sessionId.value),
    ("tid", .str grant.tenant.value),
    ("aid", .str grant.application.value),
    ("kid", .str grant.keyId.value),
    ("exp", .int grant.expiresAtMs),
    ("scp", .arr ((sortedValues grant.scopes).map .str))]

def mint (grant : StreamGrant) : String :=
  let payload := encode lib (claimsOf grant)
  payload ++ "." ++ sign lib minter payload

/-- `str(claims[key])`. -/
def required (claims : List (String × Json)) (key : String) : Except Failure String :=
  match claims.lookup key with
  | some v => .ok (v.text lib.toTexts)
  | none => .error (.foreign "KeyError" s!"'{key}'")

def notIterable (typeName : String) : Failure :=
  .foreign "TypeError" s!"'{typeName}' object is not iterable"

/-- What iterating over a value yields: the characters of a text and the keys of an object. -/
def iterated : Json → Except Failure (List Json)
  | .null => .error (notIterable "NoneType")
  | .bool _ => .error (notIterable "bool")
  | .int _ => .error (notIterable "int")
  | .float _ => .error (notIterable "float")
  | .str s => .ok (s.toList.map fun c => .str (String.singleton c))
  | .arr items => .ok items
  | .obj entries => .ok (entries.map fun e => .str e.1)

def scopeOf (v : Json) : Except Failure Scope :=
  let refused := .error (.valueError s!"{lib.repr v} is not a valid Scope")
  match v with
  | .str s =>
      match Scope.enumeration.read? s with
      | some scope => .ok scope
      | none => refused
  | _ => refused

def grantOf (claims : List (String × Json)) (expiresAtMs : ℤ) : Except Failure StreamGrant := do
  let sessionId ← SessionId.mk <$> (required lib claims "sid" >>= Identifier.of "SessionId")
  let tenant ← TenantId.mk <$> (required lib claims "tid" >>= Identifier.of "TenantId")
  let application ←
    ApplicationId.mk <$> (required lib claims "aid" >>= Identifier.of "ApplicationId")
  let keyId ← ApiKeyId.mk <$> (required lib claims "kid" >>= Identifier.of "ApiKeyId")
  let values ← iterated ((claims.lookup "scp").getD (.arr []))
  let scopes ← values.mapM (scopeOf lib)
  return ⟨sessionId, tenant, application, keyId, expiresAtMs, scopes.toFinset⟩

def undecodable : Failure → Bool
  | .valueError _ => true
  | _ => false

def malformed : Failure → Bool
  | .valueError _ | .invalidIdentifier _ => true
  | f => f.typeName = "KeyError"

/-- Comparing texts in constant time takes ASCII only. -/
def compareDigest (signature expected : String) : Except Failure Bool :=
  if Base64.isAscii signature.toList && Base64.isAscii expected.toList then
    .ok (signature = expected)
  else .error (.foreign "TypeError"
    "comparing strings with non-ASCII characters is not supported")

def grantAt (claims : List (String × Json)) (nowMs : ℤ) : Except Failure (Option StreamGrant) :=
  match (claims.lookup "exp").bind Json.asInt? with
  | none => .ok none
  | some expiresAtMs =>
      if expiresAtMs ≤ nowMs then .ok none else orNone malformed (grantOf lib claims expiresAtMs)

def redeem (payload : String) (nowMs : ℤ) : Except Failure (Option StreamGrant) := do
  match ← orNone undecodable (decode lib payload) with
  | none => return none
  | some claims => grantAt lib claims nowMs

def verify (token : String) (nowMs : ℤ) : Except Failure (Option StreamGrant) :=
  match rsplit '.' token.toList with
  | none => .ok none
  | some (payload, signature) => do
      let payload := String.ofList payload
      if ← compareDigest (String.ofList signature) (sign lib minter payload) then
        redeem lib payload nowMs
      else return none

section

variable {α : Type} [DecidableEq α] {separator : α}

theorem rsplit_eq_none {l : List α} (h : separator ∉ l) : rsplit separator l = none := by
  induction l with
  | nil => rfl
  | cons c rest ih =>
      rw [List.mem_cons, not_or] at h
      simp [rsplit, ih h.2, Ne.symm h.1]

theorem rsplit_append (front : List α) {last : List α} (h : separator ∉ last) :
    rsplit separator (front ++ separator :: last) = some (front, last) := by
  induction front with
  | nil => simp [rsplit, rsplit_eq_none h]
  | cons c front ih => simp [rsplit, ih]

theorem eq_append_of_rsplit {l front last : List α}
    (h : rsplit separator l = some (front, last)) : l = front ++ separator :: last := by
  induction l generalizing front with
  | nil => cases h
  | cons c rest ih =>
      rw [rsplit] at h
      cases hrest : rsplit separator rest with
      | some parts =>
          rw [hrest] at h
          cases h
          rw [ih hrest, List.cons_append]
      | none =>
          rw [hrest] at h
          by_cases hc : c = separator
          · rw [if_pos hc] at h
            cases h
            rw [hc, List.nil_append]
          · rw [if_neg hc] at h
            cases h

end

variable {lib : Library} {minter : HmacStreamTokenMinter}

/-- The members name the grant's fields, and the scopes are exactly the values listed. -/
structure Describes (lib : Library) (claims : List (String × Json)) (g : StreamGrant) : Prop where
  sessionId : ∃ v, claims.lookup "sid" = some v ∧ v.text lib.toTexts = g.sessionId.value
  tenant : ∃ v, claims.lookup "tid" = some v ∧ v.text lib.toTexts = g.tenant.value
  application : ∃ v, claims.lookup "aid" = some v ∧ v.text lib.toTexts = g.application.value
  keyId : ∃ v, claims.lookup "kid" = some v ∧ v.text lib.toTexts = g.keyId.value
  expiresAtMs : ∃ v, claims.lookup "exp" = some v ∧ v.asInt? = some g.expiresAtMs
  scopes : ∃ values, iterated ((claims.lookup "scp").getD (.arr [])) = .ok values ∧
    ∀ v, v ∈ values ↔ ∃ scope ∈ g.scopes, v = .str scope.value

/-- The grant is the one that is encoded in the payload. -/
def Encodes (lib : Library) (payload : String) (g : StreamGrant) : Prop :=
  ∃ claims, decode lib payload = .ok claims ∧ Describes lib claims g

theorem required_eq_ok_iff {claims : List (String × Json)} {key text : String} :
    required lib claims key = .ok text ↔
      ∃ v, claims.lookup key = some v ∧ v.text lib.toTexts = text := by
  unfold required
  cases claims.lookup key with
  | none => simp
  | some v => simp

theorem identifier_of_eq_ok_iff {typeName text : String} {i : Identifier} :
    Identifier.of typeName text = .ok i ↔ text = i.value := by
  constructor
  · intro h
    unfold Identifier.of at h
    split_ifs at h
    cases h
    rfl
  · rintro rfl
    exact Identifier.of_value typeName i

theorem scopeOf_eq_ok_iff {v : Json} {scope : Scope} :
    scopeOf lib v = .ok scope ↔ v = .str scope.value := by
  cases v with
  | str s =>
      have hread : Scope.enumeration.read? s = some scope ↔ s = scope.value :=
        Enumeration.read?_eq_some_iff _
      cases h : Scope.enumeration.read? s with
      | none =>
          rw [h] at hread
          simpa [scopeOf, h] using hread
      | some scope' =>
          rw [h] at hread
          simpa [scopeOf, h] using hread
  | null | bool | int | float | arr | obj => simp [scopeOf]

theorem mapM_scopeOf_eq_ok_iff {values : List Json} {scopes : List Scope} :
    values.mapM (scopeOf lib) = .ok scopes ↔ values = scopes.map fun s => .str s.value := by
  constructor
  · intro h
    apply Except.eq_map_of_forall₂
    exact (Except.mapM_eq_ok h).flip.imp fun _ _ hv => scopeOf_eq_ok_iff.1 hv
  · rintro rfl
    have hread : (scopes.map fun s => Json.str s.value).mapM (scopeOf lib) =
        .ok (scopes.map fun s => s) := Except.mapM_map fun _ _ => scopeOf_eq_ok_iff.2 rfl
    rwa [List.map_id'] at hread

theorem exists_scopes_iff {values : List Json} {set : Finset Scope} :
    (∃ scopes, values.mapM (scopeOf lib) = .ok scopes ∧ scopes.toFinset = set) ↔
      ∀ v, v ∈ values ↔ ∃ scope ∈ set, v = .str scope.value := by
  constructor
  · rintro ⟨scopes, hscopes, rfl⟩ v
    rw [mapM_scopeOf_eq_ok_iff.1 hscopes]
    simp [eq_comm]
  · intro h
    have hisOk : ∃ scopes, values.mapM (scopeOf lib) = .ok scopes := by
      apply Except.mapM_isOk
      intro v hv
      obtain ⟨scope, -, hscope⟩ := (h v).1 hv
      exact ⟨scope, scopeOf_eq_ok_iff.2 hscope⟩
    obtain ⟨scopes, hscopes⟩ := hisOk
    refine ⟨scopes, hscopes, ?_⟩
    ext scope
    have hscope := h (.str scope.value)
    rw [mapM_scopeOf_eq_ok_iff.1 hscopes] at hscope
    have hinj : ∀ s t : Scope, s.value = t.value ↔ s = t := fun s t =>
      Scope.enumeration.value_injective.eq_iff
    simpa [hinj] using hscope

theorem identifier_eq_ok_iff {claims : List (String × Json)} {key typeName : String}
    {i : Identifier} : required lib claims key >>= Identifier.of typeName = .ok i ↔
      ∃ v, claims.lookup key = some v ∧ v.text lib.toTexts = i.value := by
  rw [Except.bind_eq_ok]
  constructor
  · rintro ⟨text, htext, hi⟩
    rw [← identifier_of_eq_ok_iff.1 hi]
    exact required_eq_ok_iff.1 htext
  · intro h
    exact ⟨i.value, required_eq_ok_iff.2 h, Identifier.of_value typeName i⟩

theorem describes_iff {claims : List (String × Json)} {g : StreamGrant} :
    Describes lib claims g ↔
      ∃ expiresAtMs, (claims.lookup "exp").bind Json.asInt? = some expiresAtMs ∧
        grantOf lib claims expiresAtMs = .ok g := by
  unfold grantOf
  constructor
  · rintro ⟨hsession, htenant, happlication, hkey, ⟨v, hv, hexp⟩, values, hvalues, hscopes⟩
    obtain ⟨scopes, hread, hset⟩ := exists_scopes_iff.2 hscopes
    refine ⟨g.expiresAtMs, by rw [hv, Option.bind_some, hexp], ?_⟩
    rw [identifier_eq_ok_iff.2 hsession, identifier_eq_ok_iff.2 htenant,
      identifier_eq_ok_iff.2 happlication, identifier_eq_ok_iff.2 hkey, hvalues]
    change values.mapM (scopeOf lib) >>= _ = _
    rw [hread]
    exact congrArg (fun set => Except.ok { g with scopes := set }) hset
  · rintro ⟨expiresAtMs, hexp, h⟩
    obtain ⟨sessionId, hsession, h⟩ := Except.bind_eq_ok.1 h
    obtain ⟨tenant, htenant, h⟩ := Except.bind_eq_ok.1 h
    obtain ⟨application, happlication, h⟩ := Except.bind_eq_ok.1 h
    obtain ⟨keyId, hkey, h⟩ := Except.bind_eq_ok.1 h
    obtain ⟨values, hvalues, h⟩ := Except.bind_eq_ok.1 h
    obtain ⟨scopes, hscopes, h⟩ := Except.bind_eq_ok.1 h
    obtain ⟨v, hv, hint⟩ := Option.bind_eq_some_iff.1 hexp
    obtain ⟨i₁, hread₁, rfl⟩ := Except.map_eq_ok.1 hsession
    obtain ⟨i₂, hread₂, rfl⟩ := Except.map_eq_ok.1 htenant
    obtain ⟨i₃, hread₃, rfl⟩ := Except.map_eq_ok.1 happlication
    obtain ⟨i₄, hread₄, rfl⟩ := Except.map_eq_ok.1 hkey
    have hg := Except.pure_eq_ok.1 h
    rw [← hg]
    exact {
      sessionId := identifier_eq_ok_iff.1 hread₁
      tenant := identifier_eq_ok_iff.1 hread₂
      application := identifier_eq_ok_iff.1 hread₃
      keyId := identifier_eq_ok_iff.1 hread₄
      expiresAtMs := ⟨v, hv, hint⟩
      scopes := ⟨values, hvalues, exists_scopes_iff.1 ⟨scopes, hscopes, rfl⟩⟩ }

theorem Encodes.unique {payload : String} {g g' : StreamGrant} (h : Encodes lib payload g)
    (h' : Encodes lib payload g') : g' = g := by
  obtain ⟨claims, hclaims, hg⟩ := h
  obtain ⟨claims', hclaims', hg'⟩ := h'
  rw [hclaims] at hclaims'
  cases hclaims'
  obtain ⟨expiresAtMs, hexp, hg⟩ := describes_iff.1 hg
  obtain ⟨expiresAtMs', hexp', hg'⟩ := describes_iff.1 hg'
  rw [hexp] at hexp'
  cases hexp'
  rw [hg] at hg'
  exact (Except.ok.inj hg').symm

theorem orNone_eq_some_iff {α : Type} {expected : Failure → Bool} {x : Except Failure α} {a : α} :
    orNone expected x = .ok (some a) ↔ x = .ok a := by
  cases x with
  | ok b => simp [orNone]
  | error f => cases h : expected f <;> simp [orNone, h]

theorem grantAt_of_describes {claims : List (String × Json)} {g : StreamGrant}
    (h : Describes lib claims g) (nowMs : ℤ) :
    grantAt lib claims nowMs = .ok (if nowMs < g.expiresAtMs then some g else none) := by
  obtain ⟨v, hv, hint⟩ := h.expiresAtMs
  obtain ⟨expiresAtMs, hexp, hg⟩ := describes_iff.1 h
  have htime : g.expiresAtMs = expiresAtMs := by
    rw [hv, Option.bind_some, hint] at hexp
    exact Option.some.inj hexp
  have hgrant : orNone malformed (grantOf lib claims expiresAtMs) = .ok (some g) :=
    orNone_eq_some_iff.2 hg
  rw [htime]
  by_cases hlive : nowMs < expiresAtMs
  · simp [grantAt, hexp, hgrant, hlive]
  · simp [grantAt, hexp, hlive, not_lt.1 hlive]

theorem describes_of_grantAt {claims : List (String × Json)} {g : StreamGrant} {nowMs : ℤ}
    (h : grantAt lib claims nowMs = .ok (some g)) :
    Describes lib claims g ∧ nowMs < g.expiresAtMs := by
  have hdescribes : Describes lib claims g := by
    unfold grantAt at h
    split at h
    · cases h
    · next expiresAtMs hexp =>
      split_ifs at h
      · cases h
      · exact describes_iff.2 ⟨expiresAtMs, hexp, orNone_eq_some_iff.1 h⟩
  refine ⟨hdescribes, ?_⟩
  by_contra hlive
  rw [grantAt_of_describes hdescribes, if_neg hlive] at h
  cases h

theorem redeem_of_encodes {payload : String} {g : StreamGrant} (h : Encodes lib payload g)
    (nowMs : ℤ) :
    redeem lib payload nowMs = .ok (if nowMs < g.expiresAtMs then some g else none) := by
  obtain ⟨claims, hclaims, hg⟩ := h
  unfold redeem
  rw [hclaims]
  exact grantAt_of_describes hg nowMs

theorem encodes_of_redeem {payload : String} {nowMs : ℤ} {g : StreamGrant}
    (h : redeem lib payload nowMs = .ok (some g)) :
    Encodes lib payload g ∧ nowMs < g.expiresAtMs := by
  obtain ⟨found, hfound, h⟩ := Except.bind_eq_ok.1 h
  cases found with
  | none => cases h
  | some claims =>
      obtain ⟨hg, hlive⟩ := describes_of_grantAt h
      exact ⟨⟨claims, orNone_eq_some_iff.1 hfound, hg⟩, hlive⟩

theorem sign_toList (payload : String) {c : Char} (h : c ∈ (sign lib minter payload).toList) :
    c ∈ Base64.symbols := by
  rw [sign, b64, String.toList_ofList] at h
  exact Base64.mem_symbols_of_mem_unpadded h

theorem rsplit_signed (payload : String) :
    rsplit '.' (payload ++ "." ++ sign lib minter payload).toList =
      some (payload.toList, (sign lib minter payload).toList) := by
  have hpoint : '.' ∉ Base64.symbols := by decide
  rw [String.toList_append, String.toList_append, List.append_assoc]
  exact rsplit_append _ fun h => hpoint (sign_toList payload h)

theorem isAscii_sign (payload : String) :
    Base64.isAscii (sign lib minter payload).toList = true := by
  apply List.all_eq_true.2
  intro c hc
  exact decide_eq_true (Base64.toNat_lt_of_mem (sign_toList payload hc))

theorem compareDigest_self {text : String} (h : Base64.isAscii text.toList = true) :
    compareDigest text text = .ok true := by
  simp [compareDigest, h]

theorem eq_of_compareDigest {signature expected : String}
    (h : compareDigest signature expected = .ok true) : signature = expected := by
  unfold compareDigest at h
  split_ifs at h
  exact of_decide_eq_true (Except.ok.inj h)

theorem verify_signed (payload : String) (nowMs : ℤ) :
    verify lib minter (payload ++ "." ++ sign lib minter payload) nowMs =
      redeem lib payload nowMs := by
  unfold verify
  rw [rsplit_signed]
  simp only [String.ofList_toList, compareDigest_self (isAscii_sign payload)]
  rfl

theorem signed_of_verify {token : String} {nowMs : ℤ} {g : StreamGrant}
    (h : verify lib minter token nowMs = .ok (some g)) :
    ∃ payload, token = payload ++ "." ++ sign lib minter payload ∧
      redeem lib payload nowMs = .ok (some g) := by
  unfold verify at h
  split at h
  · cases h
  · next payload signature hsplit =>
    obtain ⟨equal, hequal, h⟩ := Except.bind_eq_ok.1 h
    cases equal with
    | false => cases h
    | true =>
        refine ⟨String.ofList payload, ?_, h⟩
        rw [← eq_of_compareDigest hequal]
        apply String.toList_inj.1
        simpa using eq_append_of_rsplit hsplit

/-- Reading what was written of an object gives an object of the same members. -/
def Library.Inverts (lib : Library) (claims : Dict String Json) : Prop :=
  ∃ entries, lib.loads (lib.dumps claims) = .ok (.obj entries) ∧
    ∀ key, entries.lookup key = claims.get? key

theorem decode_encode_of_loads {claims : Dict String Json} {entries : List (String × Json)}
    (h : lib.loads (lib.dumps claims) = .ok (.obj entries)) :
    decode lib (encode lib claims) = .ok entries := by
  unfold decode encode b64
  rw [String.toList_ofList, Base64.repadded_unpadded_encode, Base64.decode_encode]
  simp only [h]
  rfl

theorem decode_encode {claims : Dict String Json} (h : lib.Inverts claims) :
    ∃ entries, decode lib (encode lib claims) = .ok entries ∧
      ∀ key, entries.lookup key = claims.get? key := by
  obtain ⟨entries, hloads, hlookup⟩ := h
  exact ⟨entries, decode_encode_of_loads hloads, hlookup⟩

theorem mem_sortedValues_iff {scopes : Finset Scope} {text : String} :
    text ∈ sortedValues scopes ↔ ∃ scope ∈ scopes, scope.value = text := by
  simp [sortedValues, Scope.enumeration.mem_members]

theorem describes_claimsOf {g : StreamGrant} {entries : List (String × Json)}
    (h : ∀ key, entries.lookup key = (claimsOf g).get? key) : Describes lib entries g where
  sessionId := ⟨_, h "sid", rfl⟩
  tenant := ⟨_, h "tid", rfl⟩
  application := ⟨_, h "aid", rfl⟩
  keyId := ⟨_, h "kid", rfl⟩
  expiresAtMs := ⟨_, h "exp", rfl⟩
  scopes := by
    refine ⟨(sortedValues g.scopes).map .str, by rw [h]; rfl, fun v => ?_⟩
    simp [mem_sortedValues_iff, eq_comm]

theorem encodes_mint {g : StreamGrant} (h : lib.Inverts (claimsOf g)) :
    Encodes lib (encode lib (claimsOf g)) g := by
  obtain ⟨entries, hdecode, hlookup⟩ := decode_encode h
  exact ⟨entries, hdecode, describes_claimsOf hlookup⟩

/-- A minted token is verified as its grant until that expires; and whatever token is verified
carries the tag of its payload, which encodes the grant, no other, and has not expired. -/
theorem verify_mint_and_authentic (lib : Library) (minter : HmacStreamTokenMinter) :
    (∀ g nowMs, lib.Inverts (claimsOf g) →
      verify lib minter (mint lib minter g) nowMs =
        .ok (if nowMs < g.expiresAtMs then some g else none)) ∧
    ∀ token nowMs g, verify lib minter token nowMs = .ok (some g) →
      ∃ payload, token = payload ++ "." ++ sign lib minter payload ∧
        (∀ g', Encodes lib payload g' ↔ g' = g) ∧ nowMs < g.expiresAtMs := by
  constructor
  · intro g nowMs hinverts
    unfold mint
    rw [verify_signed]
    exact redeem_of_encodes (encodes_mint hinverts) nowMs
  · intro token nowMs g h
    obtain ⟨payload, htoken, hredeem⟩ := signed_of_verify h
    obtain ⟨hencodes, hlive⟩ := encodes_of_redeem hredeem
    refine ⟨payload, htoken, fun g' => ⟨hencodes.unique, ?_⟩, hlive⟩
    rintro rfl
    exact hencodes

def sampleMinter : HmacStreamTokenMinter :=
  ⟨"0123456789abcdef0123456789abcdef", by decide +kernel⟩

def sampleGrant : StreamGrant where
  sessionId := studySessionId
  tenant := studyTenant
  application := studyApplication
  keyId := operator.keyId
  expiresAtMs := 1000
  scopes := streamScopes

def sampleText : String :=
  "\x7b\"aid\":\"app-1\",\"exp\":1000,\"kid\":\"key-1\"," ++
    "\"scp\":[\"sessions:read\",\"sessions:write\"],\"sid\":\"session-1\",\"tid\":\"tenant-1\"\x7d"

def sampleMembers : List (String × Json) :=
  [("aid", .str "app-1"), ("exp", .int 1000), ("kid", .str "key-1"),
    ("scp", .arr [.str "sessions:read", .str "sessions:write"]), ("sid", .str "session-1"),
    ("tid", .str "tenant-1")]

def sampleLibrary : Library where
  repr _ := ""
  refusal _ _ := ""
  mac _ _ := [18, 71, 253, 244, 185, 201, 113, 184, 125, 231, 167, 155, 171, 116, 29, 37, 181, 180,
    59, 128, 46, 46, 0, 85, 137, 92, 84, 228, 198, 170, 32, 82]
  dumps _ := utf8 sampleText
  loads raw :=
    if raw = utf8 sampleText then .ok (.obj sampleMembers)
    else .error (.valueError "Expecting value: line 1 column 1 (char 0)")

def sampleToken : String :=
  "eyJhaWQiOiJhcHAtMSIsImV4cCI6MTAwMCwia2lkIjoia2V5LTEiLCJzY3AiOlsic2Vzc2lvbnM6cmVhZCIsInNl" ++
    "c3Npb25zOndyaXRlIl0sInNpZCI6InNlc3Npb24tMSIsInRpZCI6InRlbmFudC0xIn0" ++
    ".Ekf99LnJcbh956ebq3QdJbW0O4AuLgBViVxU5MaqIFI"

theorem mint_sampleGrant : mint sampleLibrary sampleMinter sampleGrant = sampleToken := by
  decide +kernel

theorem inverts_sampleGrant : sampleLibrary.Inverts (claimsOf sampleGrant) := by
  refine ⟨sampleMembers, by simp [sampleLibrary], fun key => ?_⟩
  apply Option.ext
  intro v
  have hnodup : (sampleMembers.map Prod.fst).Nodup := by decide
  rw [Dict.lookup_eq_some_iff_mem hnodup, Dict.get?_eq_some_iff_mem]
  have hentries : (claimsOf sampleGrant).entries =
      [("sid", .str "session-1"), ("tid", .str "tenant-1"), ("aid", .str "app-1"),
        ("kid", .str "key-1"), ("exp", .int 1000),
        ("scp", .arr [.str "sessions:read", .str "sessions:write"])] := rfl
  rw [hentries]
  simp only [sampleMembers, List.mem_cons, List.not_mem_nil, or_false]
  tauto

theorem verify_sampleToken :
    verify sampleLibrary sampleMinter sampleToken 999 = .ok (some sampleGrant) ∧
    verify sampleLibrary sampleMinter sampleToken 1000 = .ok none ∧
    ∃ payload, sampleToken = payload ++ "." ++ sign sampleLibrary sampleMinter payload ∧
      (∀ g', Encodes sampleLibrary payload g' ↔ g' = sampleGrant) ∧
        999 < sampleGrant.expiresAtMs := by
  obtain ⟨hroundTrip, hauthentic⟩ := verify_mint_and_authentic sampleLibrary sampleMinter
  have hlive := hroundTrip sampleGrant 999 inverts_sampleGrant
  have hexpired := hroundTrip sampleGrant 1000 inverts_sampleGrant
  rw [mint_sampleGrant] at hlive hexpired
  exact ⟨hlive, hexpired, hauthentic sampleToken 999 sampleGrant hlive⟩

end StreamToken

end OratoriaEngine
