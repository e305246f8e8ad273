import OratoriaEngine.StreamTokens

/-!
# What a presented token is answered with

Verification returns a grant or nothing for most of the texts that can be presented. It raises
where the part after the last point is not ASCII, and where a payload of the service's own names
all four parties and lists its scopes as a value that has no elements.
-/

namespace OratoriaEngine.StreamToken

variable (lib : Library) (minter : HmacStreamTokenMinter)

/-- The JSON reader refuses with a value error, as it says. -/
def Library.Documented (lib : Library) : Prop :=
  ∀ raw f, lib.loads raw = .error f → undecodable f = true

def Readable (claims : List (String × Json)) (key : String) : Prop :=
  ∃ v, claims.lookup key = some v ∧ isBlank (v.text lib.toTexts) = false

def Iterable : Json → Prop
  | .str _ | .arr _ | .obj _ => True
  | .null | .bool _ | .int _ | .float _ => False

/-- If all four parties are named, the scopes can be gone through. -/
def Listed (claims : List (String × Json)) : Prop :=
  Readable lib claims "sid" → Readable lib claims "tid" → Readable lib claims "aid" →
    Readable lib claims "kid" → Iterable ((claims.lookup "scp").getD (.arr []))

/-- The part after the last point is ASCII, and a payload with the right tag that has not expired
lists its scopes. -/
structure Answerable (token : String) (nowMs : ℤ) : Prop where
  ascii : ∀ payload signature, rsplit '.' token.toList = some (payload, signature) →
    Base64.isAscii signature = true
  listed : ∀ payload, token = payload ++ "." ++ sign lib minter payload →
    ∀ claims expiresAtMs, decode lib payload = .ok claims →
      (claims.lookup "exp").bind Json.asInt? = some expiresAtMs → nowMs < expiresAtMs →
        Listed lib claims

variable {lib} {minter}

theorem orNone_isOk_iff {α : Type} {expected : Failure → Bool} {x : Except Failure α} :
    (∃ a, orNone expected x = .ok a) ↔ x.Meets (fun _ => True) fun f => expected f = true := by
  cases x with
  | ok a => exact iff_of_true ⟨_, rfl⟩ trivial
  | error f => cases h : expected f <;> simp [orNone, h, Except.Meets]

section Members

variable {claims : List (String × Json)}

theorem malformed_of_identifier {α : Type} {mk : Identifier → α} {key typeName : String}
    {f : Failure}
    (h : mk <$> (required lib claims key >>= Identifier.of typeName) = .error f) :
    malformed f = true := by
  unfold required at h
  cases hv : claims.lookup key with
  | none =>
      rw [hv] at h
      cases h
      rfl
  | some v =>
      rw [hv] at h
      change mk <$> Identifier.of typeName (v.text lib.toTexts) = _ at h
      unfold Identifier.of at h
      split_ifs at h
      · cases h
      · cases h
        rfl

theorem identifier_isOk_iff {α : Type} {mk : Identifier → α} {key typeName : String} :
    (∃ a, mk <$> (required lib claims key >>= Identifier.of typeName) = .ok a) ↔
      Readable lib claims key := by
  rw [Except.map_isOk_iff]
  constructor
  · rintro ⟨i, hi⟩
    obtain ⟨v, hv, htext⟩ := identifier_eq_ok_iff.1 hi
    exact ⟨v, hv, by rw [htext]; exact i.visible⟩
  · rintro ⟨v, hv, hvisible⟩
    exact ⟨⟨_, hvisible⟩, identifier_eq_ok_iff.2 ⟨v, hv, rfl⟩⟩

theorem meets_identifier_iff {α : Type} {mk : Identifier → α} {key typeName : String} {p : Prop} :
    (mk <$> (required lib claims key >>= Identifier.of typeName)).Meets (fun _ => p)
        (fun f => malformed f = true) ↔ (Readable lib claims key → p) := by
  have hread : (∃ a, mk <$> (required lib claims key >>= Identifier.of typeName) = .ok a) ↔
      Readable lib claims key := identifier_isOk_iff
  rw [Except.meets_iff_of_failed fun f => malformed_of_identifier, ← hread, forall_exists_index]

theorem malformed_of_scopes {values : List Json} {f : Failure}
    (h : values.mapM (scopeOf lib) = .error f) : malformed f = true := by
  obtain ⟨v, -, hv⟩ := Except.error_of_mapM h
  unfold scopeOf at hv
  split at hv
  · split at hv
    · cases hv
    · cases hv
      rfl
  · cases hv
    rfl

theorem meets_iterated_iff (v : Json) {post : List Json → Prop} (hpost : ∀ values, post values) :
    (iterated v).Meets post (fun f => malformed f = true) ↔ Iterable v := by
  cases v with
  | str | arr | obj => exact iff_of_true (hpost _) trivial
  | null | bool | int | float =>
      simp [iterated, Iterable, Except.Meets, notIterable, malformed, Failure.typeName]

theorem meets_scopes {values : List Json} (f : List Scope → StreamGrant) :
    (values.mapM (scopeOf lib) >>= fun scopes => pure (f scopes)).Meets (fun _ => True)
      fun f => malformed f = true := by
  rw [Except.meets_bind_iff, Except.meets_iff_of_failed fun _ => malformed_of_scopes]
  exact fun _ _ => trivial

/-- Whatever else is wrong with the members is expected; only scopes without elements raise. -/
theorem meets_grantOf_iff {expiresAtMs : ℤ} :
    (grantOf lib claims expiresAtMs).Meets (fun _ => True) (fun f => malformed f = true) ↔
      Listed lib claims := by
  have hscopes : ∀ sessionId tenant application keyId,
      (do
        let values ← iterated ((claims.lookup "scp").getD (.arr []))
        let scopes ← values.mapM (scopeOf lib)
        return (⟨sessionId, tenant, application, keyId, expiresAtMs, scopes.toFinset⟩ :
          StreamGrant)).Meets (fun _ => True) (fun f => malformed f = true) ↔
        Iterable ((claims.lookup "scp").getD (.arr [])) := by
    intro sessionId tenant application keyId
    rw [Except.meets_bind_iff]
    exact meets_iterated_iff _ fun values => meets_scopes _
  rw [grantOf, Listed]
  simp only [Except.meets_bind_iff, hscopes, meets_identifier_iff]

theorem grantAt_isOk_iff {nowMs : ℤ} :
    (∃ granted, grantAt lib claims nowMs = .ok granted) ↔
      ∀ expiresAtMs, (claims.lookup "exp").bind Json.asInt? = some expiresAtMs →
        nowMs < expiresAtMs → Listed lib claims := by
  unfold grantAt
  cases (claims.lookup "exp").bind Json.asInt? with
  | none => simp
  | some expiresAtMs =>
      simp only [Option.some.injEq, forall_eq']
      split_ifs with hexpired
      · exact iff_of_true ⟨_, rfl⟩ fun hlive => absurd hexpired (not_le.2 hlive)
      · rw [orNone_isOk_iff, meets_grantOf_iff]
        simp [not_le.1 hexpired]

end Members

theorem undecodable_of_decode (hlib : lib.Documented) {payload : String} {f : Failure}
    (h : decode lib payload = .error f) : undecodable f = true := by
  unfold decode at h
  split at h
  · cases h
    rfl
  · next raw _ =>
    cases hloads : lib.loads raw with
    | error f' =>
        rw [hloads] at h
        cases h
        exact hlib raw _ hloads
    | ok decoded =>
        rw [hloads] at h
        cases decoded with
        | obj claims => cases h
        | null | bool | int | float | str | arr =>
            cases h
            rfl

theorem redeem_isOk_iff (hlib : lib.Documented) {payload : String} {nowMs : ℤ} :
    (∃ granted, redeem lib payload nowMs = .ok granted) ↔
      ∀ claims expiresAtMs, decode lib payload = .ok claims →
        (claims.lookup "exp").bind Json.asInt? = some expiresAtMs → nowMs < expiresAtMs →
          Listed lib claims := by
  unfold redeem
  cases hdecode : decode lib payload with
  | error f =>
      have hexpected := undecodable_of_decode hlib hdecode
      simp [orNone, hexpected, bind, Except.bind, pure, Except.pure]
  | ok claims =>
      change (∃ granted, grantAt lib claims nowMs = .ok granted) ↔ _
      rw [grantAt_isOk_iff]
      constructor
      · rintro h _ expiresAtMs ⟨⟩
        exact h expiresAtMs
      · exact fun h expiresAtMs => h claims expiresAtMs rfl

theorem eq_of_signed {payload payload' : String}
    (h : payload ++ "." ++ sign lib minter payload =
      payload' ++ "." ++ sign lib minter payload') : payload' = payload := by
  have hsplit := congrArg (fun token : String => rsplit '.' token.toList) h
  simp only [rsplit_signed, Option.some.injEq, Prod.mk.injEq] at hsplit
  exact (String.toList_inj.1 hsplit.1).symm

theorem not_isOk_of_not_ascii {token : String} {payload signature : List Char}
    (hsplit : rsplit '.' token.toList = some (payload, signature))
    (hascii : Base64.isAscii signature = false) (nowMs : ℤ) :
    ¬∃ granted, verify lib minter token nowMs = .ok granted := by
  unfold verify
  simp [hsplit, compareDigest, hascii, bind, Except.bind]

/-- Without the right tag only the comparison of the tags can raise. -/
theorem verify_isOk_iff_of_unsigned {token : String} {nowMs : ℤ}
    (h : ¬∃ payload, token = payload ++ "." ++ sign lib minter payload) :
    (∃ granted, verify lib minter token nowMs = .ok granted) ↔
      ∀ payload signature, rsplit '.' token.toList = some (payload, signature) →
        Base64.isAscii signature = true := by
  cases hsplit : rsplit '.' token.toList with
  | none => simp [verify, hsplit]
  | some parts =>
      obtain ⟨payload, signature⟩ := parts
      have hne : String.ofList signature ≠ sign lib minter (String.ofList payload) := by
        intro heq
        apply h ⟨String.ofList payload, ?_⟩
        rw [← heq]
        apply String.toList_inj.1
        simpa using eq_append_of_rsplit hsplit
      cases hascii : Base64.isAscii signature with
      | false => exact iff_of_false (not_isOk_of_not_ascii hsplit hascii nowMs) (by simp [hascii])
      | true =>
          simp [verify, hsplit, compareDigest, hascii, isAscii_sign, hne, bind, Except.bind, pure,
            Except.pure]

/-- A token is answered with a grant or nothing exactly if it is answerable. -/
theorem verify_isOk_iff (hlib : lib.Documented) (minter : HmacStreamTokenMinter) (token : String)
    (nowMs : ℤ) :
    (∃ granted, verify lib minter token nowMs = .ok granted) ↔
      Answerable lib minter token nowMs := by
  by_cases hsigned : ∃ payload, token = payload ++ "." ++ sign lib minter payload
  · obtain ⟨payload, rfl⟩ := hsigned
    rw [verify_signed, redeem_isOk_iff hlib]
    constructor
    · intro h
      refine ⟨fun front signature hsplit => ?_, fun payload' htoken => ?_⟩
      · rw [rsplit_signed] at hsplit
        cases hsplit
        exact isAscii_sign payload
      · rw [eq_of_signed htoken]
        exact h
    · exact fun h => h.listed payload rfl
  · rw [verify_isOk_iff_of_unsigned hsigned]
    constructor
    · exact fun h => ⟨h, fun payload htoken => absurd ⟨payload, htoken⟩ hsigned⟩
    · exact fun h => h.ascii

theorem documented_sampleLibrary : sampleLibrary.Documented := by
  intro raw f h
  simp only [sampleLibrary] at h
  split_ifs at h
  cases h
  rfl

theorem answerable_sampleToken : Answerable sampleLibrary sampleMinter sampleToken 999 := by
  rw [← mint_sampleGrant]
  have hverify : verify sampleLibrary sampleMinter (mint sampleLibrary sampleMinter sampleGrant)
      999 = .ok (if 999 < sampleGrant.expiresAtMs then some sampleGrant else none) := by
    rw [mint, verify_signed]
    exact redeem_of_encodes (encodes_mint inverts_sampleGrant) 999
  exact (verify_isOk_iff documented_sampleLibrary sampleMinter _ 999).1 ⟨_, hverify⟩

/-- The library, reading every payload as members whose scopes are a null. -/
def unscopedLibrary : Library :=
  { sampleLibrary with loads := fun _ => .ok (.obj (("scp", .null) :: sampleMembers)) }

theorem not_listed_unscoped : ¬Listed unscopedLibrary (("scp", .null) :: sampleMembers) := by
  intro h
  exact h ⟨_, rfl, by decide⟩ ⟨_, rfl, by decide⟩ ⟨_, rfl, by decide⟩ ⟨_, rfl, by decide⟩

/-- A text that anybody can present raises, and so does a payload of the service's own. -/
theorem not_isOk_nonAscii :
    (sampleLibrary.Documented ∧
      ¬∃ granted, verify sampleLibrary sampleMinter "x.é" 999 = .ok granted) ∧
    unscopedLibrary.Documented ∧ ¬∃ granted, verify unscopedLibrary sampleMinter
      (mint unscopedLibrary sampleMinter sampleGrant) 999 = .ok granted := by
  have hunscoped : unscopedLibrary.Documented := by
    intro raw f h
    cases h
  refine ⟨⟨documented_sampleLibrary, ?_⟩, hunscoped, ?_⟩
  · have hsplit : rsplit '.' "x.é".toList = some (['x'], ['é']) := by decide
    exact not_isOk_of_not_ascii hsplit (by decide) 999
  · rw [mint, verify_signed, redeem_isOk_iff hunscoped]
    intro h
    have hdecode : decode unscopedLibrary (encode unscopedLibrary (claimsOf sampleGrant)) =
        .ok (("scp", .null) :: sampleMembers) := decode_encode_of_loads rfl
    exact not_listed_unscoped (h _ 1000 hdecode rfl (by decide))

end OratoriaEngine.StreamToken
