import OratoriaEngine.Lib.Runs
import OratoriaEngine.MediaStores

/-!
# What both media stores show

Where the names of tenants and sessions keep clear of the separators, a key on S3 and a reference
in memory tell the same objects apart. From any moment on both stores then show the same bytes
under every reference, although the one removes what has expired and the other does not.
-/

namespace OratoriaEngine

def TenantId.Plain (tenant : TenantId) : Prop := '/' ∉ tenant.value.toList

def SessionId.Plain (sessionId : SessionId) : Prop :=
  '/' ∉ sessionId.value.toList ∧ ':' ∉ sessionId.value.toList

section Names

variable (digest : MediaDigest) (tenant : TenantId) (sessionId : SessionId) (kind : MediaKind)
  (payload : List UInt8)

def mediaKey : String :=
  keyStem tenant sessionId ++ S3MediaStore.objectName kind.value (digest.hexdigest payload)

theorem toList_mediaRef :
    (mediaRef digest kind sessionId payload).value.toList =
      kind.value.toList ++ ':' ::
        (sessionId.value.toList ++ ':' :: (digest.hexdigest payload).toList) := by
  simp only [mediaRef, String.toList_append, List.append_assoc]
  rfl

theorem toList_keyStem_append (name : String) :
    (keyStem tenant sessionId ++ name).toList =
      tenant.value.toList ++ '/' :: (sessionId.value.toList ++ '/' :: name.toList) := by
  simp only [keyStem, String.toList_append, List.append_assoc]
  rfl

theorem toList_objectName (kind digest : String) :
    (S3MediaStore.objectName kind digest).toList = kind.toList ++ '-' :: digest.toList := by
  simp only [S3MediaStore.objectName, String.toList_append, List.append_assoc]
  rfl

theorem colon_not_mem_kind : ':' ∉ kind.value.toList := by cases kind <;> decide

theorem hyphen_not_mem_kind : '-' ∉ kind.value.toList := by cases kind <;> decide

theorem MediaKind.value_injective : Function.Injective MediaKind.value := by
  intro kind kind' h
  cases kind <;> cases kind' <;> first | rfl | exact absurd h (by decide)

variable {digest tenant sessionId kind payload} {tenant' : TenantId} {sessionId' : SessionId}
  {kind' : MediaKind} {payload' : List UInt8}

theorem mediaRef_value_inj (h : sessionId.Plain) (h' : sessionId'.Plain) :
    (mediaRef digest kind sessionId payload).value =
        (mediaRef digest kind' sessionId' payload').value ↔
      kind = kind' ∧ sessionId = sessionId' ∧
        digest.hexdigest payload = digest.hexdigest payload' := by
  rw [← String.toList_inj, toList_mediaRef, toList_mediaRef,
    Delimited.append_cons_inj_of_not_mem_left (colon_not_mem_kind _) (colon_not_mem_kind _),
    Delimited.append_cons_inj_of_not_mem_left h.2 h'.2, String.toList_inj, String.toList_inj,
    String.toList_inj, MediaKind.value_injective.eq_iff]
  exact and_congr_right fun _ => and_congr_left fun _ =>
    ⟨SessionId.ext_value, congrArg fun id : SessionId => id.value⟩

theorem mediaKey_inj (ht : tenant.Plain) (ht' : tenant'.Plain) (h : sessionId.Plain)
    (h' : sessionId'.Plain) :
    mediaKey digest tenant sessionId kind payload =
        mediaKey digest tenant' sessionId' kind' payload' ↔
      tenant = tenant' ∧ sessionId = sessionId' ∧ kind = kind' ∧
        digest.hexdigest payload = digest.hexdigest payload' := by
  rw [← String.toList_inj, mediaKey, mediaKey, toList_keyStem_append, toList_keyStem_append,
    Delimited.append_cons_inj_of_not_mem_left ht ht',
    Delimited.append_cons_inj_of_not_mem_left h.1 h'.1, toList_objectName, toList_objectName,
    Delimited.append_cons_inj_of_not_mem_left (hyphen_not_mem_kind _) (hyphen_not_mem_kind _),
    String.toList_inj, String.toList_inj, String.toList_inj, String.toList_inj,
    MediaKind.value_injective.eq_iff]
  exact and_congr ⟨TenantId.ext_value, congrArg fun id : TenantId => id.value⟩
    (and_congr_left fun _ => ⟨SessionId.ext_value, congrArg fun id : SessionId => id.value⟩)

theorem mediaKey_eq_iff (ht : tenant.Plain) (ht' : tenant'.Plain) (h : sessionId.Plain)
    (h' : sessionId'.Plain) :
    mediaKey digest tenant sessionId kind payload =
        mediaKey digest tenant' sessionId' kind' payload' ↔
      (tenant.value, (mediaRef digest kind sessionId payload).value) =
        (tenant'.value, (mediaRef digest kind' sessionId' payload').value) := by
  rw [mediaKey_inj ht ht' h h', Prod.mk.injEq, mediaRef_value_inj h h']
  constructor
  · rintro ⟨rfl, rfl, rfl, hdigest⟩
    exact ⟨rfl, rfl, rfl, hdigest⟩
  · rintro ⟨htenant, rfl, rfl, hdigest⟩
    exact ⟨TenantId.ext_value htenant, rfl, rfl, hdigest⟩

theorem isUnder_mediaKey_iff (ht : tenant.Plain) (ht' : tenant'.Plain) (h : sessionId.Plain)
    (h' : sessionId'.Plain) (object : S3Object) :
    S3Bucket.isUnder tenant sessionId (mediaKey digest tenant' sessionId' kind' payload')
        object = true ↔ tenant' = tenant ∧ sessionId' = sessionId := by
  have hstem : (keyStem tenant sessionId).toList =
      tenant.value.toList ++ '/' :: (sessionId.value.toList ++ ['/']) := by
    simp only [keyStem, String.toList_append, List.append_assoc]
    rfl
  rw [S3Bucket.isUnder, startsWith, decide_eq_true_eq, hstem, mediaKey, toList_keyStem_append]
  constructor
  · rintro ⟨rest, hrest⟩
    simp only [List.append_assoc, List.cons_append, List.nil_append] at hrest
    rw [Delimited.append_cons_inj_of_not_mem_left ht ht',
      Delimited.append_cons_inj_of_not_mem_left h.1 h'.1, String.toList_inj,
      String.toList_inj] at hrest
    exact ⟨TenantId.ext_value hrest.1.symm, SessionId.ext_value hrest.2.1.symm⟩
  · rintro ⟨rfl, rfl⟩
    exact ⟨(S3MediaStore.objectName kind'.value (digest.hexdigest payload')).toList,
      by simp only [List.append_assoc, List.cons_append, List.nil_append]⟩

end Names

theorem strip_of_no_space {text : List Char} (h : ∀ c ∈ text, c.isDigit = true ∨ c = '-') :
    strip text = text := by
  refine strip_of_visible fun c hc => ?_
  rcases h c hc with hdigit | rfl
  · exact not_isSpace_of_isDigit hdigit
  · decide

theorem readDigits_toDigits (n : ℕ) : readDigits false 0 (Nat.toDigits 10 n) = some n := by
  have hstrip : strip (Nat.toDigits 10 n) = Nat.toDigits 10 n :=
    strip_of_no_space fun c hc => .inl (isDigit_of_mem hc)
  have hread := readInt_toDigits n
  rw [readInt, hstrip] at hread
  split at hread
  · rename_i heq
    have hsign : '+'.isDigit = true := isDigit_of_mem (n := n) (heq ▸ List.mem_cons_self)
    cases hsign
  · rename_i heq
    exact absurd (heq ▸ List.mem_cons_self) (Delimited.sign_not_mem_toDigits n)
  · obtain ⟨m, hm, heq⟩ := Option.map_eq_some_iff.1 hread
    rw [hm, Int.ofNat_inj.1 heq]

theorem readInt_repr (n : ℤ) : readInt (Int.repr n).toList = some n := by
  cases n with
  | ofNat m =>
      change readInt (Nat.repr m).toList = _
      rw [Nat.toList_repr]
      exact readInt_toDigits m
  | negSucc m =>
      have hstrip := strip_of_no_space fun c hc =>
        Delimited.mem_toList_repr (n := Int.negSucc m) hc
      rw [readInt, hstrip, Delimited.toList_repr_negSucc]
      simp only [readDigits_toDigits]
      rfl

theorem intOf_toString (n : ℤ) : intOf (toString n) = .ok n := by
  have hread : readInt (toString n).toList = some n := readInt_repr n
  rw [intOf, hread]

/-- The bytes of an object, while its deadline is ahead. -/
def shown (nowMs : ℤ) : Option (List UInt8 × ℤ) → Option (List UInt8)
  | none => none
  | some (payload, expiresAtMs) => if expiresAtMs ≤ nowMs then none else some payload

theorem shown_eq_none_mono {kept : Option (List UInt8 × ℤ)} {nowMs t : ℤ} (hle : nowMs ≤ t)
    (h : shown nowMs kept = none) : shown t kept = none := by
  cases kept with
  | none => rfl
  | some object =>
      obtain ⟨payload, expiresAtMs⟩ := object
      simp only [shown] at h ⊢
      split_ifs at h with hexpired
      exact if_pos (hexpired.trans hle)

def InMemoryMediaStore.kept? (store : InMemoryMediaStore) (tenant : TenantId)
    (ref : EvidenceRef) : Option (List UInt8 × ℤ) :=
  (store.objects.get? (tenant.value, ref.value)).map fun entry =>
    (entry.payload, entry.stored.expiresAtMs)

def S3MediaStore.kept? (store : S3MediaStore) (key : String) : Option (List UInt8 × ℤ) :=
  (store.headObject key).bind fun body =>
    match intOf body.expiresAtMs with
    | .ok expiresAtMs => some (body.payload, expiresAtMs)
    | .error _ => none

/-- From a moment on both stores show the same under every plain name. -/
structure StoresAlike (digest : MediaDigest) (s3 : S3MediaStore) (memory : InMemoryMediaStore)
    (nowMs : ℤ) : Prop where
  dated : ∀ key body, s3.headObject key = some body → ∃ n : ℤ, body.expiresAtMs = toString n
  labelled : ∀ (tenant : TenantId) (sessionId : SessionId) kind payload entry, sessionId.Plain →
    memory.objects.get? (tenant.value, (mediaRef digest kind sessionId payload).value) =
      some entry → entry.stored.sessionId = sessionId
  shows : ∀ (tenant : TenantId) (sessionId : SessionId) kind payload t, tenant.Plain →
    sessionId.Plain → nowMs ≤ t →
      shown t (s3.kept? (mediaKey digest tenant sessionId kind payload)) =
        shown t (memory.kept? tenant (mediaRef digest kind sessionId payload))

section Looking

variable {digest : MediaDigest} {s3 : S3MediaStore} {memory : InMemoryMediaStore} {nowMs : ℤ}
  {tenant : TenantId} {sessionId : SessionId} {kind : MediaKind} {payload : List UInt8}

namespace InMemoryMediaStore

variable (memory nowMs tenant) in
theorem live_spec (ref : EvidenceRef) :
    (memory.live nowMs tenant ref).1.map (·.payload) = shown nowMs (memory.kept? tenant ref) ∧
      ((memory.live nowMs tenant ref).2 = memory ∨
        shown nowMs (memory.kept? tenant ref) = none ∧
          (memory.live nowMs tenant ref).2 =
            ⟨memory.objects.erase (tenant.value, ref.value)⟩) := by
  unfold live kept?
  cases hget : memory.objects.get? (tenant.value, ref.value) with
  | none => exact ⟨rfl, .inl rfl⟩
  | some entry =>
      by_cases hexpired : entry.stored.expiresAtMs ≤ nowMs
      · simp [expired, shown, hexpired]
      · simp [expired, shown, hexpired]

theorem open_fst (ref : EvidenceRef) :
    (memory.open nowMs tenant ref).1 =
      match shown nowMs (memory.kept? tenant ref) with
      | some bytes => .ok bytes
      | none => .error (noLiveObject ref) := by
  rw [← (live_spec memory nowMs tenant ref).1]
  unfold «open»
  dsimp only
  cases (memory.live nowMs tenant ref).1 <;> rfl

theorem open_snd (ref : EvidenceRef) :
    (memory.open nowMs tenant ref).2 = (memory.live nowMs tenant ref).2 := by
  unfold «open»
  dsimp only
  cases (memory.live nowMs tenant ref).1 <;> rfl

theorem exists_fst (ref : EvidenceRef) :
    (memory.exists nowMs tenant ref).1 = (shown nowMs (memory.kept? tenant ref)).isSome := by
  rw [← (live_spec memory nowMs tenant ref).1,
    Option.isSome_map]
  rfl

end InMemoryMediaStore

namespace S3MediaStore

/-- A reference of a plain session leads to the key its object was put under. -/
theorem resolve_mediaRef (hplain : sessionId.Plain)
    (hdated : ∀ key body, s3.headObject key = some body →
      ∃ n : ℤ, body.expiresAtMs = toString n) :
    s3.resolve nowMs tenant (mediaRef digest kind sessionId payload) =
      .ok ((shown nowMs (s3.kept? (mediaKey digest tenant sessionId kind payload))).map
        fun _ => mediaKey digest tenant sessionId kind payload) := by
  have hkey : keyStem tenant sessionId ++ objectName kind.value (digest.hexdigest payload) =
      mediaKey digest tenant sessionId kind payload := rfl
  unfold resolve
  rw [toList_mediaRef, Delimited.cut_append_cons (colon_not_mem_kind kind)]
  unfold kept?
  simp only [Delimited.cut_append_cons hplain.2, SessionId.of_value, hkey, String.ofList_toList,
    bind, Except.bind, pure, Except.pure]
  cases hhead : s3.headObject (mediaKey digest tenant sessionId kind payload) with
  | none => rfl
  | some body =>
      obtain ⟨n, hn⟩ := hdated _ body hhead
      simp only [hn, intOf_toString, Option.bind_some, shown]
      split_ifs <;> rfl

theorem open_mediaRef (hplain : sessionId.Plain)
    (hdated : ∀ key body, s3.headObject key = some body →
      ∃ n : ℤ, body.expiresAtMs = toString n) :
    s3.open nowMs tenant (mediaRef digest kind sessionId payload) =
      match shown nowMs (s3.kept? (mediaKey digest tenant sessionId kind payload)) with
      | some bytes => .ok bytes
      | none => .error (noLiveObject (mediaRef digest kind sessionId payload)) := by
  rw [«open», resolve_mediaRef hplain hdated]
  unfold kept?
  cases hhead : s3.headObject (mediaKey digest tenant sessionId kind payload) with
  | none => rfl
  | some body =>
      obtain ⟨n, hn⟩ := hdated _ body hhead
      simp only [hn, intOf_toString, Option.bind_some, shown, bind, Except.bind]
      split_ifs with hexpired
      · rfl
      · simp only [Option.map_some, hhead]
        rfl

theorem exists_mediaRef (hplain : sessionId.Plain)
    (hdated : ∀ key body, s3.headObject key = some body →
      ∃ n : ℤ, body.expiresAtMs = toString n) :
    s3.exists nowMs tenant (mediaRef digest kind sessionId payload) =
      .ok (shown nowMs (s3.kept? (mediaKey digest tenant sessionId kind payload))).isSome := by
  rw [«exists», resolve_mediaRef hplain hdated]
  change Except.ok (Option.map _ _).isSome = _
  rw [Option.isSome_map]

theorem headObject_putObject (object : S3Object) (body : S3Body) (key : String) :
    (s3.putObject object body).headObject key =
      if key = object.key then some body else s3.headObject key := by
  unfold headObject putObject
  dsimp only
  rw [Dict.contains, Dict.get?_set, Dict.get?_set]
  split_ifs with hkey <;> simp_all [Dict.contains]

theorem headObject_deleteObject (key key' : String) :
    (s3.deleteObject key).headObject key' = if key' = key then none else s3.headObject key' := by
  have hcontains : (s3.deleteObject key).bucket.objects.contains key' =
      (!decide (key' = key) && s3.bucket.objects.contains key') := by
    change ((s3.bucket.objects.filter fun k _ => decide (k ≠ key)).get? key').isSome = _
    rw [Dict.get?_filter, Dict.contains]
    by_cases hkey : key' = key
    · cases s3.bucket.objects.get? key' <;> simp [hkey, Option.filter]
    · cases s3.bucket.objects.get? key' <;> simp [hkey, Option.filter]
  unfold headObject
  rw [hcontains]
  by_cases hkey : key' = key
  · simp [hkey]
  · rw [if_neg hkey]
    have hbodies : (s3.deleteObject key).bodies.get? key' = s3.bodies.get? key' :=
      Dict.get?_erase_ne _ hkey
    rw [hbodies]
    simp [hkey]

theorem headObject_deleteForSession {listing : S3Listing} {n : ℤ}
    (h : (s3.deleteForSession listing tenant sessionId).1 = .ok n) (key : String)
    (object : S3Object) :
    (s3.deleteForSession listing tenant sessionId).2.headObject key =
      if S3Bucket.isUnder tenant sessionId key object then none else s3.headObject key := by
  have hanswer : s3.bucket.deleteForSession listing tenant sessionId =
      (.ok n, (s3.bucket.deleteForSession listing tenant sessionId).2) := Prod.ext h rfl
  have hdeleted := (S3Bucket.deleteForSession_eq_ok listing hanswer).2
  have hcontains : (s3.bucket.deleteForSession listing tenant sessionId).2.objects.contains key =
      (!S3Bucket.isUnder tenant sessionId key object && s3.bucket.objects.contains key) := by
    rw [Dict.contains, hdeleted, Dict.get?_filter, Dict.contains]
    cases s3.bucket.objects.get? key with
    | none => simp
    | some other =>
        have hsame : S3Bucket.isUnder tenant sessionId key other =
            S3Bucket.isUnder tenant sessionId key object := rfl
        cases hunder : S3Bucket.isUnder tenant sessionId key object <;>
          simp [Option.filter, hsame, hunder]
  unfold headObject deleteForSession
  dsimp only
  rw [Dict.get?_filter, hcontains]
  cases hunder : S3Bucket.isUnder tenant sessionId key object with
  | true => simp
  | false =>
      rw [hunder] at hcontains
      cases hthere : s3.bucket.objects.contains key with
      | false => simp
      | true =>
          rw [hthere] at hcontains
          cases s3.bodies.get? key <;> simp [Option.filter]

theorem kept?_put (contentType : String) (expiresAtMs : ℤ) (key : String) :
    (put digest s3 tenant sessionId kind contentType payload expiresAtMs).2.kept? key =
      if key = mediaKey digest tenant sessionId kind payload then some (payload, expiresAtMs)
      else s3.kept? key := by
  unfold kept? put
  rw [headObject_putObject]
  change (if key = mediaKey digest tenant sessionId kind payload then
    some (⟨payload, contentType, toString expiresAtMs⟩ : S3Body)
      else s3.headObject key).bind _ = _
  split_ifs
  · simp only [Option.bind_some, intOf_toString]
  · rfl

theorem kept?_deleteObject (key key' : String) :
    (s3.deleteObject key).kept? key' = if key' = key then none else s3.kept? key' := by
  unfold kept?
  rw [headObject_deleteObject]
  split_ifs <;> rfl

theorem kept?_deleteForSession {listing : S3Listing} {n : ℤ}
    (h : (s3.deleteForSession listing tenant sessionId).1 = .ok n) (key : String)
    (object : S3Object) :
    (s3.deleteForSession listing tenant sessionId).2.kept? key =
      if S3Bucket.isUnder tenant sessionId key object then none else s3.kept? key := by
  unfold kept?
  rw [headObject_deleteForSession h key object]
  split_ifs <;> rfl

end S3MediaStore

namespace InMemoryMediaStore

theorem kept?_put (contentType : String) (expiresAtMs : ℤ) (tenant' : TenantId)
    (ref : EvidenceRef) :
    (put digest memory tenant sessionId kind contentType payload expiresAtMs).2.kept? tenant' ref =
      if (tenant'.value, ref.value) =
          (tenant.value, (mediaRef digest kind sessionId payload).value) then
        some (payload, expiresAtMs)
      else memory.kept? tenant' ref := by
  change ((memory.objects.set (tenant.value, (mediaRef digest kind sessionId payload).value)
    _).get? (tenant'.value, ref.value)).map _ = _
  rw [Dict.get?_set]
  split_ifs <;> rfl

theorem kept?_erase (tenant' : TenantId) (ref ref' : EvidenceRef) :
    kept? ⟨memory.objects.erase (tenant.value, ref.value)⟩ tenant' ref' =
      if (tenant'.value, ref'.value) = (tenant.value, ref.value) then none
      else memory.kept? tenant' ref' := by
  unfold kept?
  by_cases hkey : (tenant'.value, ref'.value) = (tenant.value, ref.value)
  · rw [if_pos hkey, hkey, Dict.get?_erase_self]
    rfl
  · rw [if_neg hkey, Dict.get?_erase_ne _ hkey]

theorem of_get?_erase {key key' : String × String} {entry : MediaEntry}
    (h : (memory.objects.erase key).get? key' = some entry) :
    memory.objects.get? key' = some entry := by
  rw [Dict.erase, Dict.get?_filter] at h
  exact (Option.filter_eq_some_iff.1 h).1

end InMemoryMediaStore

end Looking

/-- The names in the call keep clear of the separators, and a reference is one that a put makes. -/
def MediaCall.Plain (digest : MediaDigest) : MediaCall → Prop
  | .put tenant sessionId _ _ _ _ => tenant.Plain ∧ sessionId.Plain
  | .open tenant ref | .exists tenant ref | .delete tenant ref =>
      tenant.Plain ∧ ∃ sessionId kind payload, SessionId.Plain sessionId ∧
        ref = mediaRef digest kind sessionId payload
  | .deleteForSession tenant sessionId => tenant.Plain ∧ sessionId.Plain

/-- How the two answers to a call go together. What has expired may still be there to remove in
memory, and the objects that have expired are counted by S3 only. -/
def MediaCall.Agree : MediaCall → (s3 memory : Except Failure MediaAnswer) → Prop
  | .delete _ _, s3, memory => ∃ was was' : Bool, s3 = .ok (.removed was) ∧
      memory = .ok (.removed was') ∧ (was = true → was' = true)
  | .deleteForSession _ _, _, _ => True
  | _, s3, memory => s3 = memory

def Taken (digest : MediaDigest) (listing : S3Listing) (store : S3MediaStore) (c : TimedCall) :
    Prop := ∀ tenant sessionId, c.call = .deleteForSession tenant sessionId →
  ∃ answer, (store.serve digest listing c).1 = .ok answer

namespace StoresAlike

variable {digest : MediaDigest} {s3 : S3MediaStore} {memory : InMemoryMediaStore} {nowMs : ℤ}
  {tenant : TenantId} {sessionId : SessionId} {kind : MediaKind} {payload : List UInt8}

theorem fresh (digest : MediaDigest) (nowMs : ℤ) : StoresAlike digest .fresh .fresh nowMs where
  dated key body h := by cases h
  labelled tenant sessionId kind payload entry _ h := by cases h
  shows _ _ _ _ _ _ _ _ := rfl

theorem later (h : StoresAlike digest s3 memory nowMs) {laterMs : ℤ} (hle : nowMs ≤ laterMs) :
    StoresAlike digest s3 memory laterMs :=
  ⟨h.dated, h.labelled, fun tenant sessionId kind payload t ht hs hlt =>
    h.shows tenant sessionId kind payload t ht hs (hle.trans hlt)⟩

theorem put (h : StoresAlike digest s3 memory nowMs) (ht : tenant.Plain) (hs : sessionId.Plain)
    (contentType : String) (expiresAtMs : ℤ) :
    StoresAlike digest (S3MediaStore.put digest s3 tenant sessionId kind contentType payload
        expiresAtMs).2
      (InMemoryMediaStore.put digest memory tenant sessionId kind contentType payload
        expiresAtMs).2 nowMs where
  dated key body hbody := by
    change (s3.putObject _ _).headObject key = some body at hbody
    rw [S3MediaStore.headObject_putObject] at hbody
    split_ifs at hbody
    · cases hbody
      exact ⟨expiresAtMs, rfl⟩
    · exact h.dated key body hbody
  labelled tenant' sessionId' kind' payload' entry hs' hentry := by
    change (memory.objects.set (tenant.value, (mediaRef digest kind sessionId payload).value)
      _).get? _ = some entry at hentry
    rw [Dict.get?_set] at hentry
    split_ifs at hentry with hkey
    · cases hentry
      exact ((mediaRef_value_inj hs' hs).1 (Prod.mk.inj hkey).2).2.1.symm
    · exact h.labelled tenant' sessionId' kind' payload' entry hs' hentry
  shows tenant' sessionId' kind' payload' t ht' hs' hle := by
    simp only [S3MediaStore.kept?_put, InMemoryMediaStore.kept?_put,
      mediaKey_eq_iff ht' ht hs' hs]
    split_ifs
    · rfl
    · exact h.shows tenant' sessionId' kind' payload' t ht' hs' hle

theorem dropped (h : StoresAlike digest s3 memory nowMs)
    (hnone : shown nowMs (memory.kept? tenant (mediaRef digest kind sessionId payload)) = none) :
    StoresAlike digest s3
      ⟨memory.objects.erase (tenant.value, (mediaRef digest kind sessionId payload).value)⟩
      nowMs where
  dated := h.dated
  labelled tenant' sessionId' kind' payload' entry hs' hentry :=
    h.labelled tenant' sessionId' kind' payload' entry hs'
      (InMemoryMediaStore.of_get?_erase hentry)
  shows tenant' sessionId' kind' payload' t ht' hs' hle := by
    rw [h.shows tenant' sessionId' kind' payload' t ht' hs' hle, InMemoryMediaStore.kept?_erase]
    split_ifs with hkey
    · unfold InMemoryMediaStore.kept? at hnone ⊢
      rw [hkey]
      exact shown_eq_none_mono hle hnone
    · rfl

theorem live (h : StoresAlike digest s3 memory nowMs) :
    StoresAlike digest s3
      (memory.live nowMs tenant (mediaRef digest kind sessionId payload)).2 nowMs := by
  rcases (InMemoryMediaStore.live_spec memory nowMs tenant
    (mediaRef digest kind sessionId payload)).2 with heq | ⟨hnone, heq⟩
  · rwa [heq]
  · rw [heq]
    exact h.dropped hnone

variable (kind payload) in
/-- Both stores remove an object, or it is not shown and S3 keeps it. -/
theorem delete (h : StoresAlike digest s3 memory nowMs) (ht : tenant.Plain) (hs : sessionId.Plain) :
    StoresAlike digest (s3.delete nowMs tenant (mediaRef digest kind sessionId payload)).2
        (memory.delete tenant (mediaRef digest kind sessionId payload)).2 nowMs ∧
      ∃ was : Bool, (s3.delete nowMs tenant (mediaRef digest kind sessionId payload)).1 =
          .ok was ∧
        (was = true → (memory.delete tenant
          (mediaRef digest kind sessionId payload)).1 = true) := by
  have hshows := h.shows tenant sessionId kind payload nowMs ht hs le_rfl
  unfold S3MediaStore.delete
  rw [S3MediaStore.resolve_mediaRef hs h.dated]
  cases hshown : shown nowMs (s3.kept? (mediaKey digest tenant sessionId kind payload)) with
  | none =>
      refine ⟨h.dropped (hshows ▸ hshown), false, rfl, fun hwas => ?_⟩
      cases hwas
  | some bytes =>
      have hthere : memory.objects.contains
          (tenant.value, (mediaRef digest kind sessionId payload).value) = true := by
        rw [hshows] at hshown
        rw [Dict.contains]
        unfold InMemoryMediaStore.kept? at hshown
        cases hget : memory.objects.get?
            (tenant.value, (mediaRef digest kind sessionId payload).value) with
        | none =>
            rw [hget] at hshown
            cases hshown
        | some entry => rfl
      refine ⟨⟨fun key body hbody => ?_, ?_, ?_⟩, true, rfl, fun _ => hthere⟩
      · change (s3.deleteObject _).headObject key = some body at hbody
        rw [S3MediaStore.headObject_deleteObject] at hbody
        split_ifs at hbody
        exact h.dated key body hbody
      · exact fun tenant' sessionId' kind' payload' entry hs' hentry =>
          h.labelled tenant' sessionId' kind' payload' entry hs'
            (InMemoryMediaStore.of_get?_erase hentry)
      · intro tenant' sessionId' kind' payload' t ht' hs' hle
        change shown t (S3MediaStore.kept? (s3.deleteObject _) _) =
          shown t (InMemoryMediaStore.kept? ⟨memory.objects.erase _⟩ _ _)
        simp only [S3MediaStore.kept?_deleteObject, InMemoryMediaStore.kept?_erase,
          mediaKey_eq_iff ht' ht hs' hs]
        split_ifs
        · rfl
        · exact h.shows tenant' sessionId' kind' payload' t ht' hs' hle

theorem deleteForSession (h : StoresAlike digest s3 memory nowMs) (ht : tenant.Plain)
    (hs : sessionId.Plain) {listing : S3Listing} {n : ℤ}
    (hok : (s3.deleteForSession listing tenant sessionId).1 = .ok n) :
    StoresAlike digest (s3.deleteForSession listing tenant sessionId).2
      (memory.deleteForSession tenant sessionId).2 nowMs where
  dated key body hbody := by
    rw [S3MediaStore.headObject_deleteForSession hok key ⟨tenant, sessionId, ""⟩] at hbody
    split_ifs at hbody
    exact h.dated key body hbody
  labelled tenant' sessionId' kind' payload' entry hs' hentry := by
    refine h.labelled tenant' sessionId' kind' payload' entry hs' ?_
    change (memory.objects.filter _).get? _ = _ at hentry
    rw [Dict.get?_filter] at hentry
    exact (Option.filter_eq_some_iff.1 hentry).1
  shows tenant' sessionId' kind' payload' t ht' hs' hle := by
    have hshows := h.shows tenant' sessionId' kind' payload' t ht' hs' hle
    have hlabelled := h.labelled tenant' sessionId' kind' payload'
    rw [S3MediaStore.kept?_deleteForSession hok _ ⟨tenant, sessionId, ""⟩]
    unfold InMemoryMediaStore.kept? at hshows ⊢
    change _ = shown t (((memory.objects.filter _).get? _).map _)
    rw [Dict.get?_filter]
    by_cases hname : tenant' = tenant ∧ sessionId' = sessionId
    · rw [if_pos ((isUnder_mediaKey_iff ht ht' hs hs' _).2 hname)]
      cases hget : memory.objects.get?
          (tenant'.value, (mediaRef digest kind' sessionId' payload').value) with
      | none => rfl
      | some entry =>
          have hown := hlabelled entry hs' hget
          simp [Option.filter, InMemoryMediaStore.isOf, hname.1, hown, hname.2, shown]
    · rw [if_neg (fun hunder => hname ((isUnder_mediaKey_iff ht ht' hs hs' _).1 hunder)),
        hshows]
      cases hget : memory.objects.get?
          (tenant'.value, (mediaRef digest kind' sessionId' payload').value) with
      | none => rfl
      | some entry =>
          have hown := hlabelled entry hs' hget
          have hother : InMemoryMediaStore.isOf tenant sessionId
              (tenant'.value, (mediaRef digest kind' sessionId' payload').value) entry =
                false := by
            rw [InMemoryMediaStore.isOf, hown, ← Bool.not_eq_true]
            simp only [Bool.and_eq_true, decide_eq_true_eq]
            exact fun heq => hname ⟨TenantId.ext_value heq.1, heq.2⟩
          simp [Option.filter, hother]

theorem serve {listing : S3Listing} {c : TimedCall} (h : StoresAlike digest s3 memory c.nowMs)
    (hplain : c.call.Plain digest) (htaken : Taken digest listing s3 c) :
    StoresAlike digest (s3.serve digest listing c).2 (memory.serve digest c).2 c.nowMs ∧
      c.call.Agree (s3.serve digest listing c).1 (memory.serve digest c).1 := by
  obtain ⟨nowMs, call⟩ := c
  cases call with
  | put tenant sessionId kind contentType payload expiresAtMs =>
      exact ⟨h.put hplain.1 hplain.2 contentType expiresAtMs, rfl⟩
  | «open» tenant ref =>
      obtain ⟨ht, sessionId, kind, payload, hs, rfl⟩ := hplain
      refine ⟨?_, ?_⟩
      · change StoresAlike digest s3 (memory.open nowMs tenant _).2 nowMs
        rw [InMemoryMediaStore.open_snd]
        exact h.live
      · change (s3.open nowMs tenant _).map _ = (memory.open nowMs tenant _).1.map _
        rw [S3MediaStore.open_mediaRef hs h.dated, InMemoryMediaStore.open_fst,
          h.shows tenant sessionId kind payload nowMs ht hs le_rfl]
  | «exists» tenant ref =>
      obtain ⟨ht, sessionId, kind, payload, hs, rfl⟩ := hplain
      refine ⟨h.live, ?_⟩
      change (s3.exists nowMs tenant _).map _ =
        .ok (MediaAnswer.found (memory.exists nowMs tenant _).1)
      rw [S3MediaStore.exists_mediaRef hs h.dated, InMemoryMediaStore.exists_fst,
        h.shows tenant sessionId kind payload nowMs ht hs le_rfl]
      rfl
  | delete tenant ref =>
      obtain ⟨ht, sessionId, kind, payload, hs, rfl⟩ := hplain
      obtain ⟨halike, was, hs3, hmemory⟩ := h.delete kind payload ht hs
      refine ⟨halike, was, _, ?_, rfl, hmemory⟩
      change Except.map _ (s3.delete nowMs tenant _).1 = _
      rw [hs3]
      rfl
  | deleteForSession tenant sessionId =>
      obtain ⟨answer, hanswer⟩ := htaken tenant sessionId rfl
      cases hok : (s3.deleteForSession listing tenant sessionId).1 with
      | ok n => exact ⟨h.deleteForSession hplain.1 hplain.2 hok, trivial⟩
      | error e =>
          change Except.map _ (s3.deleteForSession listing tenant sessionId).1 = _ at hanswer
          rw [hok] at hanswer
          cases hanswer

theorem after {listing : S3Listing} {calls : List TimedCall} {laterMs : ℤ}
    (h : StoresAlike digest s3 memory nowMs) (hplain : ∀ c ∈ calls, c.call.Plain digest)
    (hclock : (calls.map TimedCall.nowMs).Pairwise (· ≤ ·))
    (hnow : ∀ c ∈ calls, nowMs ≤ c.nowMs) (hlast : ∀ c ∈ calls, c.nowMs ≤ laterMs)
    (hle : nowMs ≤ laterMs)
    (htaken : Runs.EveryStep (S3MediaStore.next digest listing) (Taken digest listing) s3 calls) :
    StoresAlike digest (s3.after digest listing calls) (memory.after digest calls) laterMs := by
  induction calls generalizing s3 memory nowMs with
  | nil => exact h.later hle
  | cons c calls ih =>
      rw [List.map_cons, List.pairwise_cons] at hclock
      obtain ⟨hfirst, hrest⟩ := Runs.everyStep_cons.1 htaken
      have hserve := (h.later (hnow c List.mem_cons_self)).serve
        (hplain c List.mem_cons_self) hfirst
      exact ih hserve.1 (fun c' hc' => hplain c' (List.mem_cons_of_mem _ hc')) hclock.2
        (fun c' hc' => hclock.1 _ (List.mem_map_of_mem hc'))
        (fun c' hc' => hlast c' (List.mem_cons_of_mem _ hc')) (hlast c List.mem_cons_self) hrest

end StoresAlike

/-- After any calls on plain names, on a clock that does not go back and with every deletion of a
session taken by the service, the two stores answer the next call alike. -/
theorem mediaStores_agree (digest : MediaDigest) (listing : S3Listing) (calls : List TimedCall)
    (c : TimedCall) (hplain : ∀ call ∈ calls ++ [c], call.call.Plain digest)
    (hclock : ((calls ++ [c]).map TimedCall.nowMs).Pairwise (· ≤ ·))
    (htaken : Runs.EveryStep (S3MediaStore.next digest listing) (Taken digest listing) .fresh
      (calls ++ [c])) :
    c.call.Agree ((S3MediaStore.after digest listing .fresh calls).serve digest listing c).1
      ((InMemoryMediaStore.after digest .fresh calls).serve digest c).1 := by
  obtain ⟨hbefore, hlast⟩ := Runs.everyStep_append.1 htaken
  have hc := (Runs.everyStep_cons.1 hlast).1
  rw [List.map_append, List.pairwise_append] at hclock
  have halike : StoresAlike digest (S3MediaStore.after digest listing .fresh calls)
      (InMemoryMediaStore.after digest .fresh calls) c.nowMs := by
    have hplain' : ∀ call ∈ calls, call.call.Plain digest :=
      fun call hcall => hplain call (List.mem_append_left _ hcall)
    have hlast' : ∀ call ∈ calls, call.nowMs ≤ c.nowMs := fun call hcall =>
      hclock.2.2 _ (List.mem_map_of_mem hcall) _ List.mem_cons_self
    cases calls with
    | nil => exact StoresAlike.fresh digest c.nowMs
    | cons first calls =>
        have hfirst : ∀ call ∈ first :: calls, first.nowMs ≤ call.nowMs := by
          rintro call (_ | ⟨_, hcall⟩)
          · exact le_rfl
          · exact (List.pairwise_cons.1 hclock.1).1 _ (List.mem_map_of_mem hcall)
        exact (StoresAlike.fresh digest first.nowMs).after hplain' hclock.1 hfirst hlast'
          (hlast' first List.mem_cons_self) hbefore
  exact (halike.serve (hplain c (List.mem_append_right _ List.mem_cons_self)) hc).2

def constantDigest : MediaDigest where
  hexdigest _ := "0123456789abcdef"

def studyRef : EvidenceRef := mediaRef constantDigest .rawMedia studySessionId [1, 2, 3]

def studyPut : TimedCall :=
  ⟨10, .put studyTenant studySessionId .rawMedia "audio/wav" [1, 2, 3] 1000⟩

def studyMediaCalls : List TimedCall :=
  [⟨0, .put studyTenant lectureId .rawMedia "audio/wav" [7] 5000⟩, studyPut,
    ⟨20, .put studyTenant studySessionId .derivedFeatures "application/json" [4, 5] 5000⟩,
    ⟨30, .deleteForSession studyTenant lectureId⟩]

theorem mediaStores_agree_study :
    ((InMemoryMediaStore.after constantDigest .fresh studyMediaCalls).serve constantDigest
        ⟨999, .open studyTenant studyRef⟩).1 = .ok (.bytes [1, 2, 3]) ∧
      (MediaCall.open studyTenant studyRef).Agree
        ((S3MediaStore.after constantDigest DeleteEvidence.onePage .fresh studyMediaCalls).serve
          constantDigest DeleteEvidence.onePage ⟨999, .open studyTenant studyRef⟩).1
        ((InMemoryMediaStore.after constantDigest .fresh studyMediaCalls).serve constantDigest
          ⟨999, .open studyTenant studyRef⟩).1 := by
  have htenant : studyTenant.Plain := by unfold TenantId.Plain; decide
  have hsession : studySessionId.Plain := by unfold SessionId.Plain; decide
  have hlecture : lectureId.Plain := by unfold SessionId.Plain; decide
  refine ⟨rfl, mediaStores_agree constantDigest DeleteEvidence.onePage studyMediaCalls
    ⟨999, .open studyTenant studyRef⟩ ?_ (by decide) ?_⟩
  · simp only [studyMediaCalls, studyPut, List.cons_append, List.nil_append, List.forall_mem_cons]
    exact ⟨⟨htenant, hlecture⟩, ⟨htenant, hsession⟩, ⟨htenant, hsession⟩, ⟨htenant, hlecture⟩,
      ⟨htenant, studySessionId, .rawMedia, [1, 2, 3], hsession, rfl⟩, nofun⟩
  · simp only [studyMediaCalls, studyPut, List.cons_append, List.nil_append, Runs.everyStep_cons]
    exact ⟨nofun, nofun, nofun, fun _ _ _ => ⟨_, rfl⟩, nofun, Runs.everyStep_nil _⟩

end OratoriaEngine
