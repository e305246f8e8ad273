import OratoriaEngine.Protocol

/-!
# What the parser of client messages refuses

Every check of the parser raises a protocol error, and every number it checks is not negative.
Only the conversions of the media fields do otherwise: they take numbers below zero, and refuse a
value with an error that the handler does not expect.
-/

namespace OratoriaEngine.Protocol

open Json

def Envelope.NonNegative (e : Envelope) : Prop :=
  0 ≤ e.monotonicTimeMs ∧ (∀ n ∈ e.chunkSeq, 0 ≤ n) ∧ ∀ n ∈ e.eventSeq, 0 ≤ n

/-- The sequence, the session position and the duration are natural numbers. -/
def ClientMessage.NonNegative : ClientMessage → Prop
  | .audioChunk c => c.envelope.NonNegative ∧ 0 ≤ c.sequence ∧ 0 ≤ c.durationMs
  | .videoFrame f => f.envelope.NonNegative ∧ 0 ≤ f.sequence ∧ 0 ≤ f.sessionPositionMs
  | .control m => m.envelope.NonNegative
  | .unknown m => ∀ e ∈ m.envelope, e.NonNegative

def IsProtocolError (f : Failure) : Prop := ∃ message, f = .protocolError message

/-- The message is parsed, or refused as a protocol error. -/
def ParsedOrRefused (outcome : Except Failure ClientMessage) : Prop :=
  outcome.Meets ClientMessage.NonNegative IsProtocolError

variable {lib : Library} {raw : Dict String Json}

def Numbered (raw : Dict String Json) (key : String) (n : ℤ) : Prop :=
  0 ≤ n ∧ ∃ v, raw.get? key = some v ∧ v.asInt? = some n

def Absent (raw : Dict String Json) (key : String) : Prop :=
  raw.get? key = none ∨ raw.get? key = some .null

structure Headed (raw : Dict String Json) : Prop where
  present : missing raw = []
  monotonic : ∃ n, Numbered raw "monotonic_time_ms" n
  chunkSeq : Absent raw "chunk_seq" ∨ ∃ n, Numbered raw "chunk_seq" n
  eventSeq : Absent raw "event_seq" ∨ ∃ n, Numbered raw "event_seq" n

theorem nonNegative_cases (lib : Library) (key : String) (v : Json) :
    (∃ n, nonNegative lib key v = .ok n ∧ 0 ≤ n ∧ v.asInt? = some n) ∨
      ((∃ message, nonNegative lib key v = .error (.protocolError message)) ∧
        ∀ n, v.asInt? = some n → n < 0) := by
  unfold nonNegative
  cases v.asInt? with
  | none => exact Or.inr ⟨⟨_, rfl⟩, nofun⟩
  | some n =>
      by_cases hn : n < 0
      · apply Or.inr
        refine ⟨⟨_, if_pos hn⟩, ?_⟩
        rintro m h
        cases h
        exact hn
      · exact Or.inl ⟨n, if_neg hn, not_lt.1 hn, rfl⟩

theorem optionalInt_cases (lib : Library) (raw : Dict String Json) (key : String) :
    (optionalInt lib raw key = .ok none ∧ Absent raw key) ∨
      (∃ n, optionalInt lib raw key = .ok (some n) ∧ Numbered raw key n) ∨
      ((∃ message, optionalInt lib raw key = .error (.protocolError message)) ∧
        ¬(Absent raw key ∨ ∃ n, Numbered raw key n)) := by
  unfold optionalInt
  split
  · next h => exact Or.inl ⟨rfl, Or.inl h⟩
  · next h => exact Or.inl ⟨rfl, Or.inr h⟩
  · next v hnull hv =>
      apply Or.inr
      rcases nonNegative_cases lib key v with ⟨n, hn, hpos, hint⟩ | ⟨⟨message, hn⟩, hneg⟩
      · rw [hn]
        exact Or.inl ⟨n, rfl, hpos, v, hv, hint⟩
      · rw [hn]
        apply Or.inr
        refine ⟨⟨message, rfl⟩, ?_⟩
        rintro ((habsent | habsent) | ⟨n, hpos, v', hv', hint⟩)
        · rw [hv] at habsent
          cases habsent
        · exact hnull (Option.some.inj (hv.symm.trans habsent))
        · rw [hv] at hv'
          cases hv'
          exact absurd (hneg n hint) (not_lt.2 hpos)

theorem Numbered.not_absent {key : String} {n : ℤ} (h : Numbered raw key n) :
    ¬Absent raw key := by
  obtain ⟨-, v, hv, hint⟩ := h
  rintro (habsent | habsent)
  · rw [hv] at habsent
    cases habsent
  · rw [hv] at habsent
    cases habsent
    cases hint

theorem Numbered.unique {key : String} {n m : ℤ} (hn : Numbered raw key n)
    (hm : Numbered raw key m) : n = m := by
  obtain ⟨-, v, hv, hnint⟩ := hn
  obtain ⟨-, w, hw, hmint⟩ := hm
  rw [hv] at hw
  cases hw
  exact Option.some.inj (hnint.symm.trans hmint)

theorem optionalInt_eq_ok {key : String} {r : Option ℤ} (h : optionalInt lib raw key = .ok r) :
    (Absent raw key ∨ ∃ n, Numbered raw key n) ∧ (∀ n ∈ r, 0 ≤ n) ∧
      ∀ n, r = some n ↔ Numbered raw key n := by
  rcases optionalInt_cases lib raw key with ⟨hr, habsent⟩ | ⟨n, hr, hn⟩ | ⟨⟨message, hr⟩, -⟩
  · rw [hr] at h
    cases h
    refine ⟨Or.inl habsent, nofun, fun n => ⟨nofun, fun hn => absurd habsent hn.not_absent⟩⟩
  · rw [hr] at h
    cases h
    refine ⟨Or.inr ⟨n, hn⟩, ?_, fun m => ?_⟩
    · rintro m hm
      cases hm
      exact hn.1
    · constructor
      · intro hm
        cases hm
        exact hn
      · intro hm
        rw [hn.unique hm]
  · rw [hr] at h
    cases h

theorem optionalInt_eq_error {key : String} {f : Failure} (h : optionalInt lib raw key = .error f) :
    IsProtocolError f ∧ ¬(Absent raw key ∨ ∃ n, Numbered raw key n) := by
  rcases optionalInt_cases lib raw key with ⟨hr, -⟩ | ⟨n, hr, -⟩ | ⟨⟨message, hr⟩, hbad⟩
  · rw [hr] at h
    cases h
  · rw [hr] at h
    cases h
  · rw [hr] at h
    cases h
    exact ⟨⟨message, rfl⟩, hbad⟩

theorem parseEnvelope_cases (lib : Library) (raw : Dict String Json) :
    (Headed raw ∧ ∃ e, parseEnvelope lib raw = .ok e ∧ e.NonNegative ∧
      ∀ n, e.chunkSeq = some n ↔ Numbered raw "chunk_seq" n) ∨
      (¬Headed raw ∧ ∃ f, parseEnvelope lib raw = .error f ∧ IsProtocolError f) := by
  unfold parseEnvelope
  by_cases hmissing : missing raw = []
  swap
  · rw [if_pos hmissing]
    exact Or.inr ⟨fun h => hmissing h.present, _, rfl, _, rfl⟩
  rw [if_neg (not_not.2 hmissing)]
  rcases nonNegative_cases lib "monotonic_time_ms" (field raw "monotonic_time_ms" .null) with
    ⟨time, htime, hpos, hint⟩ | ⟨⟨message, htime⟩, hneg⟩
  swap
  · apply Or.inr
    rw [htime]
    refine ⟨fun h => ?_, _, rfl, message, rfl⟩
    obtain ⟨n, hpos, v, hv, hint⟩ := h.monotonic
    rw [field, hv, Option.getD_some] at hneg
    exact absurd (hneg n hint) (not_lt.2 hpos)
  have hmono : ∃ n, Numbered raw "monotonic_time_ms" n := by
    rw [field] at hint
    cases hv : raw.get? "monotonic_time_ms" with
    | none =>
        rw [hv] at hint
        cases hint
    | some v =>
        rw [hv] at hint
        exact ⟨time, hpos, v, hv, hint⟩
  rw [htime]
  cases hchunk : optionalInt lib raw "chunk_seq" with
  | error f =>
      obtain ⟨hf, hbad⟩ := optionalInt_eq_error hchunk
      exact Or.inr ⟨fun h => hbad h.chunkSeq, f, rfl, hf⟩
  | ok chunk =>
      obtain ⟨hgood, hchunkPos, hchunkIff⟩ := optionalInt_eq_ok hchunk
      cases hevent : optionalInt lib raw "event_seq" with
      | error f =>
          obtain ⟨hf, hbad⟩ := optionalInt_eq_error hevent
          exact Or.inr ⟨fun h => hbad h.eventSeq, f, rfl, hf⟩
      | ok event =>
          obtain ⟨hgoodEvent, heventPos, -⟩ := optionalInt_eq_ok hevent
          exact Or.inl ⟨⟨hmissing, hmono, hgood, hgoodEvent⟩, _, rfl,
            ⟨hpos, hchunkPos, heventPos⟩, hchunkIff⟩

def Decodes (lib : Library) (raw : Dict String Json) (key : String) : Prop :=
  (lib.b64decode ((field raw key (.str "")).text lib.toTexts)).isSome

theorem meets_decoded_iff {key message : String} {post : Prop} :
    (decoded lib raw key message).Meets (fun _ => post) IsProtocolError ↔
      (Decodes lib raw key → post) := by
  unfold decoded Decodes
  cases lib.b64decode ((field raw key (.str "")).text lib.toTexts) with
  | none => exact iff_of_true ⟨message, rfl⟩ nofun
  | some bytes => exact ⟨fun h _ => h, fun h => h rfl⟩

theorem meets_toInt_iff {v : Json} {post : ℤ → Prop} :
    (v.toInt lib.toTexts).Meets post IsProtocolError ↔
      ∃ n, v.toInt lib.toTexts = .ok n ∧ post n := by
  apply Except.meets_iff_of_error
  rintro _ h ⟨message, rfl⟩
  exact toInt_error lib.toTexts h message rfl

theorem meets_mapM_toFloat_iff {items : List Json} {post : List PyFloat → Prop} :
    (items.mapM (toFloat lib.toTexts)).Meets post IsProtocolError ↔
      ∃ r, items.mapM (toFloat lib.toTexts) = .ok r ∧ post r := by
  apply Except.meets_iff_of_error
  rintro _ h ⟨message, rfl⟩
  obtain ⟨v, -, hv⟩ := Except.error_of_mapM h
  exact toFloat_error lib.toTexts hv message rfl

/-- What `int` is given for an audio chunk converts, the duration to a natural number. -/
structure AudioConverts (raw : Dict String Json) : Prop where
  sampleRate : (field raw "sample_rate_hz" (.int 16000)).ReadsAsInt
  duration : (field raw "duration_ms" (.int 0)).ReadsAsNatural

/-- What `int` and `float` are given for a frame converts, the position to a natural number. -/
structure VideoConverts (raw : Dict String Json) (landmarks : List Json) : Prop where
  position : ∀ v, raw.get? "session_position_ms" = some v → v.ReadsAsNatural
  landmarks : ∀ v ∈ landmarks, v.ReadsAsFloat

theorem parseAudio_meets_iff {e : Envelope} (he : e.NonNegative) :
    (parseAudio lib raw e).Meets (fun c => (ClientMessage.audioChunk c).NonNegative)
        IsProtocolError ↔
      ((∃ n, e.chunkSeq = some n) → Decodes lib raw "samples" → AudioConverts raw) := by
  unfold parseAudio
  cases hseq : e.chunkSeq with
  | none => exact iff_of_true ⟨_, rfl⟩ (by simp)
  | some n =>
      have hn : 0 ≤ n := he.2.1 n hseq
      simp only [Except.meets_bind_iff, meets_toInt_iff, Except.meets_pure_iff,
        ClientMessage.NonNegative, Option.some.injEq, exists_eq', forall_const]
      refine (Except.meets_congr fun samples => ?_).trans meets_decoded_iff
      constructor
      · rintro ⟨rate, hrate, duration, hduration, -, -, hpos⟩
        exact ⟨(toInt_isOk_iff lib.toTexts _).1 ⟨rate, hrate⟩,
          (toInt_nonneg_iff lib.toTexts _).1 ⟨duration, hduration, hpos⟩⟩
      · rintro ⟨hrate, hduration⟩
        obtain ⟨rate, hrate⟩ := (toInt_isOk_iff lib.toTexts _).2 hrate
        obtain ⟨duration, hduration, hpos⟩ := (toInt_nonneg_iff lib.toTexts _).2 hduration
        exact ⟨rate, hrate, duration, hduration, he, hn, hpos⟩

theorem position_readsAsNatural_iff {time : ℤ} (htime : 0 ≤ time) :
    (field raw "session_position_ms" (.int time)).ReadsAsNatural ↔
      ∀ v, raw.get? "session_position_ms" = some v → v.ReadsAsNatural := by
  unfold field
  cases raw.get? "session_position_ms" with
  | none => exact iff_of_true htime nofun
  | some v =>
      constructor
      · rintro h _ ⟨⟩
        exact h
      · intro h
        exact h v rfl

theorem meets_parsePixels_iff {type : ClientMessageType} {post : Prop} :
    (parsePixels lib raw type).Meets (fun _ => post) IsProtocolError ↔
      ((type = .videoFrame → Decodes lib raw "pixels") → post) := by
  unfold parsePixels
  split_ifs with htype
  · rw [Except.meets_map_iff, meets_decoded_iff]
    simp [htype]
  · simp [htype, Except.Meets]

theorem parseVideo_meets_iff {e : Envelope} (he : e.NonNegative) (type : ClientMessageType) :
    (parseVideo lib raw e type).Meets (fun f => (ClientMessage.videoFrame f).NonNegative)
        IsProtocolError ↔
      ((∃ n, e.chunkSeq = some n) → (type = .videoFrame → Decodes lib raw "pixels") →
        ∀ items, field raw "landmarks" (.arr []) = .arr items → VideoConverts raw items) := by
  unfold parseVideo
  cases hseq : e.chunkSeq with
  | none => exact iff_of_true ⟨_, rfl⟩ (by simp)
  | some n =>
      have hn : 0 ≤ n := he.2.1 n hseq
      simp only [Except.meets_bind_iff, Option.some.injEq, exists_eq', forall_const]
      refine (Except.meets_congr fun pixels => ?_).trans meets_parsePixels_iff
      split
      · next items hitems =>
        simp only [Except.meets_bind_iff, meets_toInt_iff, meets_mapM_toFloat_iff,
          Except.meets_pure_iff, ClientMessage.NonNegative]
        constructor
        · rintro ⟨position, hposition, r, hr, -, -, hpos⟩ items' hitems'
          rw [hitems] at hitems'
          cases hitems'
          have hnat := (toInt_nonneg_iff lib.toTexts _).1 ⟨position, hposition, hpos⟩
          refine ⟨(position_readsAsNatural_iff he.1).1 hnat, fun v hv => ?_⟩
          exact (toFloat_isOk_iff lib.toTexts v).1 (Except.mapM_isOk_iff.1 ⟨r, hr⟩ v hv)
        · intro h
          obtain ⟨hposition, hlandmarks⟩ := h items hitems
          obtain ⟨position, hposition, hpos⟩ :=
            (toInt_nonneg_iff lib.toTexts _).2 ((position_readsAsNatural_iff he.1).2 hposition)
          obtain ⟨r, hr⟩ := Except.mapM_isOk_iff.2 fun v hv =>
            (toFloat_isOk_iff lib.toTexts v).2 (hlandmarks v hv)
          exact ⟨position, hposition, r, hr, he, hn, hpos⟩
      · next hother =>
        apply iff_of_true ⟨_, rfl⟩
        intro items h
        exact absurd h (hother items)

/-- The conversions of a message that passes every check before them. -/
def FieldsConvert (lib : Library) (raw : Dict String Json) : Prop :=
  Headed raw → (∃ n, Numbered raw "chunk_seq" n) →
    (rawType lib raw = ClientMessageType.audioChunk.value →
      Decodes lib raw "samples" → AudioConverts raw) ∧
    ∀ type ∈ [ClientMessageType.videoFrame, .visualFeatures], rawType lib raw = type.value →
      (type = .videoFrame → Decodes lib raw "pixels") →
        ∀ items, field raw "landmarks" (.arr []) = .arr items → VideoConverts raw items

theorem read?_eq_some_iff {type : ClientMessageType} :
    ClientMessageType.enumeration.read? (rawType lib raw) = some type ↔
      rawType lib raw = type.value :=
  Enumeration.read?_eq_some_iff _

theorem parseBody_meets_iff {e : Envelope} (he : e.NonNegative) :
    ParsedOrRefused (parseBody lib raw e) ↔ ((∃ n, e.chunkSeq = some n) →
      (rawType lib raw = ClientMessageType.audioChunk.value →
        Decodes lib raw "samples" → AudioConverts raw) ∧
      ∀ type ∈ [ClientMessageType.videoFrame, .visualFeatures], rawType lib raw = type.value →
        (type = .videoFrame → Decodes lib raw "pixels") →
          ∀ items, field raw "landmarks" (.arr []) = .arr items → VideoConverts raw items) := by
  unfold ParsedOrRefused parseBody
  simp only [← read?_eq_some_iff]
  cases ClientMessageType.enumeration.read? (rawType lib raw) with
  | none =>
      apply iff_of_true
      · rintro _ ⟨⟩
        exact he
      · intro _
        exact ⟨nofun, fun _ _ => nofun⟩
  | some type =>
      cases type with
      | audioChunk => simp [Except.meets_map_iff, parseAudio_meets_iff he]
      | videoFrame => simp [Except.meets_map_iff, parseVideo_meets_iff he]
      | visualFeatures => simp [Except.meets_map_iff, parseVideo_meets_iff he]
      | sessionConfigure | capturePause | captureResume | sessionComplete | clientHeartbeat =>
          simpa [Except.Meets, ClientMessage.NonNegative] using he

/-- Client messages are parsed, or refused as protocol errors, exactly if every field that is
converted without a check converts: the sample rate to an integer, the landmarks to numbers, the
duration and the position to natural numbers. -/
theorem parsedOrRefused_iff_fieldsConvert (lib : Library) (raw : Dict String Json) :
    ParsedOrRefused (parseClientMessage lib raw) ↔ FieldsConvert lib raw := by
  unfold ParsedOrRefused parseClientMessage
  rw [Except.meets_bind_iff]
  rcases parseEnvelope_cases lib raw with ⟨hhead, e, he, hpos, hchunk⟩ | ⟨hhead, f, he, hf⟩
  · rw [he]
    apply (parseBody_meets_iff hpos).trans
    rw [exists_congr hchunk]
    exact ⟨fun h _ => h, fun h => h hhead⟩
  · rw [he]
    exact iff_of_true hf fun h => absurd h hhead

def visualFeatures (key : String) (value : Json) : Dict String Json :=
  (Dict.empty.setAll [("schema_version", .str "1.0"), ("session_id", .str "session-1"),
    ("message_id", .str "message-1"), ("monotonic_time_ms", .int 40), ("chunk_seq", .int 1),
    ("type", .str "visual.features")]).set key value

def sampleLibrary : Library where
  repr _ := ""
  refusal _ _ := ""
  b64decode _ := none

/-- A landmark that is null is refused with a type error, and a frame before the session's start
is accepted. -/
theorem not_parsedOrRefused_visualFeatures :
    ¬ParsedOrRefused (parseClientMessage sampleLibrary
      (visualFeatures "landmarks" (.arr [.float (.fin 1), .null]))) ∧
    ¬ParsedOrRefused (parseClientMessage sampleLibrary
      (visualFeatures "session_position_ms" (.int (-5)))) := by
  constructor
  · have hfails : parseClientMessage sampleLibrary
        (visualFeatures "landmarks" (.arr [.float (.fin 1), .null])) =
          .error (wrongType floatArgument "NoneType") := rfl
    rw [hfails]
    rintro ⟨message, h⟩
    cases h
  · intro h
    have hpos : (0 : ℤ) ≤ -5 := h.2.2
    omega

end OratoriaEngine.Protocol
