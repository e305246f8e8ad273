import OratoriaEngine.Sessions

/-!
# The lifecycle and the clock of a session

Seven operations move a session through its lifecycle table and start or stop its clock.
Whatever the operations and however many are refused, the clock runs exactly while the
session is capturing, so that the captured duration is the wall time spent capturing.
-/

namespace OratoriaEngine

namespace AnalysisSession

inductive Operation
  | beginCapture
  | pauseCapture
  | resumeCapture
  | requestCompletion
  | markCompleted
  | fail
  | markEvidenceDeleted
  deriving DecidableEq, Repr

def Operation.apply (s : AnalysisSession) (wallMs : ℤ) :
    Operation → Except Failure AnalysisSession
  | beginCapture => s.beginCapture wallMs
  | pauseCapture => s.pauseCapture wallMs
  | resumeCapture => s.resumeCapture wallMs
  | requestCompletion => s.requestCompletion wallMs
  | markCompleted => s.markCompleted wallMs
  | fail => s.fail wallMs
  | markEvidenceDeleted => s.markEvidenceDeleted wallMs

/-- An operation and the wall reading it is applied at. -/
structure Moment where
  operation : Operation
  wallMs : ℤ

/-- The session after the operation; a refusal leaves it as it was. -/
def after (s : AnalysisSession) (m : Moment) : AnalysisSession :=
  match m.operation.apply s m.wallMs with
  | .ok t => t
  | .error _ => s

def run (s : AnalysisSession) (moments : List Moment) : AnalysisSession := moments.foldl after s

/-- The wall time spent capturing between two readings, with these operations in between. -/
def capturingTime (s : AnalysisSession) (since : ℤ) : List Moment → ℤ → ℤ
  | [], reading => if s.state = .capturing then reading - since else 0
  | m :: rest, reading =>
      (if s.state = .capturing then m.wallMs - since else 0) +
        (s.after m).capturingTime m.wallMs rest reading

/-- A session that was just created. -/
structure Fresh (s : AnalysisSession) : Prop where
  state : s.state = .created
  clock : s.clock = .initial

/-- The clock runs exactly while the session captures, and did not start after `wallMs`. -/
structure InStep (s : AnalysisSession) (wallMs : ℤ) : Prop where
  running : s.clock.isRunning = true ↔ s.state = .capturing
  begun : ∀ startedAt ∈ s.clock.segmentStartedAt, startedAt ≤ wallMs

theorem Fresh.inStep {s : AnalysisSession} (h : s.Fresh) (wallMs : ℤ) : s.InStep wallMs where
  running := by simp [h.state, h.clock, SessionClock.initial, SessionClock.isRunning]
  begun := by simp [h.clock, SessionClock.initial]

variable {s t : AnalysisSession} {wallMs : ℤ}

/-- An operation that is not refused moves along the table; it starts the clock when it
enters the capturing state and stops it when it leaves that state. -/
theorem apply_eq_ok {operation : Operation} (h : operation.apply s wallMs = .ok t) :
    s.state.canTransition t.state = true ∧
      (t.state = .capturing ∧ t.clock = s.clock.start wallMs ∨
        t.state ≠ .capturing ∧ t.clock = s.clock.pause wallMs ∨
        t.state ≠ .capturing ∧ s.state ≠ .capturing ∧ t.clock = s.clock) := by
  cases operation with
  | beginCapture | resumeCapture =>
      obtain ⟨-, -, h⟩ := Except.bind_eq_ok.1 h
      obtain ⟨state, hs, h⟩ := Except.bind_eq_ok.1 h
      obtain ⟨rfl, hc⟩ := SessionState.requireTransition_eq_ok hs
      cases h
      exact ⟨hc, Or.inl ⟨rfl, rfl⟩⟩
  | pauseCapture | requestCompletion | fail =>
      obtain ⟨state, hs, h⟩ := Except.bind_eq_ok.1 h
      obtain ⟨rfl, hc⟩ := SessionState.requireTransition_eq_ok hs
      cases h
      exact ⟨hc, Or.inr (Or.inl ⟨by simp, rfl⟩)⟩
  | markCompleted =>
      obtain ⟨state, hs, h⟩ := Except.bind_eq_ok.1 h
      obtain ⟨rfl, hc⟩ := SessionState.requireTransition_eq_ok hs
      cases h
      refine ⟨hc, Or.inr (Or.inr ⟨by simp, fun hcapturing => ?_, rfl⟩)⟩
      rw [hcapturing] at hc
      cases hc
  | markEvidenceDeleted =>
      obtain ⟨state, hs, h⟩ := Except.bind_eq_ok.1 h
      obtain ⟨rfl, hc⟩ := SessionState.requireTransition_eq_ok hs
      obtain ⟨withdrawn, -, h⟩ := Except.bind_eq_ok.1 h
      cases h
      refine ⟨hc, Or.inr (Or.inr ⟨by simp, fun hcapturing => ?_, rfl⟩)⟩
      rw [hcapturing] at hc
      cases hc

theorem after_cases (s : AnalysisSession) (m : Moment) :
    s.after m = s ∨ m.operation.apply s m.wallMs = .ok (s.after m) := by
  unfold after
  split <;> simp_all

theorem ne_capturing_of_canTransition (h : s.state.canTransition .capturing = true) :
    s.state ≠ .capturing := by
  intro hcapturing
  rw [hcapturing] at h
  cases h

theorem InStep.later {wallMs' : ℤ} (h : s.InStep wallMs) (hle : wallMs ≤ wallMs') :
    s.InStep wallMs' where
  running := h.running
  begun startedAt hstarted := (h.begun startedAt hstarted).trans hle

theorem InStep.stopped (h : s.InStep wallMs) (hstate : s.state ≠ .capturing) :
    s.clock.segmentStartedAt = none := by
  have hrunning := mt h.running.1 hstate
  simpa [SessionClock.isRunning] using hrunning

/-- Between two operations the captured duration grows with the wall clock while the session
captures, and does not grow otherwise. -/
theorem InStep.capturedMs_elapsed {wallMs' : ℤ} (h : s.InStep wallMs) (hle : wallMs ≤ wallMs') :
    s.capturedMs wallMs' =
      s.capturedMs wallMs + if s.state = .capturing then wallMs' - wallMs else 0 := by
  unfold capturedMs SessionClock.capturedMs SessionClock.now
  have hrunning := h.running
  have hbegun := h.begun
  unfold SessionClock.isRunning at hrunning
  cases hstarted : s.clock.segmentStartedAt with
  | none =>
      rw [hstarted] at hrunning
      rw [if_neg fun hc => by simpa using hrunning.2 hc, add_zero]
  | some startedAt =>
      rw [hstarted] at hrunning hbegun
      have hstart := hbegun startedAt rfl
      rw [if_pos (hrunning.1 rfl)]
      change _ + max 0 _ = _ + max 0 _ + _
      rw [max_eq_right (by omega), max_eq_right (by omega)]
      omega

theorem InStep.after {m : Moment} (h : s.InStep m.wallMs) :
    (s.after m).InStep m.wallMs ∧ (s.after m).capturedMs m.wallMs = s.capturedMs m.wallMs := by
  rcases after_cases s m with hsame | hok
  · rw [hsame]
    exact ⟨h, rfl⟩
  · generalize s.after m = t at hok
    unfold capturedMs SessionClock.capturedMs SessionClock.now
    obtain ⟨hlegal, ⟨hstate, hclock⟩ | ⟨hstate, hclock⟩ | ⟨hstate, hold, hclock⟩⟩ :=
      apply_eq_ok hok
    · rw [hstate] at hlegal
      have hstopped := h.stopped (ne_capturing_of_canTransition hlegal)
      simp only [SessionClock.start, hstopped] at hclock
      refine ⟨⟨by simp [hclock, hstate, SessionClock.isRunning], by simp [hclock]⟩, ?_⟩
      simp [hclock, hstopped]
    · cases hstarted : s.clock.segmentStartedAt with
      | none =>
          simp only [SessionClock.pause, hstarted] at hclock
          refine ⟨⟨by simp [hclock, hstate, hstarted, SessionClock.isRunning],
            by simp [hclock, hstarted]⟩, by simp [hclock, hstarted]⟩
      | some startedAt =>
          simp only [SessionClock.pause, hstarted] at hclock
          exact ⟨⟨by simp [hclock, hstate, SessionClock.isRunning], by simp [hclock]⟩,
            by simp [hclock]⟩
    · have hstopped := h.stopped hold
      exact ⟨⟨by simp [hclock, hstate, hstopped, SessionClock.isRunning],
        by simp [hclock, hstopped]⟩, by simp [hclock, hstopped]⟩

theorem run_append (s : AnalysisSession) (before later : List Moment) :
    s.run (before ++ later) = (s.run before).run later := List.foldl_append

def Readings (since : ℤ) (moments : List Moment) (reading : ℤ) : Prop :=
  (since :: moments.map Moment.wallMs ++ [reading]).Pairwise (· ≤ ·)

theorem readings_nil {since reading : ℤ} : Readings since [] reading ↔ since ≤ reading := by
  simp [Readings]

theorem readings_cons {since reading : ℤ} {m : Moment} {rest : List Moment} :
    Readings since (m :: rest) reading ↔ since ≤ m.wallMs ∧ Readings m.wallMs rest reading := by
  unfold Readings
  simp only [List.map_cons, List.cons_append, List.pairwise_cons, List.mem_cons]
  constructor
  · intro h
    exact ⟨h.1 m.wallMs (Or.inl rfl), h.2⟩
  · rintro ⟨hle, hrest⟩
    refine ⟨?_, hrest⟩
    rintro w (rfl | hw)
    · exact hle
    · exact hle.trans (hrest.1 w hw)

theorem InStep.run {moments : List Moment} {reading : ℤ} (h : s.InStep wallMs)
    (hreadings : Readings wallMs moments reading) :
    (s.run moments).InStep reading ∧
      (s.run moments).capturedMs reading =
        s.capturedMs wallMs + s.capturingTime wallMs moments reading := by
  induction moments generalizing s wallMs with
  | nil =>
      have hle := readings_nil.1 hreadings
      exact ⟨h.later hle, h.capturedMs_elapsed hle⟩
  | cons m rest ih =>
      obtain ⟨hle, hrest⟩ := readings_cons.1 hreadings
      obtain ⟨hinStep, hmoved⟩ := (h.later hle).after
      obtain ⟨hrun, hcaptured⟩ := ih hinStep hrest
      refine ⟨hrun, ?_⟩
      change ((s.after m).run rest).capturedMs reading = _
      rw [hcaptured, hmoved, h.capturedMs_elapsed hle, capturingTime]
      omega

theorem capturingTime_nonneg {moments : List Moment} {reading : ℤ}
    (hreadings : Readings wallMs moments reading) : 0 ≤ s.capturingTime wallMs moments reading := by
  induction moments generalizing s wallMs with
  | nil =>
      have hle := readings_nil.1 hreadings
      unfold capturingTime
      split_ifs <;> omega
  | cons m rest ih =>
      obtain ⟨hle, hrest⟩ := readings_cons.1 hreadings
      have htail := ih (s := s.after m) hrest
      unfold capturingTime
      split_ifs <;> omega

theorem capturingTime_since (h : s.state ≠ .capturing) (since since' : ℤ) (moments : List Moment)
    (reading : ℤ) :
    s.capturingTime since moments reading = s.capturingTime since' moments reading := by
  cases moments with
  | nil => simp [capturingTime, h]
  | cons m rest => simp [capturingTime, h]

theorem exists_later (moments : List Moment) : ∃ reading, ∀ m ∈ moments, m.wallMs ≤ reading := by
  induction moments with
  | nil => exact ⟨0, by simp⟩
  | cons m rest ih =>
      obtain ⟨reading, hreading⟩ := ih
      refine ⟨max m.wallMs reading, fun m' hm' => ?_⟩
      rcases List.mem_cons.1 hm' with rfl | hrest
      · exact le_max_left _ _
      · exact (hreading m' hrest).trans (le_max_right _ _)

theorem exists_readings {moments : List Moment} {reading : ℤ}
    (hordered : (moments.map Moment.wallMs).Pairwise (· ≤ ·))
    (hreading : ∀ m ∈ moments, m.wallMs ≤ reading) : ∃ since, Readings since moments reading := by
  have hall : (moments.map Moment.wallMs ++ [reading]).Pairwise (· ≤ ·) := by
    refine List.pairwise_append.2 ⟨hordered, List.pairwise_singleton _ _, fun w hw r hr => ?_⟩
    obtain ⟨m, hm, rfl⟩ := List.mem_map.1 hw
    rw [List.mem_singleton.1 hr]
    exact hreading m hm
  cases moments with
  | nil => exact ⟨reading, readings_nil.2 le_rfl⟩
  | cons m rest => exact ⟨m.wallMs, readings_cons.2 ⟨le_rfl, hall⟩⟩

theorem after_of_evidenceDeleted (h : s.state = .evidenceDeleted) (m : Moment) :
    s.after m = s := by
  rcases after_cases s m with hsame | hok
  · exact hsame
  · have hlegal := (apply_eq_ok hok).1
    rw [h, SessionState.canTransition_of_evidenceDeleted] at hlegal
    cases hlegal

theorem run_of_evidenceDeleted (h : s.state = .evidenceDeleted) (moments : List Moment) :
    s.run moments = s := by
  induction moments with
  | nil => rfl
  | cons m rest ih =>
      change (s.after m).run rest = s
      rw [after_of_evidenceDeleted h, ih]

/-- What holds of a session after every run of its operations. -/
structure ClockInStep (s : AnalysisSession) (moments : List Moment) : Prop where
  running : (s.run moments).clock.isRunning = true ↔ (s.run moments).state = .capturing
  captured : ∀ reading, (∀ m ∈ moments, m.wallMs ≤ reading) →
    (s.run moments).capturedMs reading = s.capturingTime s.createdAtMs moments reading
  position : ∀ before later reading reading', moments = before ++ later →
    (∀ m ∈ before, m.wallMs ≤ reading) → Readings reading later reading' →
      ((s.run before).position reading).ms ≤ ((s.run moments).position reading').ms
  legal : ∀ before m later, moments = before ++ m :: later →
    s.run (before ++ [m]) = s.run before ∨
      (s.run before).state.canTransition (s.run (before ++ [m])).state = true
  deleted : ∀ before later, moments = before ++ later →
    (s.run before).state = .evidenceDeleted → (s.run moments).state = .evidenceDeleted

/-- The lifecycle and the clock of a new session stay in step, whatever is asked of it at
readings that do not go back. -/
theorem clockInStep_of_fresh {moments : List Moment} (h : s.Fresh)
    (hordered : (moments.map Moment.wallMs).Pairwise (· ≤ ·)) : s.ClockInStep moments := by
  have hstate : s.state ≠ .capturing := by simp [h.state]
  have hrun : ∀ before later reading, moments = before ++ later →
      (∀ m ∈ before, m.wallMs ≤ reading) → (s.run before).InStep reading ∧
        (s.run before).capturedMs reading = s.capturingTime s.createdAtMs before reading := by
    rintro before later reading rfl hreading
    rw [List.map_append] at hordered
    obtain ⟨since, hreadings⟩ := exists_readings (List.pairwise_append.1 hordered).1 hreading
    obtain ⟨hinStep, hcaptured⟩ := (h.inStep since).run hreadings
    refine ⟨hinStep, ?_⟩
    have hzero : s.capturedMs since = 0 := by
      simp [capturedMs, SessionClock.capturedMs, SessionClock.now, h.clock, SessionClock.initial]
    rw [hcaptured, hzero, zero_add]
    exact capturingTime_since hstate _ _ _ _
  refine ⟨?_, ?_, ?_, ?_, ?_⟩
  · obtain ⟨reading, hreading⟩ := exists_later moments
    exact (hrun moments [] reading (List.append_nil _).symm hreading).1.running
  · intro reading hreading
    exact (hrun moments [] reading (List.append_nil _).symm hreading).2
  · intro before later reading reading' hsplit hreading hlater
    have hinStep := (hrun before later reading hsplit hreading).1
    have hcaptured := (hinStep.run hlater).2
    have hnonneg := capturingTime_nonneg (s := s.run before) hlater
    rw [hsplit, run_append]
    change (s.run before).capturedMs reading ≤ ((s.run before).run later).capturedMs reading'
    omega
  · intro before m later _
    rw [run_append]
    rcases after_cases (s.run before) m with hsame | hok
    · exact Or.inl hsame
    · exact Or.inr (apply_eq_ok hok).1
  · rintro before later rfl hdeleted
    rw [run_append, run_of_evidenceDeleted hdeleted]
    exact hdeleted

def rehearsal : AnalysisSession where
  id := ⟨⟨"rehearsal", by decide⟩⟩
  applicationId := ⟨⟨"rehearsal-application", by decide⟩⟩
  tenantId := ⟨⟨"rehearsal-tenant", by decide⟩⟩
  mode := .realtime
  locale := "es-PE"
  capabilities := ⟨.opus, 48000, "es-PE", none, none⟩
  configuration := ⟨⟨"rehearsal-rules", by decide⟩⟩
  createdAtMs := 0
  state := .created
  clock := .initial
  consent := some ⟨⟨⟨"rehearsal", by decide⟩⟩, ⟨2, 0, 0⟩, .ephemeral ⟨2, 0, 0⟩, 5, none,
    by decide, by simp, rfl⟩
  completedAtMs := none

/-- Half a second of capture, a pause, another second, and a refused resumption. -/
theorem clockInStep_rehearsal :
    rehearsal.ClockInStep [⟨.beginCapture, 1000⟩, ⟨.pauseCapture, 1500⟩, ⟨.resumeCapture, 4000⟩,
      ⟨.requestCompletion, 5000⟩, ⟨.resumeCapture, 6000⟩, ⟨.markCompleted, 7000⟩] :=
  clockInStep_of_fresh ⟨rfl, rfl⟩ (by decide)

end AnalysisSession

end OratoriaEngine
