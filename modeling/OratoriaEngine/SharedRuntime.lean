import OratoriaEngine.DeterministicRuntime
import OratoriaEngine.MediaGate
import OratoriaEngine.ModalityIsolation

/-!
# One runtime for every session

The container builds one speech runtime and one vision runtime and hands them to every
connection. A session obtains what it would obtain alone as long as the others have moved
neither the stable point past a word it still needs nor the counters past a scripted failure.
-/

namespace OratoriaEngine

open Stateful

/-- A session's stream, and what the runtimes answered it. -/
structure Feed where
  stream : Stream
  transcribed : List (Except Failure SpeechResult)
  observed : List (Except Failure VisualResult)

structure Container (ι : Type) where
  speech : DeterministicSpeechRuntime
  vision : DeterministicVisionRuntime
  feeds : ι → Feed

/-- A media message of one session, on its own channel. -/
structure MediaMessage (ι : Type) where
  session : ι
  call : Coordinator.IngestCall
  channel : EventChannel

namespace Container

variable {ι : Type} [DecidableEq ι]

/-- A container none of whose sessions has streamed anything. -/
def fresh (speechScript : SpeechScript) (visualScript : VisualScript) (runId : ι → RunId)
    (sessionId : ι → SessionId) : Container ι where
  speech := .fresh speechScript
  vision := .fresh visualScript
  feeds i := ⟨.fresh (runId i) (sessionId i), [], []⟩

/-- The ports a connection meets now. -/
def ports (k : Container ι) (channel : EventChannel) : StreamPorts where
  speech window := (exec (DeterministicSpeechRuntime.transcribe window) k.speech).1
  vision frames := (exec (DeterministicVisionRuntime.observe frames) k.vision).1
  channel := channel

/-- The shared runtime a message reached has moved on, and has answered the session. -/
def answered (k : Container ι) (own : Feed) (stream : Stream) (i : ι) :
    Coordinator.IngestCall → Container ι
  | .audio _ window =>
      let (answer, speech) := exec (DeterministicSpeechRuntime.transcribe window) k.speech
      { k with
        speech := speech
        feeds := Function.update k.feeds i
          { own with stream := stream, transcribed := own.transcribed ++ [answer] } }
  | .video _ frames =>
      let (answer, vision) := exec (DeterministicVisionRuntime.observe frames) k.vision
      { k with
        vision := vision
        feeds := Function.update k.feeds i
          { own with stream := stream, observed := own.observed ++ [answer] } }

def unanswered (k : Container ι) (own : Feed) (stream : Stream) (i : ι) : Container ι :=
  { k with feeds := Function.update k.feeds i { own with stream := stream } }

def ingest (coordinators : ι → Coordinator) (k : Container ι) (m : MediaMessage ι) :
    Container ι :=
  let own := k.feeds m.session
  let stream := (coordinators m.session).after own.stream ⟨k.ports m.channel, m.call⟩
  if own.stream.runtimeCalls.length < stream.runtimeCalls.length then
    k.answered own stream m.session m.call
  else k.unanswered own stream m.session

/-- The messages of all sessions, in the order in which they arrive. -/
def stream (coordinators : ι → Coordinator) (k : Container ι) (messages : List (MediaMessage ι)) :
    Container ι :=
  messages.foldl (ingest coordinators) k

end Container

namespace DeterministicSpeechRuntime

def spans (script : SpeechScript) : List (ℤ × ℤ) :=
  script.words.map (fun word => (word.startMs, word.endMs)) ++
    script.events.map fun event => (event.startMs, event.endMs)

/-- Both runtimes fail, or neither does and no word or event the window reaches is stable in
the second alone. -/
def Agree (r r' : DeterministicSpeechRuntime) (window : AudioWindow) : Prop :=
  (r.failing ↔ r'.failing) ∧ (¬r'.failing → ∀ span ∈ spans r.script,
    span.1 < window.endMs → r.stableMs < span.2 → r'.stableMs < span.2)

instance (r r' : DeterministicSpeechRuntime) (window : AudioWindow) :
    Decidable (Agree r r' window) := inferInstanceAs (Decidable (_ ∧ _))

theorem filter_map_eq_iff {α β : Type} {l : List α} {p q : α → Bool} {f : α → β}
    (hqp : ∀ x, q x = true → p x = true) :
    (l.filter p).map f = (l.filter q).map f ↔ ∀ x ∈ l, p x = true → q x = true := by
  have hq : l.filter q = (l.filter p).filter q := by
    rw [List.filter_filter]
    apply List.filter_congr
    intro x _
    cases hx : q x with
    | true => simp [hqp x hx]
    | false => simp
  constructor
  · intro h x hx hpx
    have hlength := congrArg List.length h
    rw [List.length_map, List.length_map, hq] at hlength
    exact List.length_filter_eq_length_iff.1 hlength.symm x (List.mem_filter.2 ⟨hx, hpx⟩)
  · intro h
    have hsame : (l.filter p).filter q = l.filter p := List.filter_eq_self.2 fun x hx => by
      obtain ⟨hmem, hpx⟩ := List.mem_filter.1 hx
      exact h x hmem hpx
    rw [hq, hsame]

theorem emitted_eq_iff {script : SpeechScript} {stableMs stableMs' : ℤ} {window : AudioWindow}
    (hle : stableMs ≤ stableMs') :
    emitted script stableMs window = emitted script stableMs' window ↔
      ∀ span ∈ spans script, span.1 < window.endMs → stableMs < span.2 → stableMs' < span.2 := by
  have hactive : ∀ startMs endMs, active stableMs' window startMs endMs = true →
      active stableMs window startMs endMs = true := by
    intro startMs endMs h
    simp only [active, Bool.and_eq_true, decide_eq_true_eq] at h ⊢
    omega
  have hwords := filter_map_eq_iff (l := script.words) (f := ScriptedWord.hypothesis)
    (p := fun word => active stableMs window word.startMs word.endMs)
    (q := fun word => active stableMs' window word.startMs word.endMs) fun _ => hactive _ _
  have hevents := filter_map_eq_iff (l := script.events) (f := ScriptedSpeechEvent.hypothesis)
    (p := fun event => active stableMs window event.startMs event.endMs)
    (q := fun event => active stableMs' window event.startMs event.endMs) fun _ => hactive _ _
  simp only [emitted, SpeechResult.mk.injEq, true_and, and_true]
  rw [hwords, hevents]
  simp only [spans, List.mem_append, List.mem_map, active, Bool.and_eq_true, decide_eq_true_eq]
  constructor
  · rintro ⟨hword, hevent⟩ _ (⟨word, hmem, rfl⟩ | ⟨event, hmem, rfl⟩) hstart hend
    · exact (hword word hmem ⟨hend, hstart⟩).1
    · exact (hevent event hmem ⟨hend, hstart⟩).1
  · intro h
    exact ⟨fun word hmem hspan => ⟨h _ (Or.inl ⟨word, hmem, rfl⟩) hspan.2 hspan.1, hspan.2⟩,
      fun event hmem hspan => ⟨h _ (Or.inr ⟨event, hmem, rfl⟩) hspan.2 hspan.1, hspan.2⟩⟩

/-- Two runtimes on one script answer a window alike exactly when they agree on it. -/
theorem transcribe_eq_iff (r r' : DeterministicSpeechRuntime) (hscript : r'.script = r.script)
    (hle : ¬r.failing → ¬r'.failing → r.stableMs ≤ r'.stableMs) (window : AudioWindow) :
    (exec (transcribe window) r).1 = (exec (transcribe window) r').1 ↔ Agree r r' window := by
  by_cases hr : r.failing
  · rw [exec_transcribe_of_failing hr]
    by_cases hr' : r'.failing
    · rw [exec_transcribe_of_failing hr']
      exact iff_of_true rfl ⟨iff_of_true hr hr', fun h => absurd hr' h⟩
    · rw [exec_transcribe_of_not_failing hr']
      exact iff_of_false (fun h => nomatch h) fun h => hr' (h.1.1 hr)
  · rw [exec_transcribe_of_not_failing hr]
    by_cases hr' : r'.failing
    · rw [exec_transcribe_of_failing hr']
      exact iff_of_false (fun h => nomatch h) fun h => hr (h.1.2 hr')
    · rw [exec_transcribe_of_not_failing hr', hscript, Except.ok.injEq,
        emitted_eq_iff (hle hr hr')]
      exact ⟨fun h => ⟨iff_of_false hr hr', fun _ => h⟩, fun h => h.2 hr'⟩

variable {script : SpeechScript}

variable (script) in
/-- A runtime has seen what it was sent; its stable point is theirs as long as it does not fail. -/
theorem exists_foldl_after (heard : List AudioWindow) :
    ∃ stableMs, heard.foldl after (fresh script) = ⟨script, heard.length, stableMs⟩ ∧
      (¬failing ⟨script, heard.length, stableMs⟩ → stableMs = stablePoint script heard) := by
  induction heard using List.reverseRecOn with
  | nil => exact ⟨0, rfl, fun _ => rfl⟩
  | append_singleton heard window ih =>
      obtain ⟨stableMs, hfold, hpoint⟩ := ih
      rw [List.foldl_append, hfold, List.foldl_cons, List.foldl_nil, after, stablePoint_concat,
        List.length_append]
      by_cases hfailing : failing ⟨script, heard.length, stableMs⟩
      · rw [exec_transcribe_of_failing hfailing]
        refine ⟨stableMs, by simp, fun hnot => absurd ?_ hnot⟩
        obtain ⟨limit, hlimit, hlt⟩ := Option.any_eq_true _ _ |>.1 hfailing
        refine Option.any_eq_true _ _ |>.2 ⟨limit, hlimit, ?_⟩
        simp only [decide_eq_true_eq] at hlt ⊢
        push_cast
        omega
      · rw [exec_transcribe_of_not_failing hfailing]
        exact ⟨max stableMs (script.stableThrough window), by simp,
          fun _ => by rw [hpoint hfailing]⟩

theorem stablePoint_le_iff (heard : List AudioWindow) (ms : ℤ) :
    stablePoint script heard ≤ ms ↔
      0 ≤ ms ∧ ∀ window ∈ heard, script.stableThrough window ≤ ms := by
  induction heard using List.reverseRecOn with
  | nil => simp [stablePoint]
  | append_singleton heard window ih =>
      rw [stablePoint_concat, max_le_iff, ih, and_assoc]
      simp only [List.mem_append, List.mem_singleton, or_imp, forall_and, forall_eq]

theorem stablePoint_le_of_subset {heard windows : List AudioWindow} (h : heard ⊆ windows) :
    stablePoint script heard ≤ stablePoint script windows := by
  obtain ⟨h0, hall⟩ := (stablePoint_le_iff windows (stablePoint script windows)).1 le_rfl
  exact (stablePoint_le_iff heard _).2 ⟨h0, fun window hwindow => hall window (h hwindow)⟩

/-- The runtime fails on the window, or it does not fail on it next time either and no word or
event that it emits ends by the stable point it reports. -/
def Repeats (r : DeterministicSpeechRuntime) (window : AudioWindow) : Prop :=
  r.failing ∨ ¬failing { r with windowsSeen := r.windowsSeen + 1 } ∧ ∀ span ∈ spans r.script,
    span.1 < window.endMs → r.stableMs < span.2 → r.script.stableThrough window < span.2

theorem transcribe_again_iff (r : DeterministicSpeechRuntime) (window : AudioWindow) :
    (exec (transcribe window) (r.after window)).1 = (exec (transcribe window) r).1 ↔
      r.Repeats window := by
  by_cases hr : r.failing
  · have hagain : (r.after window).failing := by
      rw [after, exec_transcribe_of_failing hr]
      obtain ⟨limit, hlimit, hlt⟩ := (Option.any_eq_true _ _).1 hr
      refine (Option.any_eq_true _ _).2 ⟨limit, hlimit, ?_⟩
      simp only [decide_eq_true_eq] at hlt ⊢
      omega
    rw [exec_transcribe_of_failing hagain, exec_transcribe_of_failing hr]
    exact iff_of_true rfl (Or.inl hr)
  · have hafter : r.after window = { r with
        windowsSeen := r.windowsSeen + 1
        stableMs := max r.stableMs (r.script.stableThrough window) } := by
      rw [after, exec_transcribe_of_not_failing hr]
    have hle : r.stableMs ≤ (r.after window).stableMs := by
      rw [hafter]
      exact le_max_left _ _
    rw [eq_comm, transcribe_eq_iff r (r.after window) (by rw [hafter])
      (fun _ _ => hle), hafter]
    refine ⟨fun h => Or.inr ⟨fun hnext => hr (h.1.2 hnext), fun span hspan hstart hend => ?_⟩,
      fun h => ?_⟩
    · exact (max_lt_iff.1 (h.2 (fun hnext => hr (h.1.2 hnext)) span hspan hstart hend)).2
    · obtain ⟨hnext, hopen⟩ := h.resolve_left hr
      exact ⟨iff_of_false hr hnext, fun _ span hspan hstart hend =>
        max_lt_iff.2 ⟨hend, hopen span hspan hstart hend⟩⟩

end DeterministicSpeechRuntime

namespace Coordinator

variable (c : Coordinator)

def SameAnswer (p p' : StreamPorts) : IngestCall → Prop
  | .audio _ window => p.speech window = p'.speech window
  | .video _ frames => p.vision frames = p'.vision frames

theorem exec_ingest_of_not_admitted {α : Type} {modality : Modality} {sequence : ℤ} {t : Stream}
    (ports : StreamPorts) (call : RuntimeCall) (answer answer' : Except Failure α)
    (absorb : α → StreamAction Unit) (h : ¬(Novel t modality sequence ∧ HasRoom c t)) :
    exec (ingest c ports modality call answer absorb sequence) t =
      exec (ingest c ports modality call answer' absorb sequence) t := by
  by_cases h0 : sequence < 0
  · rw [exec_ingest_of_neg c ports call answer absorb h0,
      exec_ingest_of_neg c ports call answer' absorb h0]
  by_cases hmem : sequence ∈ (t.state.ledgerFor modality).acceptedSet
  · rw [exec_ingest_of_duplicate c ports call answer absorb (not_lt.1 h0) hmem,
      exec_ingest_of_duplicate c ports call answer' absorb (not_lt.1 h0) hmem]
  have hnovel : Novel t modality sequence := ⟨not_lt.1 h0, hmem⟩
  obtain ⟨v, l, -, hv, -, ho⟩ := exists_offer_of_novel hnovel
  have hfull : ¬HasRoom c (withChunks t modality l) :=
    fun hroom => h ⟨hnovel, (hasRoom_withChunks c).1 hroom⟩
  obtain ⟨e, requests, hadmit⟩ := exec_admit_of_ge c ports hfull
  simp only [ingest, exec_bind, ho, if_neg hv, hadmit]

theorem after_congr (p p' : StreamPorts) (hchannel : p.channel = p'.channel) (t : Stream)
    (call : IngestCall) (h : Admits c t call → SameAnswer p p' call) :
    c.after t ⟨p, call⟩ = c.after t ⟨p', call⟩ := by
  obtain ⟨speech, vision, channel⟩ := p
  obtain ⟨speech', vision', channel'⟩ := p'
  change channel = channel' at hchannel
  subst hchannel
  obtain ⟨sequence, window⟩ | ⟨sequence, frames⟩ := call
  · have hingest : exec (ingest c ⟨speech', vision', channel⟩ .audio (.transcribe window)
        (speech window) (absorbSpeech c ⟨speech', vision', channel⟩) sequence) t =
        exec (ingest c ⟨speech', vision', channel⟩ .audio (.transcribe window)
          (speech' window) (absorbSpeech c ⟨speech', vision', channel⟩) sequence) t := by
      by_cases hadmits : Admits c t (.audio sequence window)
      · have hanswer : speech window = speech' window := h hadmits
        rw [hanswer]
      · exact exec_ingest_of_not_admitted c _ _ _ _ _ hadmits
    exact congrArg Prod.snd hingest
  · have hingest : exec (ingest c ⟨speech', vision', channel⟩ .video (.observe frames)
        (vision frames) (absorbVisual c ⟨speech', vision', channel⟩) sequence) t =
        exec (ingest c ⟨speech', vision', channel⟩ .video (.observe frames)
          (vision' frames) (absorbVisual c ⟨speech', vision', channel⟩) sequence) t := by
      by_cases hadmits : Admits c t (.video sequence frames)
      · have hanswer : vision frames = vision' frames := h hadmits
        rw [hanswer]
      · exact exec_ingest_of_not_admitted c _ _ _ _ _ hadmits
    exact congrArg Prod.snd hingest

end Coordinator

namespace Container

open Coordinator

variable {ι : Type} [DecidableEq ι] (coordinators : ι → Coordinator)

def sent (k : Container ι) (m : MediaMessage ι) : List RuntimeCall :=
  passed (coordinators m.session) (k.feeds m.session).stream ⟨k.ports m.channel, m.call⟩

variable {coordinators} {k : Container ι} {m : MediaMessage ι}

theorem ingest_of_admits
    (h : Admits (coordinators m.session) (k.feeds m.session).stream m.call) :
    k.ingest coordinators m = k.answered (k.feeds m.session)
      ((coordinators m.session).after (k.feeds m.session).stream ⟨k.ports m.channel, m.call⟩)
      m.session m.call := by
  have hcalls := runtimeCalls_after (coordinators m.session) (k.feeds m.session).stream
    ⟨k.ports m.channel, m.call⟩
  rw [if_pos h] at hcalls
  exact if_pos (by rw [hcalls, List.length_append]; exact Nat.lt_succ_self _)

theorem ingest_of_not_admits
    (h : ¬Admits (coordinators m.session) (k.feeds m.session).stream m.call) :
    k.ingest coordinators m = k.unanswered (k.feeds m.session)
      ((coordinators m.session).after (k.feeds m.session).stream ⟨k.ports m.channel, m.call⟩)
      m.session := by
  have hcalls := runtimeCalls_after (coordinators m.session) (k.feeds m.session).stream
    ⟨k.ports m.channel, m.call⟩
  rw [if_neg h] at hcalls
  exact if_neg (by rw [hcalls]; exact lt_irrefl _)

omit [DecidableEq ι] in
theorem sent_eq : k.sent coordinators m =
    if Admits (coordinators m.session) (k.feeds m.session).stream m.call then
      [m.call.runtimeCall] else [] :=
  passed_eq _ _ _

theorem feeds_ingest_of_ne {i : ι} (h : i ≠ m.session) :
    (k.ingest coordinators m).feeds i = k.feeds i := by
  by_cases hadmits : Admits (coordinators m.session) (k.feeds m.session).stream m.call
  · rw [ingest_of_admits hadmits]
    obtain ⟨session, ⟨sequence, window⟩ | ⟨sequence, frames⟩, channel⟩ := m <;>
      exact Function.update_of_ne h _ _
  · rw [ingest_of_not_admits hadmits]
    exact Function.update_of_ne h _ _

theorem stream_ingest : ((k.ingest coordinators m).feeds m.session).stream =
    (coordinators m.session).after (k.feeds m.session).stream ⟨k.ports m.channel, m.call⟩ := by
  by_cases hadmits : Admits (coordinators m.session) (k.feeds m.session).stream m.call
  · rw [ingest_of_admits hadmits]
    obtain ⟨session, ⟨sequence, window⟩ | ⟨sequence, frames⟩, channel⟩ := m <;>
      simp [answered]
  · rw [ingest_of_not_admits hadmits]
    simp [unanswered]

theorem runtimeCalls_stream_ingest :
    ((k.ingest coordinators m).feeds m.session).stream.runtimeCalls =
      (k.feeds m.session).stream.runtimeCalls ++ k.sent coordinators m := by
  rw [stream_ingest, runtimeCalls_after, sent_eq]
  split_ifs
  · rfl
  · exact (List.append_nil _).symm

/-- The runtimes have been through these windows and this many batches. -/
structure Replays (speechScript : SpeechScript) (visualScript : VisualScript) (k : Container ι)
    (calls : List RuntimeCall) : Prop where
  speech : k.speech = (calls.filterMap RuntimeCall.window?).foldl
    DeterministicSpeechRuntime.after (.fresh speechScript)
  vision : k.vision = ⟨visualScript, (calls.filterMap RuntimeCall.frames?).length⟩

variable {speechScript : SpeechScript} {visualScript : VisualScript} {calls : List RuntimeCall}

theorem Replays.ingest (h : Replays speechScript visualScript k calls) (m : MediaMessage ι) :
    Replays speechScript visualScript (k.ingest coordinators m)
      (calls ++ k.sent coordinators m) := by
  rw [sent_eq]
  split_ifs with hadmits
  · rw [ingest_of_admits hadmits]
    obtain ⟨session, ⟨sequence, window⟩ | ⟨sequence, frames⟩, channel⟩ := m
    · refine ⟨?_, ?_⟩
      · rw [List.filterMap_append, List.foldl_append, ← h.speech]
        rfl
      · rw [List.filterMap_append, List.length_append]
        exact h.vision.trans rfl
    · refine ⟨?_, ?_⟩
      · rw [List.filterMap_append, List.foldl_append, ← h.speech]
        rfl
      · rw [List.filterMap_append, List.length_append]
        change (exec (DeterministicVisionRuntime.observe frames) k.vision).2 = _
        rw [DeterministicVisionRuntime.exec_observe, h.vision]
        rfl
  · rw [ingest_of_not_admits hadmits, List.append_nil]
    exact ⟨h.speech, h.vision⟩

omit [DecidableEq ι] in
theorem replays_fresh (runId : ι → RunId) (sessionId : ι → SessionId) :
    Replays speechScript visualScript (fresh speechScript visualScript runId sessionId) [] :=
  ⟨rfl, rfl⟩

theorem stream_concat (k : Container ι) (messages : List (MediaMessage ι)) (m : MediaMessage ι) :
    k.stream coordinators (messages ++ [m]) =
      (k.stream coordinators messages).ingest coordinators m := List.foldl_append

variable (coordinators) (speechScript) (visualScript) in
theorem exists_replays (runId : ι → RunId) (sessionId : ι → SessionId)
    (messages : List (MediaMessage ι)) :
    ∃ calls, Replays speechScript visualScript ((fresh speechScript visualScript runId
        sessionId).stream coordinators messages) calls ∧
      ∀ i, (((fresh speechScript visualScript runId sessionId).stream coordinators
        messages).feeds i).stream.runtimeCalls ⊆ calls := by
  induction messages using List.reverseRecOn with
  | nil => exact ⟨[], replays_fresh runId sessionId, fun i => List.Subset.refl _⟩
  | append_singleton messages m ih =>
      obtain ⟨calls, hreplays, hsub⟩ := ih
      rw [stream_concat]
      refine ⟨_, hreplays.ingest m, fun i => ?_⟩
      by_cases hi : i = m.session
      · rw [hi, runtimeCalls_stream_ingest]
        exact List.append_subset.2 ⟨List.Subset.trans (hsub _) (List.subset_append_left _ _),
          List.subset_append_right _ _⟩
      · rw [feeds_ingest_of_ne hi]
        exact List.Subset.trans (hsub i) (List.subset_append_left _ _)

variable (coordinators) (speechScript) (visualScript) in
theorem replays_alone (runId : ι → RunId) (sessionId : ι → SessionId) (i : ι)
    (messages : List (MediaMessage ι)) (h : ∀ m ∈ messages, m.session = i) :
    Replays speechScript visualScript
      ((fresh speechScript visualScript runId sessionId).stream coordinators messages)
      (((fresh speechScript visualScript runId sessionId).stream coordinators
        messages).feeds i).stream.runtimeCalls := by
  induction messages using List.reverseRecOn with
  | nil => exact replays_fresh runId sessionId
  | append_singleton messages m ih =>
      have hbefore := ih fun m' hm' => h m' (List.mem_append_left _ hm')
      obtain rfl := h m (List.mem_append_right _ List.mem_cons_self)
      rw [stream_concat, runtimeCalls_stream_ingest]
      exact hbefore.ingest m

/-- What a session's own windows would have made of the runtime. -/
def ownSpeech (k : Container ι) (i : ι) : DeterministicSpeechRuntime where
  script := k.speech.script
  windowsSeen := (k.feeds i).stream.heard.length
  stableMs := DeterministicSpeechRuntime.stablePoint k.speech.script (k.feeds i).stream.heard

/-- What a session's own batches would have made of the runtime. -/
def ownVision (k : Container ι) (i : ι) : DeterministicVisionRuntime where
  script := k.vision.script
  batchesSeen := (k.feeds i).stream.seen.length

variable (coordinators) in
/-- If the message reaches its runtime, the calls of the other sessions have not changed what
there is to answer. -/
def Undisturbed (k : Container ι) (m : MediaMessage ι) : Prop :=
  Admits (coordinators m.session) (k.feeds m.session).stream m.call →
    match m.call with
    | .audio _ window => (k.ownSpeech m.session).Agree k.speech window
    | .video _ _ => (k.ownVision m.session).failing ↔ k.vision.failing

end Container

namespace DeterministicSpeechRuntime

theorem agree_congr {r r' own : DeterministicSpeechRuntime} {window : AudioWindow}
    (hscript : own.script = r.script) (hseen : own.windowsSeen = r.windowsSeen)
    (hstable : ¬r.failing → own.stableMs = r.stableMs) :
    Agree own r' window ↔ Agree r r' window := by
  have hfailing : own.failing ↔ r.failing := by
    unfold failing
    rw [hscript, hseen]
  unfold Agree
  rw [hfailing, hscript]
  refine and_congr_right fun hsame => forall_congr' fun hnot => ?_
  rw [hstable fun h => hnot (hsame.1 h)]

end DeterministicSpeechRuntime

namespace DeterministicVisionRuntime

theorem observe_eq_iff (r r' : DeterministicVisionRuntime) (hscript : r'.script = r.script)
    (frames : List VisualFrame) :
    (exec (observe frames) r).1 = (exec (observe frames) r').1 ↔ (r.failing ↔ r'.failing) := by
  rw [exec_observe, exec_observe, hscript]
  by_cases hr : r.failing <;> by_cases hr' : r'.failing <;> simp [hr, hr']

end DeterministicVisionRuntime

/-- The answers part ways: up to a point they are the same, and then they differ. -/
def Forks {α : Type} (f g : List α) : Prop :=
  ∃ common x y, x ≠ y ∧ common ++ [x] <+: f ∧ common ++ [y] <+: g

theorem Forks.ne {α : Type} {f g : List α} (h : Forks f g) : f ≠ g := by
  obtain ⟨common, x, y, hne, hf, hg⟩ := h
  rintro rfl
  have hsame := (List.prefix_of_prefix_length_le hf hg (by simp)).eq_of_length (by simp)
  exact hne (List.singleton_inj.1 (List.append_cancel_left hsame))

theorem Forks.mono {α : Type} {f f' g g' : List α} (h : Forks f g) (hf : f <+: f')
    (hg : g <+: g') : Forks f' g' := by
  obtain ⟨common, x, y, hne, hxf, hyg⟩ := h
  exact ⟨common, x, y, hne, hxf.trans hf, hyg.trans hg⟩

def Feed.Parted (f g : Feed) : Prop :=
  Forks f.transcribed g.transcribed ∨ Forks f.observed g.observed

theorem Feed.Parted.ne {f g : Feed} (h : Feed.Parted f g) : f ≠ g := by
  rintro rfl
  rcases h with h | h <;> exact h.ne rfl

namespace Container

open Coordinator

variable {ι : Type} {coordinators : ι → Coordinator} {k a : Container ι}
  {m : MediaMessage ι} {speechScript : SpeechScript} {visualScript : VisualScript}
  {calls : List RuntimeCall}

variable (coordinators) in
/-- The shared runtimes answer a message as the session's own would exactly when it is not
disturbed. -/
theorem sameAnswer_iff (hk : Replays speechScript visualScript k calls)
    (hsub : (k.feeds m.session).stream.runtimeCalls ⊆ calls)
    (ha : Replays speechScript visualScript a (k.feeds m.session).stream.runtimeCalls) :
    (Admits (coordinators m.session) (k.feeds m.session).stream m.call →
        SameAnswer (a.ports m.channel) (k.ports m.channel) m.call) ↔
      Undisturbed coordinators k m := by
  refine forall_congr' fun _ => ?_
  obtain ⟨session, ⟨sequence, window⟩ | ⟨sequence, frames⟩, channel⟩ := m
  · obtain ⟨stableMs, haspeech, hastable⟩ :=
      DeterministicSpeechRuntime.exists_foldl_after speechScript
        (k.feeds session).stream.heard
    obtain ⟨stableMs', hkspeech, hkstable⟩ :=
      DeterministicSpeechRuntime.exists_foldl_after speechScript
        (calls.filterMap RuntimeCall.window?)
    have hown : a.speech = ⟨speechScript, (k.feeds session).stream.heard.length, stableMs⟩ :=
      ha.speech.trans haspeech
    have hshared := hk.speech.trans hkspeech
    have hscript : k.speech.script = speechScript := by rw [hshared]
    have hwindows : (k.feeds session).stream.heard ⊆ calls.filterMap RuntimeCall.window? :=
      List.filterMap_subset _ hsub
    refine (DeterministicSpeechRuntime.transcribe_eq_iff a.speech k.speech
      (by rw [hown, hshared]) (fun hr hr' => ?_) window).trans ?_
    · rw [hown] at hr ⊢
      rw [hshared] at hr' ⊢
      rw [hastable hr, hkstable hr']
      exact DeterministicSpeechRuntime.stablePoint_le_of_subset hwindows
    · refine (DeterministicSpeechRuntime.agree_congr ?_ ?_ fun hr => ?_).symm
      · rw [hown]
        exact hscript
      · rw [hown]
        rfl
      · rw [hown] at hr ⊢
        rw [hastable hr]
        exact congrArg (DeterministicSpeechRuntime.stablePoint · _) hscript
  · have hown : a.vision = k.ownVision session := by
      rw [ha.vision, ownVision, hk.vision]
      rfl
    refine (DeterministicVisionRuntime.observe_eq_iff a.vision k.vision
      (by rw [ha.vision, hk.vision]) frames).trans ?_
    rw [hown]

variable [DecidableEq ι]

variable (coordinators) in
theorem answers_ingest (k : Container ι) (m : MediaMessage ι) (i : ι) :
    (k.feeds i).transcribed <+: ((k.ingest coordinators m).feeds i).transcribed ∧
      (k.feeds i).observed <+: ((k.ingest coordinators m).feeds i).observed := by
  by_cases hi : i = m.session
  · subst hi
    by_cases hadmits : Admits (coordinators m.session) (k.feeds m.session).stream m.call
    · rw [ingest_of_admits hadmits]
      obtain ⟨session, ⟨sequence, window⟩ | ⟨sequence, frames⟩, channel⟩ := m <;>
        simp [answered]
    · rw [ingest_of_not_admits hadmits]
      simp [unanswered]
  · rw [feeds_ingest_of_ne hi]
    exact ⟨List.prefix_refl _, List.prefix_refl _⟩

theorem feeds_ingest_congr (h : k.feeds m.session = a.feeds m.session)
    (hanswer : Admits (coordinators m.session) (k.feeds m.session).stream m.call →
      SameAnswer (a.ports m.channel) (k.ports m.channel) m.call) :
    (k.ingest coordinators m).feeds m.session = (a.ingest coordinators m).feeds m.session := by
  have hafter := after_congr (coordinators m.session) (a.ports m.channel)
    (k.ports m.channel) rfl (k.feeds m.session).stream m.call hanswer
  by_cases hadmits : Admits (coordinators m.session) (k.feeds m.session).stream m.call
  · have hsame := hanswer hadmits
    rw [ingest_of_admits hadmits, ingest_of_admits (h ▸ hadmits), ← h, hafter]
    obtain ⟨session, ⟨sequence, window⟩ | ⟨sequence, frames⟩, channel⟩ := m
    · simp only [answered, Function.update_self, Feed.mk.injEq, true_and, and_true]
      rw [show (exec (DeterministicSpeechRuntime.transcribe window) k.speech).1 = _ from hsame.symm]
      rfl
    · simp only [answered, Function.update_self, Feed.mk.injEq, true_and]
      rw [show (exec (DeterministicVisionRuntime.observe frames) k.vision).1 = _ from hsame.symm]
      rfl
  · rw [ingest_of_not_admits hadmits, ingest_of_not_admits (h ▸ hadmits), ← h, hafter]
    simp [unanswered]

theorem parted_ingest (h : k.feeds m.session = a.feeds m.session)
    (hadmits : Admits (coordinators m.session) (k.feeds m.session).stream m.call)
    (hanswer : ¬SameAnswer (a.ports m.channel) (k.ports m.channel) m.call) :
    Feed.Parted ((k.ingest coordinators m).feeds m.session)
      ((a.ingest coordinators m).feeds m.session) := by
  rw [ingest_of_admits hadmits, ingest_of_admits (h ▸ hadmits), ← h]
  obtain ⟨session, ⟨sequence, window⟩ | ⟨sequence, frames⟩, channel⟩ := m
  · refine Or.inl ⟨(k.feeds session).transcribed, _, _, fun hsame => hanswer hsame.symm, ?_, ?_⟩ <;>
      simp [answered, ports]
  · refine Or.inr ⟨(k.feeds session).observed, _, _, fun hsame => hanswer hsame.symm, ?_, ?_⟩ <;>
      simp [answered, ports]

variable (coordinators) in
/-- Every session ends with the stream and the answers it would have alone. -/
def Isolated (k : Container ι) (messages : List (MediaMessage ι)) : Prop :=
  ∀ i, (k.stream coordinators messages).feeds i =
    (k.stream coordinators (messages.filter fun m => m.session = i)).feeds i

variable (coordinators) in
/-- No message of the run is disturbed. -/
def NeverDisturbed (k : Container ι) (messages : List (MediaMessage ι)) : Prop :=
  ∀ before m rest, messages = before ++ m :: rest →
    Undisturbed coordinators (k.stream coordinators before) m

theorem neverDisturbed_concat {messages : List (MediaMessage ι)} :
    NeverDisturbed coordinators k (messages ++ [m]) ↔
      NeverDisturbed coordinators k messages ∧
        Undisturbed coordinators (k.stream coordinators messages) m := by
  constructor
  · intro h
    refine ⟨fun before m' rest heq => h before m' (rest ++ [m]) ?_, h messages m [] rfl⟩
    rw [heq, List.append_assoc, List.cons_append]
  · rintro ⟨hbefore, hlast⟩ before m' rest heq
    rcases List.eq_nil_or_concat rest with rfl | ⟨rest, last, rfl⟩
    · obtain ⟨rfl, hm⟩ := List.append_inj' heq rfl
      rw [← List.singleton_inj.1 hm]
      exact hlast
    · rw [List.concat_eq_append, ← List.cons_append, ← List.append_assoc] at heq
      exact hbefore before m' rest (List.append_inj' heq rfl).1

variable (coordinators) (speechScript) (visualScript) in
/-- As long as no message is disturbed the sessions are isolated; afterwards one of them has
been answered differently. -/
theorem isolated_or_parted (runId : ι → RunId) (sessionId : ι → SessionId)
    (messages : List (MediaMessage ι)) :
    let start := fresh speechScript visualScript runId sessionId
    NeverDisturbed coordinators start messages ∧ Isolated coordinators start messages ∨
      ¬NeverDisturbed coordinators start messages ∧
        ∃ i, Feed.Parted ((start.stream coordinators messages).feeds i)
          ((start.stream coordinators (messages.filter fun m => m.session = i)).feeds i) := by
  intro start
  induction messages using List.reverseRecOn with
  | nil =>
      refine Or.inl ⟨fun before m rest h => ?_, fun i => rfl⟩
      simp at h
  | append_singleton messages m ih =>
      have hfilter : ∀ i, start.stream coordinators ((messages ++ [m]).filter (·.session = i)) =
          if m.session = i then
            (start.stream coordinators (messages.filter (·.session = i))).ingest coordinators m
          else start.stream coordinators (messages.filter (·.session = i)) := by
        intro i
        rw [List.filter_append, List.filter_singleton]
        by_cases hi : m.session = i
        · rw [if_pos hi, decide_eq_true hi, cond_true, stream_concat]
        · rw [if_neg hi, decide_eq_false hi, cond_false, List.append_nil]
      rcases ih with ⟨hnever, hisolated⟩ | ⟨hdisturbed, i, hparted⟩
      · obtain ⟨calls, hk, hsub⟩ := exists_replays coordinators speechScript visualScript
          runId sessionId messages
        have ha := replays_alone coordinators speechScript visualScript runId sessionId m.session
          (messages.filter (·.session = m.session))
          fun m' hm' => of_decide_eq_true (List.mem_filter.1 hm').2
        have hsame := hisolated m.session
        rw [← hsame] at ha
        have hanswer := sameAnswer_iff coordinators hk (hsub m.session) ha
        by_cases hm : Undisturbed coordinators (start.stream coordinators messages) m
        · refine Or.inl ⟨neverDisturbed_concat.2 ⟨hnever, hm⟩, fun i => ?_⟩
          rw [stream_concat, hfilter]
          split_ifs with hi
          · subst hi
            exact feeds_ingest_congr hsame (hanswer.2 hm)
          · rw [feeds_ingest_of_ne (Ne.symm hi)]
            exact hisolated i
        · refine Or.inr ⟨fun h => hm (neverDisturbed_concat.1 h).2, m.session, ?_⟩
          obtain ⟨hadmits, hdiffers⟩ := Classical.not_imp.1 (mt hanswer.1 hm)
          rw [stream_concat, hfilter, if_pos rfl]
          exact parted_ingest hsame hadmits hdiffers
      · refine Or.inr ⟨fun h => hdisturbed (neverDisturbed_concat.1 h).1, i, ?_⟩
        obtain ⟨htranscribed, hobserved⟩ :=
          answers_ingest coordinators (start.stream coordinators messages) m i
        rw [stream_concat, hfilter]
        split_ifs with hi
        · obtain ⟨htranscribed', hobserved'⟩ := answers_ingest coordinators
            (start.stream coordinators (messages.filter (·.session = i))) m i
          exact hparted.imp (·.mono htranscribed htranscribed') (·.mono hobserved hobserved')
        · exact hparted.imp (·.mono htranscribed (List.prefix_refl _))
            (·.mono hobserved (List.prefix_refl _))

/-- The sessions are isolated exactly when none of their messages is disturbed, and a window is
answered again as before exactly when the first answer settled nothing of it. -/
theorem isolated_iff_neverDisturbed (coordinators : ι → Coordinator)
    (speechScript : SpeechScript) (visualScript : VisualScript) (runId : ι → RunId)
    (sessionId : ι → SessionId) (messages : List (MediaMessage ι))
    (r : DeterministicSpeechRuntime) (window : AudioWindow) :
    (Isolated coordinators (fresh speechScript visualScript runId sessionId) messages ↔
        NeverDisturbed coordinators (fresh speechScript visualScript runId sessionId) messages) ∧
      ((exec (DeterministicSpeechRuntime.transcribe window) (r.after window)).1 =
          (exec (DeterministicSpeechRuntime.transcribe window) r).1 ↔ r.Repeats window) := by
  refine ⟨?_, DeterministicSpeechRuntime.transcribe_again_iff r window⟩
  rcases isolated_or_parted coordinators speechScript visualScript
    runId sessionId messages with
    ⟨hnever, hisolated⟩ | ⟨hdisturbed, i, hparted⟩
  · exact iff_of_true hisolated hnever
  · exact iff_of_false (fun h => hparted.ne (h i)) hdisturbed

def welcome : SpeechScript where
  words := [⟨"welcome", 0, 500, .fin 1⟩]
  events := []
  modelVersion := sampleModel
  instabilityTailMs := 400
  failAfterWindow := none

def still : VisualScript := ⟨[], sampleModel, .fin 1, .fin 1, .fin 1, .fin 1, none⟩

/-- The whole presentation in one window, for either of two sessions. -/
def presenting (session : Bool) : MediaMessage Bool where
  session := session
  call := .audio 0 ⟨0, 1000, 16000, [], true⟩
  channel := .reliable

theorem not_isolated_presenting :
    ¬Isolated (fun _ => sample id)
        (fresh welcome still (fun _ => sampleRunId) fun _ => sampleSessionId)
        [presenting false, presenting true] ∧
      ((exec (DeterministicSpeechRuntime.transcribe ⟨0, 1000, 16000, [], true⟩)
          ((DeterministicSpeechRuntime.fresh welcome).after ⟨0, 1000, 16000, [], true⟩)).1.map
            (·.words)).toOption = some [] ∧
      ((exec (DeterministicSpeechRuntime.transcribe ⟨0, 1000, 16000, [], true⟩)
          (DeterministicSpeechRuntime.fresh welcome)).1.map (·.words)).toOption =
            some [⟨"welcome", 0, 500, .fin 1⟩] := by
  refine ⟨fun h => ?_, by decide, by decide⟩
  have hanswers := congrArg (fun f => f.transcribed.map fun answer =>
    (answer.map (·.words)).toOption) (h true)
  exact absurd hanswers (by decide +kernel)

end Container

end OratoriaEngine
