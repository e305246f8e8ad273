import OratoriaEngine.StreamProtocol
import Mathlib.Data.List.Sublists

/-!
# What a stream has done

The calls of a stream, in the order they were answered, whatever else is served in between and
wherever they fail. Its lease is taken once and given back once, and nothing is done without it;
the client hears of a completion after everything of it is stored.
-/

namespace OratoriaEngine

open Interleaving

abbrev StreamEvent := Event StreamOp StreamOp.Answer Failure

namespace StreamEvent

def took : StreamEvent → Bool
  | ⟨.acquireLease _ _, .ok true⟩ => true
  | _ => false

def releases : StreamEvent → Bool
  | ⟨.releaseLease _, _⟩ => true
  | _ => false

def announces : StreamEvent → Bool
  | ⟨.wire (.sendCompleted _ _ _ _ _), _⟩ => true
  | _ => false

def stored (o : Port) (a : o.Answer) : StreamEvent := ⟨.wire (.port o), .ok a⟩

end StreamEvent

open StreamEvent

/-- How often the lease was taken and given back. -/
def LeaseStage.counts : LeaseStage → ℕ × ℕ
  | .untaken => (0, 0)
  | .held => (1, 0)
  | .released => (1, 1)

def CompletionStage.milestones : CompletionStage → List StreamEvent
  | .nothing => []
  | .bundled bundle => [stored (.evidenceStore bundle) ()]
  | .documented bundle document tenant =>
      [stored (.evidenceStore bundle) (), stored (.evidenceStoreDocument document tenant) ()]
  | .completed bundle document tenant session =>
      [stored (.evidenceStore bundle) (), stored (.evidenceStoreDocument document tenant) (),
        stored (.sessionsSave session) ()]
  | .closed bundle document tenant session run =>
      [stored (.evidenceStore bundle) (), stored (.evidenceStoreDocument document tenant) (),
        stored (.sessionsSave session) (), match run with
          | .inl runId => stored (.runsGet runId) none
          | .inr run => stored (.runsSave run) ()]

namespace StreamHandler

variable {engine : StreamEngine} {request : StreamRequest}

/-- What the progress of a stream says of its journal. -/
structure Recorded (journal : List StreamEvent) (p : Progress) : Prop where
  lease : (journal.countP took, journal.countP releases) = p.lease.counts
  completion : p.completion.milestones.Sublist journal
  announced : p.announced = false ↔ journal.countP announces = 0
  once : journal.countP announces ≤ 1

theorem milestones_afterPort {p : Progress} {o : Port} (ho : InOrder p o)
    (r : Except Failure o.Answer) :
    (p.afterPort o r).completion = p.completion ∨
      (p.afterPort o r).completion.milestones =
        p.completion.milestones ++ [⟨.wire (.port o), r⟩] := by
  cases r with
  | error e => cases o <;> exact .inl rfl
  | ok a =>
      cases o with
      | evidenceStore bundle =>
          rw [ho.2]
          exact .inr rfl
      | evidenceStoreDocument document tenant =>
          obtain ⟨bundle, hbundle, -⟩ := ho
          simp only [Progress.afterPort, hbundle]
          exact .inr rfl
      | sessionsSave session =>
          simp only [Progress.afterPort]
          cases hcompletion : p.completion with
          | documented bundle document tenant => exact .inr rfl
          | _ => exact .inl hcompletion
      | sessionsGet tenant sessionId => cases a <;> exact .inl rfl
      | runsGet runId =>
          cases a with
          | some run => exact .inl rfl
          | none =>
              simp only [Progress.afterPort]
              cases hcompletion : p.completion with
              | completed bundle document tenant session => exact .inr rfl
              | _ => exact .inl hcompletion
      | runsSave run =>
          simp only [Progress.afterPort]
          cases hcompletion : p.completion with
          | completed bundle document tenant session => exact .inr rfl
          | _ => exact .inl hcompletion
      | _ => exact .inl rfl

theorem lease_after (p : Progress) (e : StreamEvent) :
    (p.after e.op e.answer).lease =
      if took e then .held else if releases e then .released else p.lease := by
  obtain ⟨o, r⟩ := e
  cases o with
  | wire o =>
      cases o with
      | port o => exact (Progress.framed_afterPort p o r).lease
      | sendAccepted => cases r <;> rfl
      | _ => rfl
  | acquireLease sessionId ttl =>
      rcases r with e | _ | _ <;> rfl
  | acceptSocket => cases r <;> rfl
  | _ => rfl

theorem completion_after_of_port {p : Progress} {o : StreamOp} (h : ∀ o', o ≠ .wire (.port o'))
    (r : Except Failure o.Answer) : (p.after o r).completion = p.completion := by
  cases o with
  | wire o =>
      cases o with
      | port o => exact absurd rfl (h o)
      | sendAccepted => cases r <;> rfl
      | _ => rfl
  | acquireLease sessionId ttl => rcases r with e | _ | _ <;> rfl
  | acceptSocket => cases r <;> rfl
  | _ => rfl

theorem announced_after (p : Progress) (e : StreamEvent) :
    (p.after e.op e.answer).announced = (p.announced || announces e) := by
  obtain ⟨o, r⟩ := e
  cases o with
  | wire o =>
      cases o with
      | port o => exact (Progress.framed_afterPort p o r).announced.trans (Bool.or_false _).symm
      | sendAccepted => cases r <;> exact (Bool.or_false _).symm
      | sendCompleted => exact (Bool.or_true _).symm
      | _ => exact (Bool.or_false _).symm
  | acquireLease sessionId ttl => rcases r with e | _ | _ <;> exact (Bool.or_false _).symm
  | acceptSocket => cases r <;> exact (Bool.or_false _).symm
  | _ => exact (Bool.or_false _).symm

theorem Recorded.concat {journal : List StreamEvent} {p : Progress} (h : Recorded journal p)
    {e : StreamEvent} (he : Permits engine request p e.op) :
    Recorded (journal ++ [e]) (p.after e.op e.answer) := by
  have htook : took e = true → p.lease = .untaken ∧ releases e = false := by
    obtain ⟨o, r⟩ := e
    cases o with
    | acquireLease sessionId ttl => exact fun _ => ⟨he.2.1, rfl⟩
    | _ => exact fun h => by cases h
  have hreleases : releases e = true → p.lease = .held := by
    obtain ⟨o, r⟩ := e
    cases o with
    | releaseLease sessionId => exact fun _ => he.1
    | _ => exact fun h => by cases h
  have hannounces : announces e = true → p.announced = false := by
    obtain ⟨o, r⟩ := e
    cases o with
    | wire o =>
        cases o with
        | sendCompleted => exact fun _ => he.2.2.2.1
        | _ => exact fun h => by cases h
    | _ => exact fun h => by cases h
  have hcounts := h.lease
  constructor
  · rw [lease_after, List.countP_append, List.countP_append, List.countP_singleton,
      List.countP_singleton]
    cases hte : took e with
    | true =>
        obtain ⟨huntaken, hre⟩ := htook hte
        rw [huntaken, Prod.mk.injEq] at hcounts
        simp [hre, hcounts.1, hcounts.2, LeaseStage.counts]
    | false =>
        cases hre : releases e with
        | true =>
            rw [hreleases hre, Prod.mk.injEq] at hcounts
            simp [hcounts.1, hcounts.2, LeaseStage.counts]
        | false => simpa using hcounts
  · by_cases hport : ∀ o, e.op ≠ .wire (.port o)
    · rw [completion_after_of_port hport]
      exact h.completion.trans (List.sublist_append_left _ _)
    · push Not at hport
      obtain ⟨o, ho⟩ := hport
      obtain ⟨_, r⟩ := e
      cases ho
      rcases milestones_afterPort he.2.2.1 r with hsame | hnext
      · have hcompletion : ((p.after (.wire (.port o)) r).completion) = p.completion := hsame
        rw [hcompletion]
        exact h.completion.trans (List.sublist_append_left _ _)
      · have hcompletion : ((p.after (.wire (.port o)) r).completion).milestones =
            p.completion.milestones ++ [⟨.wire (.port o), r⟩] := hnext
        rw [hcompletion]
        exact h.completion.append (List.Sublist.refl _)
  · rw [announced_after, List.countP_append, List.countP_singleton]
    cases hae : announces e with
    | true => simp
    | false => simpa using h.announced
  · rw [List.countP_append, List.countP_singleton]
    cases hae : announces e with
    | true => simp [h.announced.1 (hannounces hae)]
    | false => simpa using h.once

theorem recorded_of_accepts {journal : List StreamEvent}
    (h : (course engine request).Accepts .start journal) :
    Recorded journal ((course engine request).state .start journal) := by
  induction journal using List.reverseRecOn with
  | nil => exact ⟨rfl, List.Sublist.refl _, by simp [Progress.start, Monitor.state], by simp⟩
  | append_singleton journal e ih =>
      obtain ⟨hjournal, he⟩ := Monitor.accepts_concat.1 h
      rw [Monitor.state_concat]
      exact (ih hjournal).concat he

/-- The streams of any number of requests, none of them accepted yet. -/
def streams {ι W : Type} (engine : StreamEngine) (requests : ι → StreamRequest) (world : W) :
    Config StreamOp StreamOp.Answer Failure Unit W ι :=
  ⟨world, fun i => Thread.start (stream engine (requests i))⟩

theorem watched_streams {ι W : Type} [DecidableEq ι]
    (ports : Program.Ports StreamOp StreamOp.Answer Failure W) (engine : StreamEngine)
    (requests : ι → StreamRequest) (world : W) (schedule : List (Choice Failure ι)) (i : ι) :
    (course engine (requests i)).Watched Ended .start
      ((Interleaving.run ports (streams engine requests world) schedule).threads i) :=
  Monitor.run_watched (m := fun i => course engine (requests i)) (Q := fun _ => Ended)
    (s := fun _ => .start) ports
    (fun j => Monitor.watched_start (follows_stream engine (requests j))) schedule i

def needsLease : StreamOp → Bool
  | .releaseLease _ | .receiveJson | .ingest _ | .wire (.port _) | .wire (.sendAccepted _ _ _ _)
  | .wire (.sendCompleted _ _ _ _ _) => true
  | _ => false

theorem held_of_needsLease {request : StreamRequest} {p : Progress} {o : StreamOp}
    (h : Permits engine request p o) (ho : needsLease o = true) : p.lease = .held := by
  cases o with
  | releaseLease sessionId => exact h.1
  | receiveJson => exact h.2.1
  | ingest call => exact h.2.1
  | wire o =>
      cases o with
      | port o => exact h.2.1
      | sendAccepted => exact h.2.1
      | sendCompleted => exact h.2.1
      | _ => cases ho
  | _ => cases ho

def leaseOf : StreamOp → Option SessionId
  | .acquireLease sessionId _ | .releaseLease sessionId => some sessionId
  | _ => none

/-- Whatever the other streams do, whatever the calls are answered and wherever they fail: a
stream takes at most one lease, that of the session its verified token names, does its work only
between taking it and giving it back, and when it is over has given back exactly what it took. -/
theorem lease_bracketed {ι W : Type} [DecidableEq ι]
    (ports : Program.Ports StreamOp StreamOp.Answer Failure W) (engine : StreamEngine)
    (requests : ι → StreamRequest) (world : W) (schedule : List (Choice Failure ι)) (i : ι) :
    let t := (Interleaving.run ports (streams engine requests world) schedule).threads i
    t.past.countP took ≤ 1 ∧
      (∀ before e rest, t.past = before ++ e :: rest → needsLease e.op = true →
        before.countP took = 1 ∧ before.countP releases = 0) ∧
      (∀ e ∈ t.past, ∀ sessionId, leaseOf e.op = some sessionId →
        ∃ grant, Granted engine (requests i) grant ∧ sessionId = grant.sessionId) ∧
      ∀ r, t.outcome = some r → t.past.countP releases = t.past.countP took := by
  intro t
  have hwatched : (course engine (requests i)).Watched Ended .start t :=
    watched_streams ports engine requests world schedule i
  have hlease := (recorded_of_accepts hwatched.1).lease
  refine ⟨?_, ?_, ?_, ?_⟩
  · rw [Prod.mk.injEq] at hlease
    rw [hlease.1]
    cases ((course engine (requests i)).state .start t.past).lease <;> decide
  · intro before e rest heq hneeds
    obtain ⟨hbefore, hpermits⟩ := hwatched.1.permits heq
    have hcounts := (recorded_of_accepts hbefore).lease
    rw [held_of_needsLease hpermits hneeds] at hcounts
    exact Prod.mk.inj hcounts
  · intro e he sessionId hsession
    obtain ⟨before, rest, heq⟩ := List.append_of_mem he
    obtain ⟨-, hpermits⟩ := hwatched.1.permits heq
    obtain ⟨o, r⟩ := e
    cases o with
    | acquireLease s ttl =>
        cases hsession
        exact hpermits.2.2.2
    | releaseLease s =>
        cases hsession
        exact hpermits.2
    | _ => cases hsession
  · intro r hr
    obtain ⟨hkept, -⟩ := hwatched.outcome hr
    rw [Prod.mk.injEq] at hlease
    rw [hlease.1, hlease.2]
    cases hstage : ((course engine (requests i)).state .start t.past).lease with
    | held => exact absurd hstage hkept
    | _ => rfl

/-- The end of a completion: the run is stored as completed, or it is looked up to be closed and is
not there, where nothing is closed. -/
def ClosesRun (e : StreamEvent) : Prop :=
  (∃ run, run.state = .completed ∧ e = stored (.runsSave run) ()) ∨
    ∃ runId, e = stored (.runsGet runId) none

/-- A client hears of a completion at most once, and only after the bundle, the document it is
told about and the completed session are stored, in this order, and the run after them is stored as
completed or found missing; and no session is saved as completed before its bundle and its document
are. -/
theorem completion_announced_after_stored {ι W : Type} [DecidableEq ι]
    (ports : Program.Ports StreamOp StreamOp.Answer Failure W) (engine : StreamEngine)
    (requests : ι → StreamRequest) (world : W) (schedule : List (Choice Failure ι)) (i : ι) :
    let journal :=
      ((Interleaving.run ports (streams engine requests world) schedule).threads i).past
    journal.countP announces ≤ 1 ∧
      (∀ before rest runId speechEvents visualEvents cooccurrences authority r,
        journal = before ++ ⟨.wire (.sendCompleted runId speechEvents visualEvents cooccurrences
          authority), r⟩ :: rest →
        ∃ bundle document tenant session closing, session.state = .completed ∧ ClosesRun closing ∧
          [stored (.evidenceStore bundle) (), stored (.evidenceStoreDocument document tenant) (),
            stored (.sessionsSave session) (), closing].Sublist before ∧
          runId = document.runId.value ∧ speechEvents = document.speechEvents.length ∧
          visualEvents = document.visualEvents.length ∧
          cooccurrences = document.cooccurrences.length) ∧
      ∀ before rest session r, journal = before ++ ⟨.wire (.port (.sessionsSave session)), r⟩ ::
        rest → session.state = .completed → ∃ bundle document tenant,
          [stored (.evidenceStore bundle) (),
            stored (.evidenceStoreDocument document tenant) ()].Sublist before := by
  intro journal
  have haccepts : (course engine (requests i)).Accepts .start journal :=
    (watched_streams ports engine requests world schedule i).1
  refine ⟨(recorded_of_accepts haccepts).once, ?_, ?_⟩
  · intro before rest runId speechEvents visualEvents cooccurrences authority r heq
    obtain ⟨hbefore, -, -, -, -, hannounces⟩ := haccepts.permits heq
    obtain ⟨bundle, document, tenant, session, run, hstage, hdone, hclosed, hnumbers⟩ := hannounces
    have hmilestones := (recorded_of_accepts hbefore).completion
    rw [hstage] at hmilestones
    refine ⟨bundle, document, tenant, session, _, hdone, ?_, hmilestones, hnumbers⟩
    cases run with
    | inl runId => exact .inr ⟨runId, rfl⟩
    | inr run => exact .inl ⟨run, hclosed run rfl, rfl⟩
  · intro before rest session r heq hdone
    obtain ⟨hbefore, -, -, horder, -⟩ := haccepts.permits heq
    obtain ⟨bundle, document, tenant, hstage⟩ := horder hdone
    have hmilestones := (recorded_of_accepts hbefore).completion
    rw [hstage] at hmilestones
    exact ⟨bundle, document, tenant, hmilestones⟩

end StreamHandler

end OratoriaEngine
