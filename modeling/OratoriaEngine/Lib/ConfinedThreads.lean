import OratoriaEngine.Lib.Lockstep
import OratoriaEngine.Lib.Monitor

/-!
# Confined programs under every schedule

Threads whose programs are confined make only allowed calls under every schedule, as long as
the answers they are served can be trusted where they are served. What the allowed calls keep,
the whole run keeps.
-/

namespace Program

variable {O O' : Type} {A : O → Type} {A' : O' → Type} {ε α : Type}

theorem confined_via {allowed : O' → Prop} {trusted : ∀ o, A' o → Prop} {f : O → O'}
    {p : Program O (fun o => A' (f o)) ε α}
    (hp : Confined (fun o => allowed (f o)) (fun o a => trusted (f o) a) p) :
    Confined allowed trusted (p.via f) := by
  induction p with
  | done r => trivial
  | call o next ih => exact ⟨hp.1, fun r hr => ih r (hp.2 r hr)⟩

theorem confined_rescue {allowed : O → Prop} {trusted : ∀ o, A o → Prop} {p : Program O A ε α}
    {handler : ε → Option (Program O A ε α)} (hp : Confined allowed trusted p)
    (hhandler : ∀ e q, handler e = some q → Confined allowed trusted q) :
    Confined allowed trusted (p.rescue handler) := by
  induction p with
  | done r =>
      cases r with
      | ok a => exact confined_pure a
      | error e =>
          unfold rescue
          cases hq : handler e with
          | none => exact confined_raise e
          | some q => exact hhandler e q hq
  | call o next ih => exact ⟨hp.1, fun r hr => ih r (hp.2 r hr)⟩

/-- A program confined to fewer calls, on answers that say less, is confined to more. -/
theorem Confined.mono {allowed allowed' : O → Prop} {trusted trusted' : ∀ o, A o → Prop}
    {p : Program O A ε α} (hp : Confined allowed trusted p) (hallowed : ∀ o, allowed o → allowed' o)
    (htrusted : ∀ o a, trusted' o a → trusted o a) : Confined allowed' trusted' p := by
  induction p with
  | done r => trivial
  | call o next ih =>
      exact ⟨hallowed o hp.1, fun r hr => ih r (hp.2 r fun a ha => htrusted o a (hr a ha))⟩

end Program

namespace Interleaving

open Program

variable {O : Type} {A : O → Type} {ε α W ι : Type} {allowed : ι → O → Prop}
  {trusted : ι → ∀ o, A o → Prop}

def Thread.Confined (allowed : O → Prop) (trusted : ∀ o, A o → Prop) (t : Thread O A ε α) : Prop :=
  (∀ e ∈ t.past, allowed e.op) ∧ Program.Confined allowed trusted t.rest

theorem Thread.Confined.resume {allowed : O → Prop} {trusted : ∀ o, A o → Prop}
    {t : Thread O A ε α} (h : t.Confined allowed trusted) {o : O}
    {next : Except ε (A o) → Program O A ε α} (hrest : t.rest = .call o next)
    {r : Except ε (A o)} (hr : ∀ a, r = .ok a → trusted o a) :
    (t.resume o next r).Confined allowed trusted := by
  obtain ⟨hpast, hconfined⟩ := h
  rw [hrest] at hconfined
  refine ⟨fun e he => ?_, hconfined.2 r hr⟩
  rcases List.mem_append.1 he with he | he
  · exact hpast e he
  · rw [List.mem_singleton.1 he]
    exact hconfined.1

variable [DecidableEq ι] (ports : Ports O A ε W) {c : Config O A ε α W ι} {P : W → Prop}

theorem step_confined (hthreads : ∀ i, (c.threads i).Confined (allowed i) (trusted i))
    (hP : P c.world) (choice : Choice ε ι)
    (hserved : choice.2 = none → ∀ o, allowed choice.1 o →
      P (ports o c.world).2 ∧ ∀ a, (ports o c.world).1 = .ok a → trusted choice.1 o a) :
    P (step ports c choice).world ∧
      ∀ i, ((step ports c choice).threads i).Confined (allowed i) (trusted i) := by
  have hupdate : ∀ (o : O) (next : Except ε (A o) → Program O A ε α) (r : Except ε (A o)),
      (c.threads choice.1).rest = .call o next → (∀ a, r = .ok a → trusted choice.1 o a) →
        ∀ i, (Function.update c.threads choice.1
          ((c.threads choice.1).resume o next r) i).Confined (allowed i) (trusted i) := by
    intro o next r hrest hr i
    by_cases hi : i = choice.1
    · subst hi
      rw [Function.update_self]
      exact (hthreads _).resume hrest hr
    · rw [Function.update_of_ne hi]
      exact hthreads i
  obtain ⟨_, -, hstep⟩ | ⟨o, next, hrest, ⟨e, -, hstep⟩ | ⟨hnone, hstep⟩⟩ :=
    step_cases ports c choice
  · rw [hstep]
    exact ⟨hP, hthreads⟩
  · rw [hstep]
    refine ⟨hP, hupdate o next _ hrest ?_⟩
    intro a ha
    cases ha
  · rw [hstep]
    have hallowed : allowed choice.1 o := by
      have hconfined := (hthreads choice.1).2
      rw [hrest] at hconfined
      exact hconfined.1
    obtain ⟨hafter, htrusted⟩ := hserved hnone o hallowed
    exact ⟨hafter, hupdate o next _ hrest htrusted⟩

variable (allowed trusted) in
/-- Under every schedule confined threads make only allowed calls, and what these keep is kept. -/
theorem run_confined (hthreads : ∀ i, (c.threads i).Confined (allowed i) (trusted i))
    (hP : P c.world) (schedule : List (Choice ε ι))
    (hserved : ∀ earlier i later, schedule = earlier ++ (i, none) :: later →
      P (run ports c earlier).world → ∀ o, allowed i o →
        P (ports o (run ports c earlier).world).2 ∧
          ∀ a, (ports o (run ports c earlier).world).1 = .ok a → trusted i o a) :
    P (run ports c schedule).world ∧
      ∀ i, ((run ports c schedule).threads i).Confined (allowed i) (trusted i) := by
  induction schedule generalizing c with
  | nil => exact ⟨hP, hthreads⟩
  | cons choice schedule ih =>
      obtain ⟨hafter, hthreads'⟩ := step_confined ports hthreads hP choice fun hnone o ho => by
        obtain ⟨i, fault⟩ := choice
        cases hnone
        exact hserved [] i schedule rfl hP o ho
      refine ih hthreads' hafter fun earlier i later heq => ?_
      exact hserved (choice :: earlier) i later (congrArg _ heq)

end Interleaving
