import OratoriaEngine.Lib.Interleaving
import OratoriaEngine.Lib.Runs
import OratoriaEngine.Lib.Served

/-!
# Monitors

A monitor watches the calls of a program and their answers, and permits a call where it is
in place. A program follows the monitor when every call it can make is permitted, whatever
the calls before it were answered, and what the monitor has seen in the end is known of the
outcome. Programs that follow their monitors do so under every schedule.
-/

structure Monitor (O : Type) (A : O → Type) (ε σ : Type) where
  permits : σ → O → Prop
  after : σ → (o : O) → Except ε (A o) → σ

namespace Program

variable {O O' : Type} {A : O → Type} {A' : O' → Type} {ε α : Type}

/-- The cleanup follows the program however it ends; only an exception of its own is raised
instead. -/
def ensuring : Program O A ε α → Program O A ε Unit → Program O A ε α
  | .done r, cleanup => cleanup >>= fun _ => .done r
  | .call o next, cleanup => .call o fun r => (next r).ensuring cleanup

/-- The program on other ports, each call made there under another name. -/
def via (f : O → O') : Program O (fun o => A' (f o)) ε α → Program O' A' ε α
  | .done r => .done r
  | .call o next => .call (f o) fun r => (next r).via f

end Program

namespace Monitor

open Interleaving Program

variable {O O' : Type} {A : O → Type} {A' : O' → Type} {ε α β σ : Type}

/-- The state after one more event of a journal. -/
def step (m : Monitor O A ε σ) (s : σ) (e : Event O A ε) : σ := m.after s e.op e.answer

/-- The state after a journal. -/
def state (m : Monitor O A ε σ) (s : σ) (journal : List (Event O A ε)) : σ :=
  journal.foldl m.step s

def Accepts (m : Monitor O A ε σ) (s : σ) (journal : List (Event O A ε)) : Prop :=
  Runs.EveryStep m.step (fun s e => m.permits s e.op) s journal

/-- Every call is permitted whatever the calls before it were answered, and the end is as
expected. -/
def Follows (m : Monitor O A ε σ) (Q : Except ε α → σ → Prop) : Program O A ε α → σ → Prop
  | .done r, s => Q r s
  | .call o next, s => m.permits s o ∧ ∀ r, m.Follows Q (next r) (m.after s o r)

/-- The monitor of other ports, which are called under names of its own. -/
def pull (m : Monitor O' A' ε σ) (f : O → O') : Monitor O (fun o => A' (f o)) ε σ where
  permits s o := m.permits s (f o)
  after s o r := m.after s (f o) r

variable {m : Monitor O A ε σ} {Q : Except ε α → σ → Prop} {s : σ}

section Rules

theorem follows_pure {a : α} (h : Q (.ok a) s) : m.Follows Q (pure a : Program O A ε α) s := h

theorem Follows.mono {Q' : Except ε α → σ → Prop} {p : Program O A ε α} (h : m.Follows Q p s)
    (hQ : ∀ r s, Q r s → Q' r s) : m.Follows Q' p s := by
  induction p generalizing s with
  | done r => exact hQ r s h
  | call o next ih => exact ⟨h.1, fun r => ih r (h.2 r)⟩

/-- Sequencing: the rest follows the monitor from wherever the first part leaves it. -/
theorem follows_bind {p : Program O A ε β} {f : β → Program O A ε α} {P : Except ε β → σ → Prop}
    (hp : m.Follows P p s) (hok : ∀ b s, P (.ok b) s → m.Follows Q (f b) s)
    (herror : ∀ e s, P (.error e) s → Q (.error e) s) : m.Follows Q (p >>= f) s := by
  induction p generalizing s with
  | done r =>
      cases r with
      | ok b => exact hok b s hp
      | error e => exact herror e s hp
  | call o next ih => exact ⟨hp.1, fun r => ih r (hp.2 r)⟩

theorem follows_ofExcept_bind {r : Except ε β} {f : β → Program O A ε α}
    (hok : ∀ b, r = .ok b → m.Follows Q (f b) s) (herror : ∀ e, r = .error e → Q (.error e) s) :
    m.Follows Q (ofExcept r >>= f) s := by
  cases r with
  | ok b => exact hok b rfl
  | error e => exact herror e rfl

theorem follows_port_bind {o : O} {f : A o → Program O A ε α} (hpermits : m.permits s o)
    (hok : ∀ a, m.Follows Q (f a) (m.after s o (.ok a)))
    (herror : ∀ e, Q (.error e) (m.after s o (.error e))) :
    m.Follows Q (port o >>= f) s := by
  refine ⟨hpermits, fun r => ?_⟩
  cases r with
  | ok a => exact hok a
  | error e => exact herror e

theorem follows_port {o : O} {Q : Except ε (A o) → σ → Prop} (hpermits : m.permits s o)
    (h : ∀ r, Q r (m.after s o r)) : m.Follows Q (port o : Program O A ε (A o)) s :=
  ⟨hpermits, h⟩

theorem follows_rescue {p : Program O A ε α} {handler : ε → Option (Program O A ε α)}
    {P : Except ε α → σ → Prop} (hp : m.Follows P p s) (hok : ∀ a s, P (.ok a) s → Q (.ok a) s)
    (hhandled : ∀ e q s, P (.error e) s → handler e = some q → m.Follows Q q s)
    (hunhandled : ∀ e s, P (.error e) s → handler e = none → Q (.error e) s) :
    m.Follows Q (p.rescue handler) s := by
  induction p generalizing s with
  | done r =>
      cases r with
      | ok a => exact hok a s hp
      | error e =>
          rw [rescue]
          cases he : handler e with
          | some q => exact hhandled e q s hp he
          | none => exact hunhandled e s hp he
  | call o next ih => exact ⟨hp.1, fun r => ih r (hp.2 r)⟩

/-- The cleanup runs from wherever the program ends; what it raises takes the outcome's place. -/
theorem follows_ensuring {p : Program O A ε α} {cleanup : Program O A ε Unit}
    {P : Except ε α → σ → Prop} (hp : m.Follows P p s)
    (hcleanup : ∀ r s, P r s → m.Follows (fun c s => match c with
      | .ok _ => Q r s
      | .error e => Q (.error e) s) cleanup s) :
    m.Follows Q (p.ensuring cleanup) s := by
  induction p generalizing s with
  | done r =>
      exact follows_bind (hcleanup r s hp) (fun _ _ h => h) fun _ _ h => h
  | call o next ih => exact ⟨hp.1, fun r => ih r (hp.2 r)⟩

theorem follows_via {m : Monitor O' A' ε σ} {f : O → O'} {p : Program O (fun o => A' (f o)) ε α}
    (hp : (m.pull f).Follows Q p s) : m.Follows Q (p.via f) s := by
  induction p generalizing s with
  | done r => exact hp
  | call o next ih => exact ⟨hp.1, fun r => ih r (hp.2 r)⟩

end Rules

theorem accepts_nil (s : σ) : m.Accepts s [] := Runs.everyStep_nil s

theorem accepts_append {journal later : List (Event O A ε)} :
    m.Accepts s (journal ++ later) ↔ m.Accepts s journal ∧ m.Accepts (m.state s journal) later :=
  Runs.everyStep_append

theorem accepts_concat {journal : List (Event O A ε)} {e : Event O A ε} :
    m.Accepts s (journal ++ [e]) ↔ m.Accepts s journal ∧ m.permits (m.state s journal) e.op := by
  rw [accepts_append]
  refine and_congr_right fun _ => Runs.everyStep_cons.trans (and_iff_left ?_)
  exact Runs.everyStep_nil _

theorem state_concat (s : σ) (journal : List (Event O A ε)) (e : Event O A ε) :
    m.state s (journal ++ [e]) = m.step (m.state s journal) e := by
  rw [state, List.foldl_append]
  rfl

theorem Accepts.permits {journal before rest : List (Event O A ε)} {e : Event O A ε}
    (h : m.Accepts s journal) (heq : journal = before ++ e :: rest) :
    m.Accepts s before ∧ m.permits (m.state s before) e.op := by
  subst heq
  obtain ⟨hbefore, hrest⟩ := accepts_append.1 h
  exact ⟨hbefore, hrest [] e rest rfl⟩

/-- The past of the thread was accepted, and the rest of it follows the monitor. -/
def Watched (m : Monitor O A ε σ) (Q : Except ε α → σ → Prop) (s : σ)
    (t : Thread O A ε α) : Prop :=
  m.Accepts s t.past ∧ m.Follows Q t.rest (m.state s t.past)

theorem watched_start {p : Program O A ε α} (h : m.Follows Q p s) :
    m.Watched Q s (Thread.start p) := ⟨accepts_nil s, h⟩

theorem Watched.resume {t : Thread O A ε α} (h : m.Watched Q s t) {o : O}
    {next : Except ε (A o) → Program O A ε α} (hrest : t.rest = .call o next)
    (r : Except ε (A o)) : m.Watched Q s (t.resume o next r) := by
  obtain ⟨hpast, hfollows⟩ := h
  rw [hrest] at hfollows
  refine ⟨accepts_concat.2 ⟨hpast, hfollows.1⟩, ?_⟩
  rw [Thread.resume, state_concat]
  exact hfollows.2 r

theorem Watched.outcome {t : Thread O A ε α} (h : m.Watched Q s t) {r : Except ε α}
    (hr : t.outcome = some r) : Q r (m.state s t.past) := by
  have hfollows := h.2
  unfold Thread.outcome at hr
  cases hrest : t.rest with
  | done r' =>
      rw [hrest] at hr hfollows
      cases hr
      exact hfollows
  | call o next =>
      rw [hrest] at hr
      cases hr

variable {W ι : Type} [DecidableEq ι]

theorem step_watched {m : ι → Monitor O A ε σ} {Q : ι → Except ε α → σ → Prop} {s : ι → σ}
    (ports : Ports O A ε W) {c : Config O A ε α W ι}
    (h : ∀ i, (m i).Watched (Q i) (s i) (c.threads i)) (choice : Choice ε ι) (i : ι) :
    (m i).Watched (Q i) (s i) ((Interleaving.step ports c choice).threads i) := by
  have hresumed : ∀ (o : O) (next : Except ε (A o) → Program O A ε α) (r : Except ε (A o)),
      (c.threads choice.1).rest = .call o next →
      (m i).Watched (Q i) (s i)
        (Function.update c.threads choice.1 ((c.threads choice.1).resume o next r) i) := by
    intro o next r hrest
    by_cases hi : i = choice.1
    · subst hi
      rw [Function.update_self]
      exact (h choice.1).resume hrest r
    · rw [Function.update_of_ne hi]
      exact h i
  obtain ⟨_, -, hstep⟩ | ⟨o, next, hrest, ⟨e, -, hstep⟩ | ⟨-, hstep⟩⟩ :=
    step_cases ports c choice
  · rw [hstep]
    exact h i
  · rw [hstep]
    exact hresumed o next _ hrest
  · rw [hstep]
    exact hresumed o next _ hrest

theorem run_watched {m : ι → Monitor O A ε σ} {Q : ι → Except ε α → σ → Prop} {s : ι → σ}
    (ports : Ports O A ε W) {c : Config O A ε α W ι}
    (h : ∀ i, (m i).Watched (Q i) (s i) (c.threads i)) (schedule : List (Choice ε ι)) (i : ι) :
    (m i).Watched (Q i) (s i) ((Interleaving.run ports c schedule).threads i) := by
  induction schedule generalizing c with
  | nil => exact h i
  | cons choice schedule ih => exact ih fun j => step_watched ports h choice j

end Monitor
