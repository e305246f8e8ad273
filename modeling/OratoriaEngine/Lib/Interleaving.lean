import OratoriaEngine.Lib.Program
import Mathlib.Logic.Function.Basic

/-!
# Programs interleaved at their port calls

Any number of programs share one world. A scheduler picks a thread, and that
thread performs its next port call in one step, or has the call raise. The
rely-guarantee predicate `Safe` is checked thread by thread, and `run_safe`
carries it to every schedule.
-/

namespace Interleaving

variable {O : Type} {A : O → Type} {ε α W ι : Type}

/-- A port call a thread has made, with the answer it received. -/
structure Event (O : Type) (A : O → Type) (ε : Type) where
  op : O
  answer : Except ε (A op)

structure Thread (O : Type) (A : O → Type) (ε α : Type) where
  past : List (Event O A ε)
  rest : Program O A ε α

def Thread.start (p : Program O A ε α) : Thread O A ε α := ⟨[], p⟩

/-- The thread after its call of `o` was answered by `r`. -/
def Thread.resume (t : Thread O A ε α) (o : O) (next : Except ε (A o) → Program O A ε α)
    (r : Except ε (A o)) : Thread O A ε α := ⟨t.past ++ [⟨o, r⟩], next r⟩

def Thread.outcome (t : Thread O A ε α) : Option (Except ε α) :=
  match t.rest with
  | .done r => some r
  | .call _ _ => none

structure Config (O : Type) (A : O → Type) (ε α W ι : Type) where
  world : W
  threads : ι → Thread O A ε α

/-- The thread that moves, and the exception its call raises if it is not served. -/
abbrev Choice (ε ι : Type) := ι × Option ε

section Step

variable [DecidableEq ι] (ports : Program.Ports O A ε W)

/-- The scheduled thread performs its next call; a finished thread stands still. -/
def step (c : Config O A ε α W ι) (s : Choice ε ι) : Config O A ε α W ι :=
  match (c.threads s.1).rest with
  | .done _ => c
  | .call o next =>
      let t := c.threads s.1
      match s.2 with
      | some e => ⟨c.world, Function.update c.threads s.1 (t.resume o next (.error e))⟩
      | none =>
          let r := ports o c.world
          ⟨r.2, Function.update c.threads s.1 (t.resume o next r.1)⟩

def run (c : Config O A ε α W ι) (schedule : List (Choice ε ι)) : Config O A ε α W ι :=
  schedule.foldl (step ports) c

@[simp] theorem run_nil (c : Config O A ε α W ι) : run ports c [] = c := rfl

@[simp] theorem run_cons (c : Config O A ε α W ι) (s : Choice ε ι) (l : List (Choice ε ι)) :
    run ports c (s :: l) = run ports (step ports c s) l := rfl

theorem run_append (c : Config O A ε α W ι) (l l' : List (Choice ε ι)) :
    run ports c (l ++ l') = run ports (run ports c l) l' := List.foldl_append

theorem step_of_done {c : Config O A ε α W ι} {s : Choice ε ι} {r : Except ε α}
    (h : (c.threads s.1).rest = .done r) : step ports c s = c := by
  rw [step, h]

theorem step_of_fault {c : Config O A ε α W ι} {i : ι} {e : ε} {o : O}
    {next : Except ε (A o) → Program O A ε α} (h : (c.threads i).rest = .call o next) :
    step ports c (i, some e) =
      ⟨c.world, Function.update c.threads i ((c.threads i).resume o next (.error e))⟩ := by
  simp only [step, h]

theorem step_of_served {c : Config O A ε α W ι} {i : ι} {o : O}
    {next : Except ε (A o) → Program O A ε α} (h : (c.threads i).rest = .call o next) :
    step ports c (i, none) =
      ⟨(ports o c.world).2,
        Function.update c.threads i ((c.threads i).resume o next (ports o c.world).1)⟩ := by
  simp only [step, h]

/-- A scheduled thread stands still, or it resumes with an exception and the world is left alone,
or it resumes with the answer of the port. -/
theorem step_cases (c : Config O A ε α W ι) (s : Choice ε ι) :
    (∃ r, (c.threads s.1).rest = .done r ∧ step ports c s = c) ∨
      ∃ o next, (c.threads s.1).rest = .call o next ∧
        ((∃ e, s.2 = some e ∧ step ports c s = ⟨c.world, Function.update c.threads s.1
            ((c.threads s.1).resume o next (.error e))⟩) ∨
          s.2 = none ∧ step ports c s = ⟨(ports o c.world).2, Function.update c.threads s.1
            ((c.threads s.1).resume o next (ports o c.world).1)⟩) := by
  obtain ⟨i, fault⟩ := s
  cases hrest : (c.threads i).rest with
  | done r => exact Or.inl ⟨r, rfl, step_of_done ports hrest⟩
  | call o next =>
      refine Or.inr ⟨o, next, rfl, ?_⟩
      cases fault with
      | some e => exact Or.inl ⟨e, rfl, step_of_fault ports hrest⟩
      | none => exact Or.inr ⟨rfl, step_of_served ports hrest⟩

end Step

/-- Whatever the calls are answered, each is made when what is needed for it has happened. -/
def Heeds (need : List (Event O A ε) → O → Prop) : Program O A ε α → List (Event O A ε) → Prop
  | .done _, _ => True
  | .call o next, past => need past o ∧ ∀ r, Heeds need (next r) (past ++ [⟨o, r⟩])

section Heeds

variable {need : List (Event O A ε) → O → Prop} {past : List (Event O A ε)} {β : Type}

theorem heeds_pure (a : α) : Heeds need (pure a : Program O A ε α) past := trivial

theorem heeds_raise (e : ε) : Heeds need (Program.raise e : Program O A ε α) past := trivial

theorem heeds_ofExcept_bind {r : Except ε β} {f : β → Program O A ε α}
    (h : ∀ b, r = .ok b → Heeds need (f b) past) :
    Heeds need (Program.ofExcept r >>= f) past := by
  cases r with
  | ok b => exact h b rfl
  | error e => exact heeds_raise e

theorem heeds_port_bind {o : O} {f : A o → Program O A ε α} (hneed : need past o)
    (h : ∀ a, Heeds need (f a) (past ++ [⟨o, .ok a⟩])) :
    Heeds need (Program.port o >>= f) past := by
  refine ⟨hneed, fun r => ?_⟩
  cases r with
  | ok a => exact h a
  | error e => exact heeds_raise e

/-- Sequencing: the rest is made with everything the first part has added to the past. -/
theorem heeds_bind {p : Program O A ε β} {f : β → Program O A ε α} (hp : Heeds need p past)
    (hf : ∀ b later, Heeds need (f b) (past ++ later)) : Heeds need (p >>= f) past := by
  induction p generalizing past with
  | done r =>
      cases r with
      | ok b => exact (List.append_nil past) ▸ hf b []
      | error e => exact heeds_raise e
  | call o next ih =>
      refine ⟨hp.1, fun r => ih r (hp.2 r) fun b later => ?_⟩
      rw [List.append_assoc]
      exact hf b _

end Heeds

/-- What a served call may be assumed to meet: the thread's past calls, the
operation it performs and the world it performs it in. -/
abbrev Assumption (O : Type) (A : O → Type) (ε W : Type) := List (Event O A ε) → O → W → Prop

/-- Whatever the other threads do within `R`, every served call of the program
stays within `R`, and its outcome satisfies `Q` from then on. -/
def Safe (ports : Program.Ports O A ε W) (R : W → W → Prop) (ok : Assumption O A ε W)
    (Q : Except ε α → W → Prop) : Program O A ε α → List (Event O A ε) → W → Prop
  | .done r, _, w => ∀ w', R w w' → Q r w'
  | .call o next, past, w => ∀ w', R w w' →
      (∀ e, Safe ports R ok Q (next (.error e)) (past ++ [⟨o, .error e⟩]) w') ∧
      (ok past o w' → R w' (ports o w').2 ∧
        Safe ports R ok Q (next (ports o w').1) (past ++ [⟨o, (ports o w').1⟩]) (ports o w').2)

section Safe

variable {ports : Program.Ports O A ε W} {R : W → W → Prop} {Q : Except ε α → W → Prop}

theorem safe_of_rely {ok : Assumption O A ε W} (ht : ∀ a b c, R a b → R b c → R a c)
    {p : Program O A ε α} {past : List (Event O A ε)} {w w' : W}
    (h : Safe ports R ok Q p past w) (hw : R w w') : Safe ports R ok Q p past w' := by
  cases p with
  | done r => exact fun w'' hw'' => h w'' (ht _ _ _ hw hw'')
  | call o next => exact fun w'' hw'' => h w'' (ht _ _ _ hw hw'')

/-- A postcondition on results, which asks nothing of an exception. -/
def Returning (P : α → W → Prop) : Except ε α → W → Prop := fun r w => ∀ a, r = .ok a → P a w

section Rules

variable {ok : Assumption O A ε W} {P : α → W → Prop} {past : List (Event O A ε)} {w : W} {β : Type}

theorem safe_pure {a : α} (h : ∀ w', R w w' → P a w') :
    Safe ports R ok (Returning P) (pure a : Program O A ε α) past w := by
  rintro w' hw' _ ⟨⟩
  exact h w' hw'

theorem safe_raise (e : ε) :
    Safe ports R ok (Returning P) (Program.raise e : Program O A ε α) past w := by
  rintro w' - _ ⟨⟩

theorem safe_ofExcept_bind {r : Except ε β} {f : β → Program O A ε α}
    (h : ∀ b, r = .ok b → Safe ports R ok (Returning P) (f b) past w) :
    Safe ports R ok (Returning P) (Program.ofExcept r >>= f) past w := by
  cases r with
  | ok b => exact h b rfl
  | error e => exact safe_raise e

theorem safe_port_bind {o : O} {f : A o → Program O A ε α}
    (h : ∀ w', R w w' → ok past o w' → R w' (ports o w').2 ∧ ∀ a, (ports o w').1 = .ok a →
      Safe ports R ok (Returning P) (f a) (past ++ [⟨o, .ok a⟩]) (ports o w').2) :
    Safe ports R ok (Returning P) (Program.port o >>= f) past w := by
  intro w' hw'
  refine ⟨fun e => safe_raise e, fun hok => ?_⟩
  obtain ⟨hmove, hnext⟩ := h w' hw' hok
  refine ⟨hmove, ?_⟩
  cases hr : (ports o w').1 with
  | ok a => exact hnext a hr
  | error e => exact safe_raise e

/-- Sequencing: what the first part guarantees of its result is what the rest starts from. -/
theorem safe_bind (hr : ∀ w, R w w) {P' : β → W → Prop} {p : Program O A ε β}
    {f : β → Program O A ε α} (hp : Safe ports R ok (Returning P') p past w)
    (hf : ∀ b past' w', P' b w' → Safe ports R ok (Returning P) (f b) past' w') :
    Safe ports R ok (Returning P) (p >>= f) past w := by
  induction p generalizing past w with
  | done r =>
      cases r with
      | ok b => exact hf b past w (hp w (hr w) b rfl)
      | error e => exact safe_raise e
  | call o next ih =>
      intro w' hw'
      obtain ⟨hfail, hserve⟩ := hp w' hw'
      exact ⟨fun e => ih _ (hfail e), fun hok => ⟨(hserve hok).1, ih _ (hserve hok).2⟩⟩

end Rules

def AllSafe (ports : Program.Ports O A ε W) (R : W → W → Prop) (ok : ι → Assumption O A ε W)
    (Q : ι → Except ε α → W → Prop) (c : Config O A ε α W ι) : Prop :=
  ∀ i, Safe ports R (ok i) (Q i) (c.threads i).rest (c.threads i).past c.world

variable {ok : ι → Assumption O A ε W} {Q : ι → Except ε α → W → Prop}

theorem outcome_of_allSafe (hr : ∀ w, R w w) {c : Config O A ε α W ι}
    (h : AllSafe ports R ok Q c) {i : ι} {r : Except ε α}
    (ho : (c.threads i).outcome = some r) : Q i r c.world := by
  have hi := h i
  unfold Thread.outcome at ho
  cases hrest : (c.threads i).rest with
  | done r' =>
      rw [hrest] at ho hi
      simp only [Option.some.injEq] at ho
      exact ho ▸ hi c.world (hr _)
  | call o next => simp [hrest] at ho

variable [DecidableEq ι]

/-- Every served call of the schedule meets the assumption made about it. -/
def Admissible (ports : Program.Ports O A ε W) (ok : ι → Assumption O A ε W) :
    Config O A ε α W ι → List (Choice ε ι) → Prop
  | _, [] => True
  | c, s :: l =>
      (∀ o next, (c.threads s.1).rest = .call o next → s.2 = none →
        ok s.1 (c.threads s.1).past o c.world) ∧ Admissible ports ok (step ports c s) l

theorem admissible_append {ok : ι → Assumption O A ε W} {c : Config O A ε α W ι}
    {l l' : List (Choice ε ι)} :
    Admissible ports ok c (l ++ l') ↔
      Admissible ports ok c l ∧ Admissible ports ok (run ports c l) l' := by
  induction l generalizing c with
  | nil => simp [Admissible]
  | cons s l ih => simp only [List.cons_append, Admissible, ih, run_cons, and_assoc]

theorem step_safe (hr : ∀ w, R w w) (ht : ∀ a b c, R a b → R b c → R a c)
    {c : Config O A ε α W ι} {s : Choice ε ι} (h : AllSafe ports R ok Q c)
    (hok : ∀ o next, (c.threads s.1).rest = .call o next → s.2 = none →
      ok s.1 (c.threads s.1).past o c.world) :
    R c.world (step ports c s).world ∧ AllSafe ports R ok Q (step ports c s) := by
  obtain ⟨i, fault⟩ := s
  cases hrest : (c.threads i).rest with
  | done r =>
      rw [step_of_done ports (s := (i, fault)) hrest]
      exact ⟨hr _, h⟩
  | call o next =>
      have hi := h i
      rw [hrest] at hi
      obtain ⟨hfail, hserve⟩ := hi c.world (hr _)
      cases fault with
      | some e =>
          rw [step_of_fault ports hrest]
          refine ⟨hr _, fun j => ?_⟩
          by_cases hj : j = i
          · subst hj
            simpa only [Function.update_self, Thread.resume] using hfail e
          · simpa only [Function.update_of_ne hj] using h j
      | none =>
          rw [step_of_served ports hrest]
          obtain ⟨hmove, hnext⟩ := hserve (hok o next hrest rfl)
          refine ⟨hmove, fun j => ?_⟩
          by_cases hj : j = i
          · subst hj
            simpa only [Function.update_self, Thread.resume] using hnext
          · simpa only [Function.update_of_ne hj] using safe_of_rely ht (h j) hmove

theorem run_safe (hr : ∀ w, R w w) (ht : ∀ a b c, R a b → R b c → R a c)
    {c : Config O A ε α W ι} {l : List (Choice ε ι)} (h : AllSafe ports R ok Q c)
    (hok : Admissible ports ok c l) :
    R c.world (run ports c l).world ∧ AllSafe ports R ok Q (run ports c l) := by
  induction l generalizing c with
  | nil => exact ⟨hr _, h⟩
  | cons s l ih =>
      obtain ⟨hmove, hsafe⟩ := step_safe hr ht h hok.1
      obtain ⟨hrest, hend⟩ := ih hsafe hok.2
      exact ⟨ht _ _ _ hmove hrest, hend⟩

end Safe

end Interleaving
