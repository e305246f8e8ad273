import Mathlib.Algebra.BigOperators.Group.List.Basic
import Mathlib.Algebra.Ring.Nat
import OratoriaEngine.Lib.Stateful

/-!
# Coroutines that share a state

A coroutine reads and writes the shared state between its awaits, and an await is the only
point at which another coroutine may run. A pool holds the calls that were begun, each
stopped at an await or over. The second half accounts for a resource the calls take and
give back: what one call keeps between its awaits, every interleaving keeps.
-/

/-- Coroutines over the state `σ` awaiting the operations `O`, where `o : O` answers in `A o` or
raises. -/
inductive Coroutine (O : Type) (A : O → Type) (σ ε α : Type) : Type
  | done (r : Except ε α) : Coroutine O A σ ε α
  | read (next : σ → Coroutine O A σ ε α) : Coroutine O A σ ε α
  | write (f : σ → σ) (next : Coroutine O A σ ε α) : Coroutine O A σ ε α
  | await (o : O) (next : Except ε (A o) → Coroutine O A σ ε α) : Coroutine O A σ ε α

namespace Coroutine

variable {O : Type} {A : O → Type} {σ ε α β κ : Type}

/-- Go on with the outcome, whether it is a result or an exception. -/
def andThen : Coroutine O A σ ε α → (Except ε α → Coroutine O A σ ε β) → Coroutine O A σ ε β
  | .done r, f => f r
  | .read next, f => .read fun s => (next s).andThen f
  | .write g next, f => .write g (next.andThen f)
  | .await o next, f => .await o fun r => (next r).andThen f

/-- An exception ends the coroutine; nothing after it is executed. -/
def bind (p : Coroutine O A σ ε α) (f : α → Coroutine O A σ ε β) : Coroutine O A σ ε β :=
  p.andThen fun r => match r with
    | .ok a => f a
    | .error e => .done (.error e)

instance : Monad (Coroutine O A σ ε) where
  pure a := .done (.ok a)
  bind := Coroutine.bind

/-- Run the coroutine, then its cleanup, whether it returned or raised. -/
def finallyDo (p : Coroutine O A σ ε α) (cleanup : σ → σ) : Coroutine O A σ ε α :=
  p.andThen fun r => .write cleanup (.done r)

def look : Coroutine O A σ ε σ := .read fun s => .done (.ok s)

def update (f : σ → σ) : Coroutine O A σ ε Unit := .write f (.done (.ok ()))

def raise (e : ε) : Coroutine O A σ ε α := .done (.error e)

def call (o : O) : Coroutine O A σ ε (A o) := .await o .done

/-- An action without awaits, its exceptions raised as `wrap` says. -/
def act {ε' : Type} (wrap : ε' → ε) (m : Stateful σ ε' α) : Coroutine O A σ ε α :=
  .read fun s => .write (fun _ => (m.exec s).2) (.done ((m.exec s).1.mapError wrap))

/-- Every await is answered before anything else runs. -/
def runAlone (ports : (o : O) → σ → Except ε (A o)) :
    Coroutine O A σ ε α → σ → Except ε α × σ
  | .done r, s => (r, s)
  | .read next, s => (next s).runAlone ports s
  | .write f next, s => next.runAlone ports (f s)
  | .await o next, s => (next (ports o s)).runAlone ports s

section RunAlone

variable (ports : (o : O) → σ → Except ε (A o)) (s : σ)

theorem runAlone_andThen (p : Coroutine O A σ ε α) (f : Except ε α → Coroutine O A σ ε β) :
    (p.andThen f).runAlone ports s =
      (f (p.runAlone ports s).1).runAlone ports (p.runAlone ports s).2 := by
  induction p generalizing s with
  | done r => rfl
  | read next ih => exact ih s s
  | write g next ih => exact ih (g s)
  | await o next ih => exact ih (ports o s) s

@[simp] theorem runAlone_pure (a : α) :
    (pure a : Coroutine O A σ ε α).runAlone ports s = (.ok a, s) := rfl

@[simp] theorem runAlone_raise (e : ε) :
    (raise e : Coroutine O A σ ε α).runAlone ports s = (.error e, s) := rfl

@[simp] theorem runAlone_look :
    (look : Coroutine O A σ ε σ).runAlone ports s = (.ok s, s) := rfl

@[simp] theorem runAlone_look_bind (f : σ → Coroutine O A σ ε β) :
    (look >>= f).runAlone ports s = (f s).runAlone ports s := rfl

@[simp] theorem runAlone_update_bind (g : σ → σ) (f : Unit → Coroutine O A σ ε β) :
    (update g >>= f).runAlone ports s = (f ()).runAlone ports (g s) := rfl

@[simp] theorem runAlone_update (g : σ → σ) :
    (update g : Coroutine O A σ ε Unit).runAlone ports s = (.ok (), g s) := rfl

@[simp] theorem runAlone_act {ε' : Type} (wrap : ε' → ε) (m : Stateful σ ε' α) :
    (act wrap m : Coroutine O A σ ε α).runAlone ports s =
      ((m.exec s).1.mapError wrap, (m.exec s).2) := rfl

theorem runAlone_bind (p : Coroutine O A σ ε α) (f : α → Coroutine O A σ ε β) :
    (p >>= f).runAlone ports s =
      match p.runAlone ports s with
      | (.ok a, t) => (f a).runAlone ports t
      | (.error e, t) => (.error e, t) := by
  change (p.andThen _).runAlone ports s = _
  rw [runAlone_andThen]
  rcases p.runAlone ports s with ⟨e | a, t⟩ <;> rfl

@[simp] theorem runAlone_finallyDo (p : Coroutine O A σ ε α) (cleanup : σ → σ) :
    (p.finallyDo cleanup).runAlone ports s =
      ((p.runAlone ports s).1, cleanup (p.runAlone ports s).2) := runAlone_andThen ports s p _

end RunAlone

def Mirrors {ε' : Type} (ports : (o : O) → σ → Except ε (A o)) (wrap : ε' → ε)
    (p : Coroutine O A σ ε α) (m : Stateful σ ε' α) : Prop :=
  ∀ s, p.runAlone ports s = ((m.exec s).1.mapError wrap, (m.exec s).2)

section Mirrors

variable {ε' : Type} {ports : (o : O) → σ → Except ε (A o)} {wrap : ε' → ε}

theorem mirrors_pure (a : α) :
    Mirrors ports wrap (pure a : Coroutine O A σ ε α) (pure a) := fun _ => rfl

theorem mirrors_act (m : Stateful σ ε' α) : Mirrors ports wrap (act wrap m) m := fun _ => rfl

theorem mirrors_update (f : σ → σ) : Mirrors ports wrap (update f) (modify f) := fun _ => rfl

theorem mirrors_bind {p : Coroutine O A σ ε α} {f : α → Coroutine O A σ ε β}
    {m : Stateful σ ε' α} {g : α → Stateful σ ε' β} (hp : Mirrors ports wrap p m)
    (hf : ∀ a, Mirrors ports wrap (f a) (g a)) : Mirrors ports wrap (p >>= f) (m >>= g) := by
  intro s
  rw [runAlone_bind, hp s, Stateful.exec_bind]
  rcases m.exec s with ⟨e | a, t⟩
  · rfl
  · exact hf a t

theorem mirrors_look_bind {f : σ → Coroutine O A σ ε β} {g : σ → Stateful σ ε' β}
    (h : ∀ s, Mirrors ports wrap (f s) (g s)) : Mirrors ports wrap (look >>= f) (get >>= g) :=
  fun s => h s s

theorem mirrors_finallyDo {p : Coroutine O A σ ε α} {m : Stateful σ ε' α} (cleanup : σ → σ)
    (h : Mirrors ports wrap p m) :
    Mirrors ports wrap (p.finallyDo cleanup) (m.finallyDo cleanup) := by
  intro s
  rw [runAlone_finallyDo, h s, Stateful.exec_finallyDo]

end Mirrors

def settle : Coroutine O A σ ε α → σ → Coroutine O A σ ε α × σ
  | .done r, s => (.done r, s)
  | .read next, s => (next s).settle s
  | .write f next, s => next.settle (f s)
  | .await o next, s => (.await o next, s)

/-- The states written on the way to the next await. -/
def passed : Coroutine O A σ ε α → σ → List σ
  | .done _, _ => []
  | .read next, s => (next s).passed s
  | .write f next, s => f s :: next.passed (f s)
  | .await _ _, _ => []

def isOver : Coroutine O A σ ε α → Bool
  | .done _ => true
  | _ => false

/-- The shared state and the calls begun so far, each stopped at an await or over. -/
structure Pool (O : Type) (A : O → Type) (σ ε α : Type) where
  shared : σ
  calls : List (Coroutine O A σ ε α)

/-- A new call runs to its first await, or a pending one goes on with an answer. -/
inductive Move (O : Type) (A : O → Type) (ε κ : Type)
  | begin (request : κ) : Move O A ε κ
  | resume (i : ℕ) (answer : (o : O) → Except ε (A o)) : Move O A ε κ

namespace Pool

section Step

variable (serve : κ → Coroutine O A σ ε α)

/-- What a move lets run: the new call, or the rest of a pending one. Nothing else can move. -/
def running (pool : Pool O A σ ε α) : Move O A ε κ → Option (Coroutine O A σ ε α)
  | .begin request => some (serve request)
  | .resume i answer =>
      match pool.calls[i]? with
      | some (.await o next) => some (next (answer o))
      | _ => none

def park (pool : Pool O A σ ε α) (p : Coroutine O A σ ε α) :
    Move O A ε κ → List (Coroutine O A σ ε α)
  | .begin _ => pool.calls ++ [p]
  | .resume i _ => pool.calls.set i p

def step (pool : Pool O A σ ε α) (move : Move O A ε κ) : Pool O A σ ε α :=
  match pool.running serve move with
  | none => pool
  | some p => ⟨(p.settle pool.shared).2, pool.park (p.settle pool.shared).1 move⟩

/-- The states a move writes on its way. -/
def during (pool : Pool O A σ ε α) (move : Move O A ε κ) : List σ :=
  match pool.running serve move with
  | none => []
  | some p => p.passed pool.shared

def run (pool : Pool O A σ ε α) (moves : List (Move O A ε κ)) : Pool O A σ ε α :=
  moves.foldl (step serve) pool

end Step

end Pool

/-- A resource the calls take and give back: the share a call holds while it awaits `o`, and the
states that fit a total of shares. -/
structure Allotment (O σ : Type) where
  share : O → ℕ
  fits : ℕ → σ → Prop

namespace Allotment

variable (a : Allotment O σ)

def shareOf : Coroutine O A σ ε α → ℕ
  | .await o _ => a.share o
  | _ => 0

def Within (s : σ) : Prop := ∃ n, a.fits n s

/-- While the others hold `k`, the coroutine passes through states within the allotment, awaits
an operation only when the state fits its share of it, and ends as `Q` says. -/
def Accounts (Q : ℕ → σ → Except ε α → Prop) : ℕ → Coroutine O A σ ε α → σ → Prop
  | k, .done r, s => Q k s r
  | k, .read next, s => Accounts Q k (next s) s
  | k, .write f next, s => a.Within (f s) ∧ Accounts Q k next (f s)
  | k, .await o next, s =>
      a.fits (k + a.share o) s ∧
        ∀ r k' s', a.fits (k' + a.share o) s' → Accounts Q k' (next r) s'

/-- Beginning with a share `m` and whatever the others hold, the coroutine ends with a share `n`,
whether it returns or raises. -/
def Takes (m : ℕ) (p : Coroutine O A σ ε α) (n : ℕ) : Prop :=
  ∀ k s, a.fits (k + m) s → a.Accounts (fun k s _ => a.fits (k + n) s) k p s

section Rules

variable {a} {Q : ℕ → σ → Except ε β → Prop} {k l m n : ℕ} {s : σ}

theorem Accounts.andThen {R : ℕ → σ → Except ε α → Prop} {p : Coroutine O A σ ε α}
    {f : Except ε α → Coroutine O A σ ε β} (hp : a.Accounts R k p s)
    (hf : ∀ k s r, R k s r → a.Accounts Q k (f r) s) : a.Accounts Q k (p.andThen f) s := by
  induction p generalizing k s with
  | done r => exact hf k s r hp
  | read next ih => exact ih s hp
  | write g next ih => exact ⟨hp.1, ih hp.2⟩
  | await o next ih => exact ⟨hp.1, fun r k' s' hs' => ih r (hp.2 r k' s' hs')⟩

theorem Takes.andThen {p : Coroutine O A σ ε α} {f : Except ε α → Coroutine O A σ ε β}
    (hp : a.Takes l p m) (hf : ∀ r, a.Takes m (f r) n) : a.Takes l (p.andThen f) n :=
  fun k s hs => (hp k s hs).andThen fun k s r hr => hf r k s hr

theorem takes_done (r : Except ε α) : a.Takes n (.done r : Coroutine O A σ ε α) n :=
  fun _ _ hs => hs

theorem takes_pure (b : α) : a.Takes n (pure b : Coroutine O A σ ε α) n := takes_done _

theorem takes_bind {p : Coroutine O A σ ε α} {f : α → Coroutine O A σ ε β}
    (hp : a.Takes m p n) (hf : ∀ b, a.Takes n (f b) n) : a.Takes m (p >>= f) n := by
  apply hp.andThen
  intro r
  cases r with
  | ok b => exact hf b
  | error e => exact takes_done _

theorem takes_finallyDo {p : Coroutine O A σ ε α} {cleanup : σ → σ} (hp : a.Takes l p m)
    (hcleanup : ∀ k s, a.fits (k + m) s → a.fits (k + n) (cleanup s)) :
    a.Takes l (p.finallyDo cleanup) n :=
  hp.andThen fun _ k s hs => ⟨⟨_, hcleanup k s hs⟩, hcleanup k s hs⟩

theorem takes_look_bind {f : σ → Coroutine O A σ ε β} (hf : ∀ s, a.Takes m (f s) n) :
    a.Takes m (look >>= f) n := fun k s hs => hf s k s hs

theorem takes_update {f : σ → σ} (hf : ∀ k s, a.fits (k + m) s → a.fits (k + n) (f s)) :
    a.Takes m (update f : Coroutine O A σ ε Unit) n :=
  fun k s hs => ⟨⟨_, hf k s hs⟩, hf k s hs⟩

theorem takes_act {ε' : Type} {wrap : ε' → ε} {act' : Stateful σ ε' α}
    (h : ∀ k s, a.fits (k + m) s → a.fits (k + n) (act'.exec s).2) :
    a.Takes m (act wrap act' : Coroutine O A σ ε α) n :=
  fun k s hs => ⟨⟨_, h k s hs⟩, h k s hs⟩

theorem takes_call (o : O) :
    a.Takes (a.share o) (call o : Coroutine O A σ ε (A o)) (a.share o) :=
  fun _ _ hs => ⟨hs, fun _ _ _ hs' => hs'⟩

end Rules

/-- A stopped call that goes on being accounted for, whatever it is answered. -/
def Parked : Coroutine O A σ ε α → Prop
  | .await o next => ∀ r, a.Takes (a.share o) (next r) 0
  | _ => True

/-- The state fits the shares the calls of the pool hold. -/
structure Balanced (pool : Pool O A σ ε α) : Prop where
  fits : a.fits ((pool.calls.map a.shareOf).sum) pool.shared
  parked : ∀ p ∈ pool.calls, a.Parked p

theorem exists_sum_map_set {γ : Type} {l : List γ} {i : ℕ} {x : γ} (h : l[i]? = some x)
    (f : γ → ℕ) : ∃ k, (l.map f).sum = k + f x ∧ ∀ y, ((l.set i y).map f).sum = k + f y := by
  induction l generalizing i with
  | nil => simp at h
  | cons z l ih =>
      cases i with
      | zero =>
          obtain rfl : z = x := by simpa using h
          exact ⟨(l.map f).sum, by simp [add_comm], by simp [add_comm]⟩
      | succ i =>
          obtain ⟨k, hk, hset⟩ := ih (by simpa using h)
          refine ⟨f z + k, by simp [hk, add_assoc], fun y => ?_⟩
          rw [List.set_cons_succ, List.map_cons, List.sum_cons, hset, add_assoc]

section Steps

variable {a} {k : ℕ}

/-- Between two awaits a coroutine that is accounted for stays within the allotment, and stops
where its share fits. -/
theorem Accounts.settle {p : Coroutine O A σ ε α} {s : σ}
    (hp : a.Accounts (fun k s _ => a.fits k s) k p s) :
    a.fits (k + a.shareOf (p.settle s).1) (p.settle s).2 ∧ a.Parked (p.settle s).1 ∧
      ∀ t ∈ p.passed s, a.Within t := by
  induction p generalizing s with
  | done r => exact ⟨hp, trivial, by simp [passed]⟩
  | read next ih => exact ih s hp
  | write f next ih =>
      obtain ⟨hfits, hparked, hpassed⟩ := ih hp.2
      refine ⟨hfits, hparked, ?_⟩
      intro t ht
      rcases List.mem_cons.1 ht with rfl | ht
      · exact hp.1
      · exact hpassed t ht
  | await o next ih => exact ⟨hp.1, hp.2, by simp [passed]⟩

variable {serve : κ → Coroutine O A σ ε α} {pool : Pool O A σ ε α}

/-- What a move lets run is accounted for beside the other calls, whose shares stay as they are. -/
theorem Balanced.running
    (hserve : ∀ request, a.Takes 0 (serve request) 0)
    (hpool : a.Balanced pool) {move : Move O A ε κ} {p : Coroutine O A σ ε α}
    (hp : pool.running serve move = some p) :
    ∃ k, a.Accounts (fun k s _ => a.fits k s) k p pool.shared ∧ ∀ q,
      ((pool.park q move).map a.shareOf).sum = k + a.shareOf q ∧
        ∀ q' ∈ pool.park q move, q' ∈ pool.calls ∨ q' = q := by
  cases move with
  | begin request =>
      obtain rfl := Option.some.inj hp
      refine ⟨(pool.calls.map a.shareOf).sum, hserve request _ _ hpool.fits, fun q => ⟨?_, ?_⟩⟩
      · simp [Pool.park]
      · intro q' hq'
        simpa [Pool.park] using hq'
  | resume i answer =>
      simp only [Pool.running] at hp
      split at hp
      · rename_i o next hcall
        obtain rfl := Option.some.inj hp
        obtain ⟨k, htotal, hset⟩ := exists_sum_map_set hcall a.shareOf
        refine ⟨k, ?_, fun q => ⟨hset q, fun q' hq' => List.mem_or_eq_of_mem_set hq'⟩⟩
        apply hpool.parked _ (List.mem_of_getElem? hcall) (answer o)
        have hfits := hpool.fits
        rwa [htotal] at hfits
      · cases hp

/-- One move keeps the balance, and passes through states within the allotment only. -/
theorem Balanced.step
    (hserve : ∀ request, a.Takes 0 (serve request) 0)
    (hpool : a.Balanced pool) (move : Move O A ε κ) :
    a.Balanced (pool.step serve move) ∧ ∀ t ∈ pool.during serve move, a.Within t := by
  rw [Pool.step, Pool.during]
  cases hp : pool.running serve move with
  | none => exact ⟨hpool, by simp⟩
  | some p =>
      obtain ⟨k, hacc, hpark⟩ := hpool.running hserve hp
      obtain ⟨hfits, hparked, hpassed⟩ := hacc.settle
      refine ⟨⟨?_, ?_⟩, hpassed⟩
      · rw [(hpark _).1]
        exact hfits
      · intro q hq
        rcases (hpark _).2 q hq with hq | rfl
        · exact hpool.parked q hq
        · exact hparked

/-- However the calls are interleaved and answered, the state fits the shares they hold. -/
theorem Balanced.run
    (hserve : ∀ request, a.Takes 0 (serve request) 0)
    (hpool : a.Balanced pool) (moves : List (Move O A ε κ)) :
    a.Balanced (pool.run serve moves) := by
  induction moves generalizing pool with
  | nil => exact hpool
  | cons move moves ih => exact ih (hpool.step hserve move).1

end Steps

end Allotment

end Coroutine
