import OratoriaEngine.Lib.Interleaving

/-!
# Two sets of ports behind the same threads

The same threads run under the same schedule on two sets of ports. While every call that is
served is one the ports answer alike in related worlds, the threads cannot tell the ports apart
and the worlds stay related.
-/

namespace Interleaving

variable {O : Type} {A : O → Type} {ε α W W' ι : Type} [DecidableEq ι]

/-- Where `lawful` is kept by every step, and what is served in a lawful configuration is
answered alike in related worlds, two runs of one schedule agree in all their threads. -/
theorem run_related (ports : Program.Ports O A ε W) (ports' : Program.Ports O A ε W')
    (related : W → W' → Prop) (lawful : Config O A ε α W ι → Prop)
    (hlawful : ∀ c choice, lawful c → lawful (step ports c choice))
    (hserved : ∀ c i o next w', lawful c → (c.threads i).rest = .call o next →
      related c.world w' → (ports' o w').1 = (ports o c.world).1 ∧
        related (ports o c.world).2 (ports' o w').2)
    {c : Config O A ε α W ι} (c' : Config O A ε α W' ι) (hc : lawful c)
    (hthreads : c'.threads = c.threads) (hworlds : related c.world c'.world)
    (schedule : List (Choice ε ι)) :
    (run ports' c' schedule).threads = (run ports c schedule).threads ∧
      related (run ports c schedule).world (run ports' c' schedule).world := by
  induction schedule generalizing c c' with
  | nil => exact ⟨hthreads, hworlds⟩
  | cons choice schedule ih =>
      obtain ⟨i, fault⟩ := choice
      rw [run_cons, run_cons]
      cases hrest : (c.threads i).rest with
      | done r =>
          have hrest' : (c'.threads i).rest = .done r := by rw [hthreads, hrest]
          rw [step_of_done ports (s := (i, fault)) hrest,
            step_of_done ports' (s := (i, fault)) hrest']
          exact ih _ hc hthreads hworlds
      | call o next =>
          have hrest' : (c'.threads i).rest = .call o next := by rw [hthreads, hrest]
          have hnext := hlawful c (i, fault) hc
          cases fault with
          | some e =>
              rw [step_of_fault ports hrest] at hnext ⊢
              rw [step_of_fault ports' hrest']
              exact ih _ hnext (by rw [hthreads]) hworlds
          | none =>
              obtain ⟨hanswer, hrelated⟩ := hserved c i o next c'.world hc hrest hworlds
              rw [step_of_served ports hrest] at hnext ⊢
              rw [step_of_served ports' hrest']
              exact ih _ hnext (by rw [hthreads, hanswer]) hrelated

end Interleaving
