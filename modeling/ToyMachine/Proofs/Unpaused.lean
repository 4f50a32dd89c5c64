import ToyMachine.Proofs.Dialogue
import ToyMachine.Run

/-! Cycles with and without a pause. A cycle that waits for the operator is the same cycle
without waiting, followed by the pause. Without the pause it is a dialogue, since the display is
printed as one text. -/

namespace ToyMachine

def RunOptions.unpaused (o : RunOptions) : RunOptions :=
  { o with singleStep := false }

def RunFailure.failure? : RunFailure → Option Console.Failure
  | stopped fault => fault.failure?
  | display failure => some failure
  | waiting failure => some failure

theorem Fault.chain_of_failure {f : Fault} {failure : Console.Failure}
    (blamed : f.failure? = some failure) : f.chain.getLast? = some failure.message := by
  obtain ⟨cause, width, pc⟩ := f
  cases cause with
  | console e =>
    obtain rfl : e = failure := Option.some.inj blamed
    rfl
  | invalidOpcode | invalidRegister | noSuchCell => exact absurd blamed nofun

theorem RunFailure.chain_of_failure {e : RunFailure} {failure : Console.Failure}
    (blamed : e.failure? = some failure) : e.chain.getLast? = some failure.message := by
  cases e with
  | stopped fault =>
    rw [chain, List.getLast?_cons, Fault.chain_of_failure blamed]
    rfl
  | display e | waiting e =>
    obtain rfl : e = failure := Option.some.inj blamed
    rfl

namespace Machine

variable {ε ε' α : Type} {cause : ε → Option Console.Failure}

theorem mapFailure_speaks {act : Action ε α} (speaks : Speaks cause act)
    (cause' : ε' → Option Console.Failure) (f : ε → ε')
    (keeps : ∀ e failure, cause e = some failure → cause' (f e) = some failure) :
    Speaks cause' (mapFailure f act) := by
  intro cpu memory
  obtain ⟨d, same⟩ := speaks cpu memory
  obtain ⟨d', recast⟩ := d.exists_recast cause' (fun e _ => f e) fun e _ => keeps e
  refine ⟨d', fun console => ?_⟩
  rw [recast, ← same console, mapFailure]
  cases act ⟨cpu, memory, console⟩ <;> rfl

theorem displayCycle_speaks (half : Nat) : Speaks some (displayCycle half) :=
  fun cpu memory => speaks_call (.print (Display.cycle cpu memory half)) cpu memory

theorem cycle_speaks (o : RunOptions) : Speaks RunFailure.failure? (cycle o.unpaused) := by
  have steps : Speaks RunFailure.failure? (mapFailure .stopped step) :=
    mapFailure_speaks step_speaks _ _ fun _ _ blamed => blamed
  have shows : Speaks RunFailure.failure? (mapFailure .display (displayCycle o.window)) :=
    mapFailure_speaks (displayCycle_speaks _) _ _ fun _ _ blamed => blamed
  refine steps.bind fun _ => ?_
  cases traced : o.trace with
  | true =>
    simp only [RunOptions.unpaused, traced]
    exact shows.bind fun _ => speaks_pure ()
  | false =>
    simp only [RunOptions.unpaused, traced]
    exact (speaks_pure ()).bind fun _ => speaks_pure ()

theorem cycle_eq (o : RunOptions) : cycle o = (do
    cycle o.unpaused
    if o.singleStep then mapFailure .waiting (onConsole Console.wait)) := by
  cases traced : o.trace <;> cases stepping : o.singleStep <;>
    simp [cycle, RunOptions.unpaused, traced, stepping]

end Machine

end ToyMachine
