import ToyMachine.Display.Table
import ToyMachine.Machine.Execute

/-!
Running: one cycle after another until the machine halts, with the display after
each and, if asked for, a pause for the operator. A program need not end, so a run
is given the number of cycles that it may take and says when these were too few;
it can then be taken up again where it stands.
-/

namespace ToyMachine

structure RunOptions where
  /-- Display the machine after every cycle. -/
  trace : Bool := true
  /-- Wait for the operator after every cycle. -/
  singleStep : Bool := false
  /-- Cells on each side of a window of memory. -/
  window : Nat := 6
deriving DecidableEq, Repr

inductive RunFailure where
  | stopped (fault : Fault)
  | display (failure : Console.Failure)
  | waiting (failure : Console.Failure)
deriving DecidableEq, Repr

def RunFailure.chain : RunFailure → List String
  | stopped fault => "execution stopped" :: fault.chain
  | display failure => ["failed to render trace", failure.message]
  | waiting failure => ["failed to wait for the operator", failure.message]

namespace Machine

def starting (memory : Memory) (console : Console) : Machine :=
  ⟨.startingAt Processor.defaultEntry, memory, console⟩

def mapFailure {α ε ε' : Type} (f : ε → ε') (act : Action ε α) : Action ε' α := fun m =>
  match act m with
  | .ok a m => .ok a m
  | .error e m => .error (f e) m

def displayCycle (half : Nat) : Action Console.Failure Unit :=
  display fun cpu memory => Display.cycle cpu memory half

def cycle (o : RunOptions) : Action RunFailure Unit := do
  mapFailure .stopped step
  if o.trace then mapFailure .display (displayCycle o.window)
  if o.singleStep then mapFailure .waiting (onConsole Console.wait)

/-- Runs for at most `cycles` cycles, and answers whether the machine has halted. -/
def run (o : RunOptions) : (cycles : Nat) → Action RunFailure Bool
  | 0 => cpuHas (·.halted)
  | cycles + 1 => do
    if ← cpuHas (·.halted) then pure true
    else
      cycle o
      run o cycles

def runToHalt (o : RunOptions) (cycles : Nat) : Action RunFailure Bool := do
  let halted ← run o cycles
  if halted then
    let pc ← cpuHas (·.pc)
    note (.terminated pc)
  pure halted

end Machine

end ToyMachine
