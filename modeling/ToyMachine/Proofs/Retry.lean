import ToyMachine.Proofs.Atomic
import ToyMachine.Proofs.Fault
import ToyMachine.Proofs.Overlay

/-! Failed cycles can be tried again. A cycle that fails has changed no more than marks, the
console and the console cell, and the next attempt takes its marks back. The console cell is
stored to again before it is looked at, by the word that the operator gives or by the word that
is shown, unless the instruction itself is in it. So with another console the next attempt does
what it would have done in the first place. -/

namespace ToyMachine

theorem Memory.SameOutside.read_eq {m m' : Memory} {w : Width} {c : w.Cell}
    (same : m.SameOutside w c m') {address : Address} (other : address.toNat ≠ c.val) :
    m'.read w address = m.read w address := by
  by_cases bound : address.toNat < w.cells
  · have cell : m'.get w ⟨address.toNat, bound⟩ = m.get w ⟨address.toNat, bound⟩ :=
      get_congr fun k h inside => same k h fun own => other (inside.symm.trans own)
    rw [m'.read_eq bound, m.read_eq bound, cell]
  · rw [read_of_missing _ bound, read_of_missing _ bound]

theorem Processor.SameState.beginCycle_eq {cpu cpu' : Processor}
    (same : cpu.beginCycle.SameState cpu') : cpu'.beginCycle = cpu.beginCycle := by
  obtain ⟨width, pc, oldPc, -, halted, registers⟩ := same
  obtain ⟨_, _, _, _, _, _, _⟩ := cpu'
  dsimp only at width pc oldPc halted registers
  subst width pc oldPc halted registers
  rfl

namespace Machine

variable {α β : Type}

/-- The same outcome with the same processor and the same console. Of an action that fails the
memory may be different. -/
inductive Repeats : EStateM.Result Fault Machine α → EStateM.Result Fault Machine α → Prop where
  | ok (a : α) (m : Machine) : Repeats (.ok a m) (.ok a m)
  | error (f : Fault) (cpu : Processor) (memory memory' : Memory) (console : Console) :
      Repeats (.error f ⟨cpu, memory, console⟩) (.error f ⟨cpu, memory', console⟩)

theorem Repeats.refl (r : EStateM.Result Fault Machine α) : Repeats r r := by
  cases r with
  | ok a m => exact .ok a m
  | error f m => exact .error f m.cpu m.memory m.memory m.console

theorem Repeats.bind {act : Action Fault α} {next : α → Action Fault β} {m m' : Machine}
    (first : Repeats (act m) (act m')) : Repeats ((act >>= next) m) ((act >>= next) m') := by
  change Repeats (EStateM.bind act next m) (EStateM.bind act next m')
  rw [EStateM.bind, EStateM.bind]
  generalize act m = r at first
  generalize act m' = r' at first
  cases first with
  | ok a m => exact .refl _
  | error f cpu memory memory' console => exact .error f cpu memory memory' console

section Accesses

variable {cpu : Processor} {memory memory' : Memory}
  (same : memory.SameOutside cpu.width cpu.width.consoleCell memory') (console : Console)

include same

/-- The word that the operator gives replaces what was in the cell. -/
theorem readMemory_repeats :
    Repeats (readMemory cpu.width.consoleAddress ⟨cpu, memory, console⟩)
      (readMemory cpu.width.consoleAddress ⟨cpu, memory', console⟩) := by
  cases answer : Console.ask cpu.width console with
  | error failure console' =>
    rw [readMemory_unanswered memory console rfl answer,
      readMemory_unanswered memory' console rfl answer]
    exact .error _ _ _ _ _
  | ok v answered =>
    cases newline : Console.print "\n" answered with
    | error failure console' =>
      rw [readMemory_cutShort memory console rfl answer newline,
        readMemory_cutShort memory' console rfl answer newline]
      exact .error _ _ _ _ _
    | ok u printed =>
      rw [readMemory_asked memory console rfl answer newline,
        readMemory_asked memory' console rfl answer newline, same.set_eq]
      exact .refl _

theorem writeMemory_repeats (v : Word) :
    Repeats (writeMemory cpu.width.consoleAddress v ⟨cpu, memory, console⟩)
      (writeMemory cpu.width.consoleAddress v ⟨cpu, memory', console⟩) := by
  rw [writeMemory_console memory console rfl, writeMemory_console memory' console rfl, same.set_eq]
  exact .refl _

theorem execute_repeats {i : Instruction} (decoded : i.Decoded)
    (passes : cpu.transfer i = .load cpu.width.consoleAddress ∨
      ∃ v, cpu.transfer i = .store cpu.width.consoleAddress v) :
    Repeats (execute i ⟨cpu, memory, console⟩) (execute i ⟨cpu, memory', console⟩) := by
  have width := cpu.readSources_width i
  rw [← width] at same
  rcases passes with load | ⟨v, store⟩
  · rw [execute_of_load cpu memory console decoded load,
      execute_of_load cpu memory' console decoded load, ← width]
    exact (readMemory_repeats same console).bind
  · rw [execute_of_store cpu memory console decoded store,
      execute_of_store cpu memory' console decoded store, ← width]
    exact (writeMemory_repeats same console v).bind

end Accesses

theorem step_repeats {m : Machine} {i : Instruction} {memory' : Memory}
    (current : m.current? = some i) (away : m.cpu.pc.toNat ≠ m.cpu.width.consoleCell.val)
    (passes : m.cpu.transfer i = .load m.cpu.width.consoleAddress ∨
      ∃ v, m.cpu.transfer i = .store m.cpu.width.consoleAddress v)
    (same : m.memory.SameOutside m.cpu.width m.cpu.width.consoleCell memory')
    (console : Console) :
    Repeats (step ⟨m.cpu, m.memory, console⟩) (step ⟨m.cpu, memory', console⟩) := by
  obtain ⟨running, word, present, known⟩ := current?_some current
  obtain ⟨v, found, rfl⟩ := fetched?_some present
  have found' : memory'.read m.cpu.width m.cpu.pc = .ok v := by rw [same.read_eq away, found]
  rw [step_of_running (m := ⟨m.cpu, m.memory, console⟩) running,
    step_of_running (m := ⟨m.cpu, memory', console⟩) running,
    bind_of_ok (fetchInstruction_ok m.cpu.beginCycle console found known),
    bind_of_ok (fetchInstruction_ok m.cpu.beginCycle console found' known)]
  -- A cycle begins within its width, so its console cell is the same.
  have begun : m.memory.SameOutside m.cpu.beginCycle.width m.cpu.beginCycle.width.consoleCell
      memory' := same
  exact (execute_repeats begun _ (Instruction.decode_ok known).1 passes).bind

theorem step_of_retry {m m' : Machine} {f : Fault} (failed : step m = .error f m')
    (memory : Memory) (console : Console) :
    step ⟨m'.cpu, memory, console⟩ = step ⟨m.cpu, memory, console⟩ := by
  have running := running_of_error failed
  have same := (step_atomic failed).cpu
  have running' : m'.cpu.halted = false := same.halted.trans running
  rw [step_of_running (m := ⟨m'.cpu, memory, console⟩) running',
    step_of_running (m := ⟨m.cpu, memory, console⟩) running, same.beginCycle_eq]

/-- After a failure the next attempt, at another console, does what the first would have done
there: the result, the processor and the console are the same, and if it succeeds so is the
memory. The exception is a narrow instruction in the console cell that was answered or shown
in part, since its word may be gone. -/
theorem step_retry (cpu : Processor) (memory : Memory) (first second : Console) {f : Fault}
    {m' : Machine} (failed : step ⟨cpu, memory, first⟩ = .error f m')
    (intact : cpu.width = .wide ∨ cpu.pc ≠ 0xFF ∨ f.cause = .console .inputClosed) :
    Repeats (step ⟨cpu, memory, second⟩) (step ⟨m'.cpu, m'.memory, second⟩) := by
  rw [step_of_retry failed]
  have atomic := step_atomic failed
  have cycle := cycle_step ⟨cpu, memory, first⟩
  rw [failed] at cycle
  cases cycle with
  | missing | refused => exact .refl _
  | @failed i _ _ _ current quiet effect =>
    obtain ⟨failure, rfl, met⟩ := effect.error_fault
    have passes : cpu.transfer i = .load cpu.width.consoleAddress ∨
        ∃ v, cpu.transfer i = .store cpu.width.consoleAddress v :=
      met.imp id fun ⟨_, store⟩ => store
    have narrow : cpu.width = .narrow := by
      apply narrow_of_transfer current
      rcases passes with load | ⟨v, store⟩
      · simp [load]
      · simp [store]
    rcases intact with wide | away | closed
    · exact absurd (narrow.symm.trans wide) (by decide)
    · refine step_repeats current (fun cell => away ?_) passes atomic.outside second
      rw [narrow] at cell
      exact BitVec.eq_of_toNat_eq cell
    · rw [atomic.whole (.inr closed)]
      exact .refl _

/-- The word is in the console cell before it is shown, and the sink is full. -/
theorem step_retry_unshown :
    let cpu := (Processor.startingAt 0x10).setRegister 0xA 5
    let memory := Memory.zeroed.set .narrow (0x10 : Fin 0x100) 0x9AFF
    let full : Console := ⟨[], [], some 0, #[]⟩
    ∃ f m', step ⟨cpu, memory, full⟩ = .error f m' ∧
      m'.memory.get .narrow (0xFF : Fin 0x100) = 5 ∧
      ∀ second, Repeats (step ⟨cpu, memory, second⟩) (step ⟨m'.cpu, m'.memory, second⟩) := by
  intro cpu memory full
  have failed : (step ⟨cpu, memory, full⟩ matches .error ..) = true := by decide +kernel
  have stored : (attempt ⟨cpu, memory, full⟩).memory.get .narrow (0xFF : Fin 0x100) = 5 := by
    decide +kernel
  cases ran : step ⟨cpu, memory, full⟩ with
  | ok _ m' =>
    rw [ran] at failed
    exact absurd failed nofun
  | error f m' =>
    rw [attempt_of_error ran] at stored
    exact ⟨f, m', rfl, stored, fun second =>
      step_retry cpu memory full second ran (.inr (.inl (by decide)))⟩

end Machine

end ToyMachine
