import ToyMachine.Proofs.Memory
import ToyMachine.Proofs.Cycle

/-! Faults are atomic. An instruction first reads, then stores at most one word, and
writes its register or moves the counter last, so one that fails has changed nothing but
marks, the console and, after the operator has answered or an echo was cut short, the
console cell. This holds of instructions built by hand too, whose operands need not name a
register or a cell. -/

namespace ToyMachine

structure Processor.SameState (cpu cpu' : Processor) : Prop where
  width : cpu'.width = cpu.width
  pc : cpu'.pc = cpu.pc
  oldPc : cpu'.oldPc = cpu.oldPc
  pcModified : cpu'.pcModified = cpu.pcModified
  halted : cpu'.halted = cpu.halted
  registers : cpu'.registers = cpu.registers

namespace Processor.SameState

theorem refl (cpu : Processor) : cpu.SameState cpu := ⟨rfl, rfl, rfl, rfl, rfl, rfl⟩

theorem trans {a b c : Processor} (first : a.SameState b) (second : b.SameState c) :
    a.SameState c where
  width := second.width.trans first.width
  pc := second.pc.trans first.pc
  oldPc := second.oldPc.trans first.oldPc
  pcModified := second.pcModified.trans first.pcModified
  halted := second.halted.trans first.halted
  registers := second.registers.trans first.registers

theorem markRegisterRead (cpu : Processor) (index : Nat) (second : Bool) :
    cpu.SameState (cpu.markRegisterRead index second) := by
  cases second <;> exact ⟨rfl, rfl, rfl, rfl, rfl, rfl⟩

theorem markMemoryRead (cpu : Processor) (address : Address) :
    cpu.SameState (cpu.markMemoryRead address) := ⟨rfl, rfl, rfl, rfl, rfl, rfl⟩

end Processor.SameState

namespace Machine

/-- The frame of a fault. -/
structure Atomic (m : Machine) (f : Fault) (m' : Machine) : Prop where
  cpu : m.cpu.SameState m'.cpu
  width : f.width = m.cpu.width
  pc : f.pc = m.cpu.pc
  outside : m.memory.SameOutside m.cpu.width m.cpu.width.consoleCell m'.memory
  whole : (∃ address, f.cause = .noSuchCell address) ∨ f.cause = .console .inputClosed →
    m'.memory = m.memory

theorem Atomic.of_memory_eq {m m' : Machine} {f : Fault} (cpu : m.cpu.SameState m'.cpu)
    (width : f.width = m.cpu.width) (pc : f.pc = m.cpu.pc) (memory : m'.memory = m.memory) :
    Atomic m f m' := by
  refine ⟨cpu, width, pc, ?_, fun _ => memory⟩
  rw [memory]
  exact .refl _ _ _

variable {ε α β : Type}

def Succeeds (act : Action ε α) : Prop :=
  ∀ m, ∃ a m', act m = .ok a m'

/-- What the action returns costs nothing but marks and what the console shows. -/
def OnlyReads (act : Action Fault α) : Prop :=
  ∀ m a m', act m = .ok a m' → m.cpu.SameState m'.cpu ∧ m'.memory = m.memory

def FailsAtomically (act : Action Fault α) : Prop :=
  ∀ m f m', act m = .error f m' → Atomic m f m'

theorem Succeeds.bind {act : Action ε α} {next : α → Action ε β} (first : Succeeds act)
    (rest : ∀ a, Succeeds (next a)) : Succeeds (act >>= next) := by
  intro m
  obtain ⟨a, m₁, ran⟩ := first m
  rw [bind_of_ok ran]
  exact rest a m₁

theorem succeeds_pure (a : α) : Succeeds (pure a : Action ε α) := fun m => ⟨a, m, rfl⟩

theorem succeeds_cpuHas (f : Processor → α) : Succeeds (cpuHas f : Action ε α) :=
  fun m => ⟨_, m, rfl⟩

theorem succeeds_onCpu (f : Processor → Processor) : Succeeds (onCpu f : Action ε Unit) :=
  fun _ => ⟨(), _, rfl⟩

theorem succeeds_note (n : Notice) : Succeeds (note n : Action ε Unit) :=
  fun _ => ⟨(), _, rfl⟩

theorem Succeeds.ne_error {act : Action ε α} (h : Succeeds act) (m m' : Machine) (e : ε) :
    act m ≠ .error e m' := by
  obtain ⟨a, m₁, ran⟩ := h m
  simp [ran]

theorem OnlyReads.bind {act : Action Fault α} {next : α → Action Fault β}
    (first : OnlyReads act) (rest : ∀ a, OnlyReads (next a)) : OnlyReads (act >>= next) := by
  intro m b m' ran
  obtain ⟨a, m₁, began, ended⟩ := bind_ok ran
  obtain ⟨cpu₁, memory₁⟩ := first m a m₁ began
  obtain ⟨cpu', memory'⟩ := rest a m₁ b m' ended
  exact ⟨cpu₁.trans cpu', memory'.trans memory₁⟩

theorem onlyReads_pure (a : α) : OnlyReads (pure a) := by
  rintro m a m' ⟨⟩
  exact ⟨.refl _, rfl⟩

theorem onlyReads_note (n : Notice) : OnlyReads (note n) := by
  rintro m a m' ⟨⟩
  exact ⟨.refl _, rfl⟩

theorem onlyReads_fail (cause : Fault.Cause) : OnlyReads (fail cause : Action Fault α) := by
  intro m a m' ran
  exact absurd ran (by simp [fail])

theorem onlyReads_cpuHas (f : Processor → α) : OnlyReads (cpuHas f) := by
  rintro m a m' ⟨⟩
  exact ⟨.refl _, rfl⟩

theorem FailsAtomically.bind {act : Action Fault α} {next : α → Action Fault β}
    (first : FailsAtomically act) (reads : OnlyReads act) (rest : ∀ a, FailsAtomically (next a)) :
    FailsAtomically (act >>= next) := by
  intro m f m' failed
  rcases bind_error failed with early | ⟨a, m₁, ran, late⟩
  · exact first m f m' early
  · obtain ⟨cpu, memory⟩ := reads m a m₁ ran
    obtain ⟨cpu', width, pc, outside, whole⟩ := rest a m₁ f m' late
    rw [cpu.width] at width outside
    rw [cpu.pc] at pc
    rw [memory] at outside whole
    exact ⟨cpu.trans cpu', width, pc, outside, whole⟩

theorem Succeeds.failsAtomically {act : Action Fault α} (h : Succeeds act) :
    FailsAtomically act :=
  fun m f m' failed => absurd failed (h.ne_error m m' f)

theorem FailsAtomically.bind_succeeds {act : Action Fault α} {next : α → Action Fault β}
    (first : FailsAtomically act) (rest : ∀ a, Succeeds (next a)) :
    FailsAtomically (act >>= next) := by
  intro m f m' failed
  rcases bind_error failed with early | ⟨a, m₁, -, late⟩
  · exact first m f m' early
  · exact absurd late ((rest a).ne_error m₁ m' f)

theorem failsAtomically_fail (cause : Fault.Cause) :
    FailsAtomically (fail cause : Action Fault α) := by
  rintro m f m' ⟨⟩
  exact .of_memory_eq (.refl _) rfl rfl rfl

section Registers

theorem readRegister_onlyReads (index : Nat) (second : Bool) :
    OnlyReads (readRegister index second) := by
  intro m v m' ran
  rw [readRegister] at ran
  split at ran
  · obtain ⟨-, m₁, ⟨⟩, ⟨⟩⟩ := bind_ok ran
    exact ⟨.markRegisterRead _ _ _, rfl⟩
  · exact absurd ran (by simp [fail])

theorem readRegister_failsAtomically (index : Nat) (second : Bool) :
    FailsAtomically (readRegister index second) := by
  rw [readRegister]
  split
  · exact ((succeeds_onCpu _).bind fun _ => succeeds_cpuHas _).failsAtomically
  · exact failsAtomically_fail _

theorem writeRegister_failsAtomically (index : Nat) (v : Word) :
    FailsAtomically (writeRegister index v) := by
  rw [writeRegister]
  split
  · exact (succeeds_onCpu _).failsAtomically
  · exact failsAtomically_fail _

theorem writeRegister_error {index : Nat} {v : Word} {m m' : Machine} {f : Fault}
    (failed : writeRegister index v m = .error f m') :
    f = ⟨.invalidRegister index, m.cpu.width, m.cpu.pc⟩ ∧ m' = m := by
  rw [writeRegister] at failed
  split at failed
  · exact absurd failed ((succeeds_onCpu _).ne_error _ _ _)
  · cases failed
    exact ⟨rfl, rfl⟩

theorem pointer_onlyReads (index : Nat) (second : Bool) : OnlyReads (pointer index second) :=
  (readRegister_onlyReads index second).bind fun _ =>
    (onlyReads_cpuHas _).bind fun _ => onlyReads_pure _

theorem pointer_failsAtomically (index : Nat) (second : Bool) :
    FailsAtomically (pointer index second) :=
  (readRegister_failsAtomically index second).bind_succeeds fun _ =>
    (succeeds_cpuHas _).bind fun _ => succeeds_pure _

end Registers

section Cells

/-- The cell of the console is filled before its register is known to exist. -/
theorem readMemory_frame {address : Address} {m m' : Machine} {v : Word}
    (ran : readMemory address m = .ok v m') :
    m.cpu.SameState m'.cpu ∧
      m.memory.SameOutside m.cpu.width m.cpu.width.consoleCell m'.memory := by
  obtain ⟨cpu, memory, console⟩ := m
  by_cases cell : address = cpu.width.consoleAddress
  · subst cell
    cases answer : Console.ask cpu.width console with
    | error failure console' =>
      rw [readMemory_unanswered memory console rfl answer] at ran
      exact absurd ran (by simp)
    | ok given answered =>
      cases newline : Console.print "\n" answered with
      | error failure console' =>
        rw [readMemory_cutShort memory console rfl answer newline] at ran
        exact absurd ran (by simp)
      | ok _ printed =>
        rw [readMemory_asked memory console rfl answer newline] at ran
        cases ran
        exact ⟨.markMemoryRead _ _, memory.set_sameOutside _ _ _⟩
  · by_cases bound : address.toNat < cpu.width.cells
    · rw [readMemory_eq memory console rfl cell (memory.read_eq bound)] at ran
      cases ran
      exact ⟨.markMemoryRead _ _, .refl _ _ _⟩
    · rw [readMemory_missing memory console rfl bound] at ran
      exact absurd ran (by simp)

theorem readMemory_failsAtomically (address : Address) : FailsAtomically (readMemory address) := by
  rintro ⟨cpu, memory, console⟩ f m' failed
  by_cases cell : address = cpu.width.consoleAddress
  · subst cell
    cases answer : Console.ask cpu.width console with
    | error failure console' =>
      rw [readMemory_unanswered memory console rfl answer] at failed
      cases failed
      exact .of_memory_eq (.refl _) rfl rfl rfl
    | ok given answered =>
      cases newline : Console.print "\n" answered with
      | error failure console' =>
        -- The answer stays in the cell, but then the sink was full.
        obtain rfl := Console.print_error newline
        rw [readMemory_cutShort memory console rfl answer newline] at failed
        cases failed
        exact ⟨.refl _, rfl, rfl, memory.set_sameOutside _ _ _, by simp⟩
      | ok _ printed =>
        rw [readMemory_asked memory console rfl answer newline] at failed
        exact absurd failed (by simp)
  · by_cases bound : address.toNat < cpu.width.cells
    · rw [readMemory_eq memory console rfl cell (memory.read_eq bound)] at failed
      exact absurd failed (by simp)
    · rw [readMemory_missing memory console rfl bound] at failed
      cases failed
      exact .of_memory_eq (.refl _) rfl rfl rfl

theorem writeMemory_failsAtomically (address : Address) (v : Word) :
    FailsAtomically (writeMemory address v) := by
  rintro ⟨cpu, memory, console⟩ f m' failed
  by_cases cell : address = cpu.width.consoleAddress
  · subst cell
    rw [writeMemory_console memory console rfl v] at failed
    cases echo : Console.print (echoText cpu.width (cpu.width.fit v)) console with
    | error failure console' =>
      obtain rfl := Console.print_error echo
      rw [faulting_error (onConsole_error _ _ echo)] at failed
      cases failed
      exact ⟨.refl _, rfl, rfl, memory.set_sameOutside _ _ _, by simp⟩
    | ok _ printed =>
      rw [faulting_ok (onConsole_ok _ _ echo)] at failed
      exact absurd failed (by simp)
  · by_cases bound : address.toNat < cpu.width.cells
    · rw [writeMemory_eq memory console rfl bound v cell] at failed
      exact absurd failed (by simp)
    · rw [writeMemory_missing memory console rfl bound v] at failed
      cases failed
      exact .of_memory_eq (.refl _) rfl rfl rfl

end Cells

section Instructions

theorem arithmetic_failsAtomically (i : Instruction) (operation : Word → Word → Word) :
    FailsAtomically (arithmetic i operation) :=
  (readRegister_failsAtomically _ _).bind (readRegister_onlyReads _ _) fun _ =>
    (readRegister_failsAtomically _ _).bind (readRegister_onlyReads _ _) fun _ =>
      (writeRegister_failsAtomically _ _).bind_succeeds fun _ =>
        (succeeds_cpuHas _).bind fun _ => succeeds_note _

theorem loadFrom_failsAtomically (d : Nat) (address : Address) :
    FailsAtomically (loadFrom d address) := by
  intro m f m' failed
  rcases bind_error failed with early | ⟨v, m₁, ran, rest⟩
  · exact readMemory_failsAtomically address m f m' early
  · obtain ⟨cpu, outside⟩ := readMemory_frame ran
    rcases bind_error rest with missing | ⟨u, m₂, -, noting⟩
    · -- The console may have been read, but the fault is that of the register.
      obtain ⟨rfl, rfl⟩ := writeRegister_error missing
      exact ⟨cpu, cpu.width, cpu.pc, outside, by simp⟩
    · exact absurd noting ((succeeds_note _).ne_error _ _ _)

theorem storeTo_failsAtomically (d : Nat) (address : Address) (v : Word) :
    FailsAtomically (storeTo d address v) :=
  (writeMemory_failsAtomically address v).bind_succeeds fun _ => succeeds_note _

theorem branch_failsAtomically (d : Nat) (address : Address) (condition : Word → Bool)
    (notice : Nat → Bool → Notice) : FailsAtomically (branch d address condition notice) := by
  refine (readRegister_failsAtomically _ _).bind_succeeds fun v => ?_
  dsimp only
  split
  · exact (succeeds_onCpu _).bind fun _ => succeeds_note _
  · exact (succeeds_pure _).bind fun _ => succeeds_note _

theorem switchWidth_succeeds : Succeeds switchWidth :=
  (succeeds_cpuHas _).bind fun _ => (succeeds_cpuHas _).bind fun _ =>
    (succeeds_onCpu _).bind fun _ => succeeds_note _

theorem stop_succeeds : Succeeds stop :=
  (succeeds_onCpu _).bind fun _ => (succeeds_cpuHas _).bind fun _ => succeeds_note _

theorem execute_failsAtomically (i : Instruction) : FailsAtomically (execute i) := by
  unfold execute
  cases i.opcode with
  | halt =>
    dsimp only
    split
    · exact switchWidth_succeeds.failsAtomically
    · exact stop_succeeds.failsAtomically
  | add | sub | and | xor | shiftLeft | shiftRight => exact arithmetic_failsAtomically i _
  | loadAddress =>
    exact (writeRegister_failsAtomically _ _).bind_succeeds fun _ => succeeds_note _
  | load => exact loadFrom_failsAtomically _ _
  | store =>
    exact (readRegister_failsAtomically _ _).bind (readRegister_onlyReads _ _) fun _ =>
      storeTo_failsAtomically _ _ _
  | loadIndirect =>
    exact (pointer_failsAtomically _ _).bind (pointer_onlyReads _ _) fun _ =>
      loadFrom_failsAtomically _ _
  | storeIndirect =>
    exact (readRegister_failsAtomically _ _).bind (readRegister_onlyReads _ _) fun _ =>
      (pointer_failsAtomically _ _).bind (pointer_onlyReads _ _) fun _ =>
        storeTo_failsAtomically _ _ _
  | branchZero | branchPositive => exact branch_failsAtomically _ _ _ _
  | jump => exact (pointer_failsAtomically _ _).bind_succeeds fun _ => succeeds_onCpu _
  | call =>
    exact (succeeds_cpuHas _).failsAtomically.bind (onlyReads_cpuHas _) fun _ =>
      (writeRegister_failsAtomically _ _).bind_succeeds fun _ => succeeds_onCpu _

end Instructions

theorem fetch_onlyReads (w : Width) (address : Address) : OnlyReads (fetch w address) := by
  intro m v m' ran
  unfold fetch at ran
  split at ran
  · cases ran
    exact ⟨.refl _, rfl⟩
  · exact absurd ran (by simp [fail])

theorem fetch_failsAtomically (w : Width) (address : Address) :
    FailsAtomically (fetch w address) := by
  intro m f m' failed
  unfold fetch at failed
  split at failed
  · exact absurd failed (by simp)
  · exact failsAtomically_fail _ m f m' failed

theorem fetchInstruction_onlyReads : OnlyReads fetchInstruction := by
  refine (onlyReads_cpuHas _).bind fun w => (onlyReads_cpuHas _).bind fun pc =>
    (fetch_onlyReads w pc).bind fun v => ?_
  split
  · exact onlyReads_note _ |>.bind fun _ => onlyReads_pure _
  · exact onlyReads_fail _

theorem fetchInstruction_failsAtomically : FailsAtomically fetchInstruction := by
  refine (succeeds_cpuHas _).failsAtomically.bind (onlyReads_cpuHas _) fun w =>
    (succeeds_cpuHas _).failsAtomically.bind (onlyReads_cpuHas _) fun pc =>
      (fetch_failsAtomically w pc).bind (fetch_onlyReads w pc) fun v => ?_
  split
  · exact ((succeeds_note _).bind fun _ => succeeds_pure _).failsAtomically
  · exact failsAtomically_fail _

theorem running_of_error {m m' : Machine} {f : Fault} (failed : step m = .error f m') :
    m.cpu.halted = false := by
  cases halted : m.cpu.halted with
  | false => rfl
  | true =>
    rw [step_of_halted halted] at failed
    exact absurd failed (by simp)

theorem step_atomic {m m' : Machine} {f : Fault} (failed : step m = .error f m') :
    Atomic ⟨m.cpu.beginCycle, m.memory, m.console⟩ f m' := by
  have running := running_of_error failed
  have cycle : FailsAtomically (fetchInstruction >>= fun i => execute i >>= fun _ =>
      onCpu (·.endCycle)) :=
    fetchInstruction_failsAtomically.bind fetchInstruction_onlyReads fun i =>
      (execute_failsAtomically i).bind_succeeds fun _ => succeeds_onCpu _
  rw [step_of_running running] at failed
  exact cycle _ f m' failed

theorem step_error_access {m m' : Machine} {f : Fault} (failed : step m = .error f m') :
    m'.cpu.access.written = none ∧ m'.cpu.access.memoryRead = none ∧
      m'.cpu.access.memoryWritten = none := by
  have cycle := cycle_step m
  rw [failed] at cycle
  cases cycle with
  | missing | refused => exact ⟨rfl, rfl, rfl⟩
  | @failed i _ _ _ current quiet effect =>
    rw [effect.error_cpu, Processor.readSources]
    cases i.opcode <;> exact ⟨rfl, rfl, rfl⟩

theorem step_of_access {m m' : Machine} {f : Fault} (failed : step m = .error f m')
    (access : Access) :
    step ⟨{ m.cpu with access := access }, m.memory, m.console⟩ = .error f m' := by
  have running := running_of_error failed
  rw [step_of_running running] at failed
  rw [step_of_running (m := ⟨{ m.cpu with access := access }, m.memory, m.console⟩) running]
  exact failed

/-- Every fault, of an instruction with any operands and of a cycle. A cycle has taken back
the mark of a moved counter and the marks of the cycle before. -/
theorem fault_atomic (m m' : Machine) (f : Fault) :
    (∀ i, execute i m = .error f m' → Atomic m f m') ∧
      (step m = .error f m' →
        Atomic ⟨{ m.cpu with pcModified := false }, m.memory, m.console⟩ f m' ∧
          (∀ access,
            step ⟨{ m.cpu with access := access }, m.memory, m.console⟩ = .error f m') ∧
          m'.cpu.access.written = none ∧ m'.cpu.access.memoryRead = none ∧
          m'.cpu.access.memoryWritten = none) := by
  constructor
  · intro i failed
    exact execute_failsAtomically i m f m' failed
  · intro failed
    have atomic := step_atomic failed
    exact ⟨{ atomic with cpu := { atomic.cpu with } }, step_of_access failed,
      step_error_access failed⟩

/-- The operator answers, and then there is no register for the word; and a counter that
names no cell. -/
theorem fault_atomic_no_register :
    let cpu := Processor.startingAt 0x10
    let asking : Machine := ⟨cpu, .zeroed, ⟨[], ["5"], none, #[]⟩⟩
    let lost : Machine := ⟨{ cpu with pc := 0x100, pcModified := true }, .zeroed, asking.console⟩
    (∃ f m', execute ⟨.load, 200, 0xF, 0xF, 0⟩ asking = .error f m' ∧
      m'.memory.get .narrow (0xFF : Fin 0x100) = 5 ∧ Atomic asking f m') ∧
    ∃ f m', step lost = .error f m' ∧ m'.cpu.pcModified = false ∧ m'.memory = lost.memory := by
  intro cpu asking lost
  constructor
  · have answer : Console.ask .narrow asking.console =
        .ok 5 ⟨[], [], none, #[.printed Console.promptText.toUTF8]⟩ := by
      rw [Console.ask, Console.askFrom]
      rfl
    have read := readMemory_asked .zeroed asking.console (rfl : cpu.width = .narrow)
      answer rfl
    have ran : execute ⟨.load, 200, 0xF, 0xF, 0⟩ asking =
        .error ⟨.invalidRegister 200, .narrow, 0x10⟩ _ := bind_of_ok read
    have atomic := (fault_atomic _ _ _).1 _ ran
    exact ⟨_, _, ran, Memory.zeroed.get_set_self .narrow (0xFF : Fin 0x100) 5, atomic⟩
  · have failed : step lost = .error ⟨.noSuchCell 0x100, .narrow, 0x100⟩ _ := rfl
    have atomic := ((fault_atomic _ _ _).2 failed).1
    exact ⟨_, _, failed, atomic.cpu.pcModified, atomic.whole (.inl ⟨_, rfl⟩)⟩

end Machine

end ToyMachine
