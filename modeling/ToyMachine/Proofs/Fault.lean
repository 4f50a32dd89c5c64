import ToyMachine.Proofs.Reachable

/-! Faults that a program can meet. Of the four causes two never come up in a state that
calls lead to: the program counter names a cell, and an instruction that came from a word
names registers and cells there are. A word is refused in the wide width only, and the
console is met by a load or a store only, of which a store does not ask the operator. -/

namespace ToyMachine

namespace Machine

theorem Effect.error_fault {i : Instruction} {cpu : Processor} {memory : Memory}
    {console : Console} {f : Fault} {m' : Machine}
    (h : Effect i cpu memory console (.error f m')) :
    ∃ failure, f = ⟨.console failure, cpu.width, cpu.pc⟩ ∧
      (cpu.transfer i = .load cpu.width.consoleAddress ∨
        failure = .sinkFull ∧ ∃ v, cpu.transfer i = .store cpu.width.consoleAddress v) := by
  cases h with
  | unanswered passes answer => exact ⟨_, rfl, .inl passes⟩
  | cutShort passes answer newline => exact ⟨_, rfl, .inl passes⟩
  | unshown passes echo => exact ⟨_, rfl, .inr ⟨Console.print_error echo, _, passes⟩⟩

/-- A halt passes no word, and the wide width carries out nothing else. -/
theorem narrow_of_transfer {m : Machine} {i : Instruction} (current : m.current? = some i)
    (passes : m.cpu.transfer i ≠ .none) : m.cpu.width = .narrow :=
  current?_narrow current fun code => passes (by simp only [Processor.transfer, code])

theorem step_of_unknown {m : Machine} {word : Word} (running : m.cpu.halted = false)
    (wide : m.cpu.width = .wide) (present : m.fetched? = some word)
    (unknown : Instruction.selector .wide word ≠ 0) :
    step m = .error ⟨.invalidOpcode (Instruction.selector .wide word) word, .wide, m.cpu.pc⟩
      ⟨m.cpu.beginCycle, m.memory, m.console⟩ := by
  have refused : Instruction.decode m.cpu.width word =
      .error (Instruction.selector .wide word) := by
    rw [wide]
    exact if_neg unknown
  rw [step_of_refused running present refused, wide]

end Machine

namespace Processor.Bounded

open Machine

theorem pc_lt_cells {cpu : Processor} (b : cpu.Bounded) : cpu.pc.toNat < cpu.width.cells := by
  have low := b.pc_lt
  cases cpu.width with
  | narrow => exact low
  | wide => exact Nat.lt_trans low (by decide)

theorem fetched?_isSome {m : Machine} (b : m.cpu.Bounded) : ∃ word, m.fetched? = some word :=
  ⟨_, fetched?_eq (m.memory.read_eq b.pc_lt_cells)⟩

end Processor.Bounded

namespace Machine

theorem step_error {m m' : Machine} {f : Fault} (bounded : m.cpu.Bounded)
    (h : step m = .error f m') :
    m.cpu.halted = false ∧ f.width = m.cpu.width ∧ f.pc = m.cpu.pc ∧
      ((∃ word, f.cause = .invalidOpcode (Instruction.selector .wide word) word ∧
          m.cpu.width = .wide ∧ m.fetched? = some word ∧
          Instruction.selector .wide word ≠ 0) ∨
        ∃ failure i, f.cause = .console failure ∧ m.cpu.width = .narrow ∧
          m.current? = some i ∧ (m.cpu.transfer i = .load 0xFF ∨
            failure = .sinkFull ∧ ∃ v, m.cpu.transfer i = .store 0xFF v)) := by
  have cycle := cycle_step m
  rw [h] at cycle
  cases cycle with
  | missing running absent =>
    -- The counter is below 256 and so names a cell.
    obtain ⟨word, present⟩ := bounded.fetched?_isSome
    rw [absent] at present
    exact absurd present (by simp)
  | @refused word code running present unknown =>
    refine ⟨running, rfl, rfl, .inl ?_⟩
    cases width : m.cpu.width with
    | narrow =>
      -- Every narrow word is an instruction.
      rw [width, Instruction.decode_narrow] at unknown
      exact absurd unknown (by simp)
    | wide =>
      rw [width] at unknown
      obtain ⟨rfl, other⟩ := Instruction.decode_wide_error unknown
      exact ⟨word, rfl, rfl, present, other⟩
  | @failed i console f m' current quiet effect =>
    have running := (current?_some current).1
    obtain ⟨failure, rfl, passes⟩ := effect.error_fault
    have same : m.cpu.beginCycle.transfer i = m.cpu.transfer i := rfl
    have narrow : m.cpu.width = .narrow := by
      apply narrow_of_transfer current
      rcases passes with load | ⟨_, v, store⟩
      · rw [← same, load]
        simp
      · rw [← same, store]
        simp
    have address : m.cpu.beginCycle.width.consoleAddress = 0xFF := by
      change m.cpu.width.consoleAddress = 0xFF
      rw [narrow]
      rfl
    rw [same, address] at passes
    exact ⟨running, rfl, rfl, .inr ⟨failure, i, rfl, narrow, current, passes⟩⟩

/-- The faults of a run, over any program, any operator and any sink. -/
theorem reachable_fault {entry : Address} (bound : entry.toNat ≤ 0xFF) {initial : Memory}
    {m : Machine} (reached : Reachable entry initial (m.cpu, m.memory)) :
    (∀ code word, (∃ w pc m', step m = .error ⟨.invalidOpcode code word, w, pc⟩ m') ↔
      m.cpu.halted = false ∧ m.cpu.width = .wide ∧ m.fetched? = some word ∧
        Instruction.selector .wide word = code ∧ code ≠ 0) ∧
    ∀ f m', step m = .error f m' →
      f.width = m.cpu.width ∧ f.pc = m.cpu.pc ∧
      (∀ address, f.cause ≠ .noSuchCell address) ∧ (∀ r, f.cause ≠ .invalidRegister r) ∧
      ∀ failure, f.cause = .console failure →
        m.cpu.width = .narrow ∧ ∃ i, m.current? = some i ∧
          ((i.opcode = .load ∧ i.address = 0xFF ∨
              i.opcode = .loadIndirect ∧ m.cpu.pointed i.third = 0xFF) ∨
            failure ≠ .inputClosed ∧
              (i.opcode = .store ∧ i.address = 0xFF ∨
                i.opcode = .storeIndirect ∧ m.cpu.pointed i.third = 0xFF)) := by
  have sound : m.cpu.Sound := reached.sound (by omega)
  constructor
  · intro code word
    constructor
    · rintro ⟨w, pc, m', failed⟩
      obtain ⟨running, _, _, refused | met⟩ := step_error sound.toBounded failed
      · obtain ⟨word', cause, wide, present, unknown⟩ := refused
        simp only [Fault.Cause.invalidOpcode.injEq] at cause
        obtain ⟨rfl, rfl⟩ := cause
        exact ⟨running, wide, present, rfl, unknown⟩
      · obtain ⟨failure, i, cause, _⟩ := met
        exact absurd cause (by simp)
    · rintro ⟨running, wide, present, rfl, unknown⟩
      exact ⟨_, _, _, step_of_unknown running wide present unknown⟩
  · intro f m' failed
    obtain ⟨_, width, pc, refused | met⟩ := step_error sound.toBounded failed
    · obtain ⟨word, cause, _⟩ := refused
      refine ⟨width, pc, ?_, ?_, ?_⟩ <;> simp [cause]
    · obtain ⟨failure, i, cause, narrow, current, passes⟩ := met
      refine ⟨width, pc, by simp [cause], by simp [cause], ?_⟩
      intro failure' same
      rw [cause, Fault.Cause.console.injEq] at same
      subst same
      refine ⟨narrow, i, current, ?_⟩
      rcases passes with load | ⟨rfl, v, store⟩
      · exact .inl (Processor.transfer_load load)
      · exact .inr ⟨by simp, Processor.transfer_store store⟩

/-- A switch to a wide cell that is no halt. -/
theorem reachable_fault_refused :
    let memory := (Memory.zeroed.set .narrow (0x10 : Fin 0x100) 0x0FFF).set .wide
      (0x10 : Fin 0x10000) 0x8000ABCD
    let m : Machine := ⟨Processor.startingAt 0x10, memory, ⟨[], [], none, #[]⟩⟩
    Reachable 0x10 memory (m.attempt.cpu, m.attempt.memory) ∧
      ∃ w pc m', step m.attempt = .error ⟨.invalidOpcode 0x8 0x8000ABCD, w, pc⟩ m' := by
  intro memory m
  have reached : Reachable 0x10 memory (m.attempt.cpu, m.attempt.memory) :=
    .single (Call.step m.console)
  have cpu : m.attempt.cpu.halted = false ∧ m.attempt.cpu.width = .wide := by decide +kernel
  have present : m.attempt.fetched? = some 0x8000ABCD := by decide +kernel
  refine ⟨reached, ((reachable_fault (by decide) reached).1 _ _).mpr ?_⟩
  exact ⟨cpu.1, cpu.2, present, by decide, by decide⟩

end Machine

end ToyMachine
