import ToyMachine.Proofs.Effect

/-! One cycle, in either outcome. A halted machine does nothing. Any other fetches a word,
which can be missing or refused, and carries out the instruction that the word stands for;
`Cycle` has one case for each, and the last two lead back to the effects of an instruction.
A failed cycle keeps what it did, so `attempt` goes on from either outcome. -/

namespace ToyMachine

namespace Machine

open Console (Noted)

/-- The word at the program counter, without a sign. -/
def fetched? (m : Machine) : Option Word :=
  (m.memory.read m.cpu.width m.cpu.pc).toOption.map m.cpu.width.pattern

/-- The instruction that the next cycle carries out. -/
def current? (m : Machine) : Option Instruction :=
  if m.cpu.halted then none
  else m.fetched?.bind fun word => (Instruction.decode m.cpu.width word).toOption

/-- The machine after a cycle, even after one that failed. -/
def attempt (m : Machine) : Machine :=
  match step m with
  | .ok _ m' => m'
  | .error _ m' => m'

def fault? (m : Machine) : Option Fault :=
  match step m with
  | .ok .. => none
  | .error f _ => some f

theorem attempt_of_ok {m m' : Machine} (h : step m = .ok () m') : m.attempt = m' := by
  rw [attempt, h]

theorem attempt_of_error {m m' : Machine} {f : Fault} (h : step m = .error f m') :
    m.attempt = m' := by
  rw [attempt, h]

theorem step_of_fault?_none {m : Machine} (h : m.fault? = none) : step m = .ok () m.attempt := by
  rw [fault?] at h
  rw [attempt]
  split at h
  · next ran => rw [ran]
  · simp at h

theorem step_of_fault?_some {m : Machine} {f : Fault} (h : m.fault? = some f) :
    step m = .error f m.attempt := by
  rw [fault?] at h
  rw [attempt]
  split at h
  · simp at h
  · next failed =>
    obtain rfl := Option.some.inj h
    rw [failed]

inductive Cycle (m : Machine) : EStateM.Result Fault Machine Unit → Prop where
  | idle (halted : m.cpu.halted = true) : Cycle m (.ok () m)
  | missing (running : m.cpu.halted = false) (absent : m.fetched? = none) :
      Cycle m (.error ⟨.noSuchCell m.cpu.pc.toNat, m.cpu.width, m.cpu.pc⟩
        ⟨m.cpu.beginCycle, m.memory, m.console⟩)
  | refused {word : Word} {code : BitVec 4} (running : m.cpu.halted = false)
      (present : m.fetched? = some word)
      (unknown : Instruction.decode m.cpu.width word = .error code) :
      Cycle m (.error ⟨.invalidOpcode code word, m.cpu.width, m.cpu.pc⟩
        ⟨m.cpu.beginCycle, m.memory, m.console⟩)
  | carried {i : Instruction} {console : Console} {m' : Machine} (current : m.current? = some i)
      (quiet : Noted m.console console)
      (effect : Effect i m.cpu.beginCycle m.memory console (.ok () m')) :
      Cycle m (.ok () ⟨m'.cpu.endCycle, m'.memory, m'.console⟩)
  | failed {i : Instruction} {console : Console} {f : Fault} {m' : Machine}
      (current : m.current? = some i) (quiet : Noted m.console console)
      (effect : Effect i m.cpu.beginCycle m.memory console (.error f m')) :
      Cycle m (.error f m')

theorem step_of_halted {m : Machine} (h : m.cpu.halted = true) : step m = .ok () m := by
  rw [step, bind_of_ok (cpuHas_eq _ _), h]
  rfl

theorem step_of_running {m : Machine} (h : m.cpu.halted = false) :
    step m = (do
      let i ← fetchInstruction
      execute i
      onCpu (·.endCycle)) ⟨m.cpu.beginCycle, m.memory, m.console⟩ := by
  rw [step, bind_of_ok (cpuHas_eq _ _), h]
  rfl

section Fetching

variable (cpu : Processor) {memory : Memory} (console : Console)

theorem fetchInstruction_missing {e : OutOfRange}
    (absent : memory.read cpu.width cpu.pc = .error e) :
    fetchInstruction ⟨cpu, memory, console⟩ =
      .error ⟨.noSuchCell cpu.pc.toNat, cpu.width, cpu.pc⟩ ⟨cpu, memory, console⟩ := by
  have failed : fetch cpu.width cpu.pc ⟨cpu, memory, console⟩ =
      .error ⟨.noSuchCell cpu.pc.toNat, cpu.width, cpu.pc⟩ ⟨cpu, memory, console⟩ := by
    simp only [fetch, absent, fail, Memory.read_error absent]
  rw [fetchInstruction, bind_of_ok (cpuHas_eq _ _), bind_of_ok (cpuHas_eq _ _),
    bind_of_error failed]

theorem fetchInstruction_refused {v : Word} {code : BitVec 4}
    (found : memory.read cpu.width cpu.pc = .ok v)
    (unknown : Instruction.decode cpu.width (cpu.width.pattern v) = .error code) :
    fetchInstruction ⟨cpu, memory, console⟩ =
      .error ⟨.invalidOpcode code (cpu.width.pattern v), cpu.width, cpu.pc⟩
        ⟨cpu, memory, console⟩ := by
  rw [fetchInstruction, bind_of_ok (cpuHas_eq _ _), bind_of_ok (cpuHas_eq _ _),
    bind_of_ok (fetch_eq memory console found), unknown]
  rfl

theorem fetchInstruction_ok {v : Word} {i : Instruction}
    (found : memory.read cpu.width cpu.pc = .ok v)
    (known : Instruction.decode cpu.width (cpu.width.pattern v) = .ok i) :
    fetchInstruction ⟨cpu, memory, console⟩ =
      .ok i ⟨cpu, memory, console.emit (.noted (.fetched cpu.width cpu.pc i))⟩ := by
  rw [fetchInstruction, bind_of_ok (cpuHas_eq _ _), bind_of_ok (cpuHas_eq _ _),
    bind_of_ok (fetch_eq memory console found), known]
  rfl

end Fetching

theorem fetched?_eq {m : Machine} {v : Word} (found : m.memory.read m.cpu.width m.cpu.pc = .ok v) :
    m.fetched? = some (m.cpu.width.pattern v) := by
  rw [fetched?, found]
  rfl

theorem current?_eq {m : Machine} {word : Word} {i : Instruction} (running : m.cpu.halted = false)
    (present : m.fetched? = some word) (known : Instruction.decode m.cpu.width word = .ok i) :
    m.current? = some i := by
  rw [current?, running, present]
  simp only [Bool.false_eq_true, if_false, Option.bind_some, known]
  rfl

theorem current?_some {m : Machine} {i : Instruction} (h : m.current? = some i) :
    m.cpu.halted = false ∧
      ∃ word, m.fetched? = some word ∧ Instruction.decode m.cpu.width word = .ok i := by
  rw [current?] at h
  split at h
  · simp at h
  · next running =>
    obtain ⟨word, present, known⟩ := Option.bind_eq_some_iff.mp h
    refine ⟨by simpa using running, word, present, ?_⟩
    cases decoded : Instruction.decode m.cpu.width word with
    | error code => simp [decoded, Except.toOption] at known
    | ok j =>
      rw [decoded, Except.toOption, Option.some.injEq] at known
      rw [known]

theorem fetched?_some {m : Machine} {word : Word} (h : m.fetched? = some word) :
    ∃ v, m.memory.read m.cpu.width m.cpu.pc = .ok v ∧ m.cpu.width.pattern v = word := by
  rw [fetched?] at h
  obtain ⟨v, found, pattern⟩ := Option.map_eq_some_iff.mp h
  cases read : m.memory.read m.cpu.width m.cpu.pc with
  | error e => simp [read, Except.toOption] at found
  | ok v' =>
    rw [read, Except.toOption, Option.some.injEq] at found
    exact ⟨v, by rw [found], pattern⟩

theorem step_of_refused {m : Machine} {word : Word} {code : BitVec 4}
    (running : m.cpu.halted = false) (present : m.fetched? = some word)
    (unknown : Instruction.decode m.cpu.width word = .error code) :
    step m = .error ⟨.invalidOpcode code word, m.cpu.width, m.cpu.pc⟩
      ⟨m.cpu.beginCycle, m.memory, m.console⟩ := by
  obtain ⟨v, found, rfl⟩ := fetched?_some present
  rw [step_of_running running]
  exact bind_of_error (fetchInstruction_refused m.cpu.beginCycle m.console found unknown)

theorem cycle_step (m : Machine) : Cycle m (step m) := by
  cases halted : m.cpu.halted with
  | true =>
    rw [step_of_halted halted]
    exact .idle halted
  | false =>
    rw [step_of_running halted]
    cases found : m.memory.read m.cpu.width m.cpu.pc with
    | error e =>
      have absent : m.fetched? = none := by
        rw [fetched?, found]
        rfl
      have failed := fetchInstruction_missing m.cpu.beginCycle m.console found
      rw [bind_of_error failed]
      exact .missing halted absent
    | ok v =>
      have present := fetched?_eq found
      cases known : Instruction.decode m.cpu.width (m.cpu.width.pattern v) with
      | error code =>
        have failed := fetchInstruction_refused m.cpu.beginCycle m.console found known
        rw [bind_of_error failed]
        exact .refused halted present known
      | ok i =>
        have ran := fetchInstruction_ok m.cpu.beginCycle m.console found known
        have current := current?_eq halted present known
        have effect := effect_execute m.cpu.beginCycle m.memory
          (m.console.emit (.noted (.fetched m.cpu.beginCycle.width m.cpu.beginCycle.pc i)))
          (Instruction.decode_ok known).1
        rw [bind_of_ok ran]
        generalize result : execute i _ = r at effect
        cases r with
        | ok u m' =>
          rw [bind_of_ok result, onCpu_eq]
          exact .carried current (Noted.single _ _) effect
        | error f m' =>
          rw [bind_of_error result]
          exact .failed current (Noted.single _ _) effect

theorem step_of_current {m : Machine} {i : Instruction} (current : m.current? = some i) :
    ∃ console, Noted m.console console ∧
      ((∃ m', Effect i m.cpu.beginCycle m.memory console (.ok () m') ∧
          step m = .ok () ⟨m'.cpu.endCycle, m'.memory, m'.console⟩) ∨
        ∃ f m', Effect i m.cpu.beginCycle m.memory console (.error f m') ∧
          step m = .error f m') := by
  obtain ⟨running, word, present, known⟩ := current?_some current
  have cycle := cycle_step m
  generalize step m = r at cycle
  cases cycle with
  | idle halted => exact absurd halted (by simp [running])
  | missing _ absent => exact absurd absent (by simp [present])
  | refused _ present' unknown =>
    rw [present, Option.some.injEq] at present'
    rw [← present', known] at unknown
    exact absurd unknown (by simp)
  | carried current' quiet effect =>
    rw [current, Option.some.injEq] at current'
    subst current'
    exact ⟨_, quiet, .inl ⟨_, effect, rfl⟩⟩
  | failed current' quiet effect =>
    rw [current, Option.some.injEq] at current'
    subst current'
    exact ⟨_, quiet, .inr ⟨_, _, effect, rfl⟩⟩

theorem step_performs {m m' : Machine} (running : m.cpu.halted = false)
    (ran : step m = .ok () m') :
    ∃ i v, m.current? = some i ∧ m'.cpu = (m.cpu.beginCycle.perform i v).endCycle := by
  have cycle := cycle_step m
  rw [ran] at cycle
  cases cycle with
  | idle halted => exact absurd halted (by simp [running])
  | carried current _ effect =>
    obtain ⟨v, performed⟩ := effect.ok_cpu
    exact ⟨_, v, current, congrArg Processor.endCycle performed⟩

theorem step_of_silent {m : Machine} {i : Instruction} (current : m.current? = some i)
    (silent : m.cpu.transfer i = .none) :
    ∃ console, Noted m.console console ∧
      step m = .ok () ⟨(m.cpu.beginCycle.perform i 0).endCycle, m.memory, console⟩ := by
  have passes : m.cpu.beginCycle.transfer i = .none := silent
  obtain ⟨fetched, quiet, ⟨m', effect, ran⟩ | ⟨f, m', effect, failed⟩⟩ := step_of_current current
  · obtain ⟨console, quiet', result⟩ := effect.of_silent passes
    simp only [EStateM.Result.ok.injEq, true_and] at result
    subst result
    exact ⟨console, quiet.trans quiet', ran⟩
  · obtain ⟨_, _, result⟩ := effect.of_silent passes
    exact absurd result (by simp)

end Machine

end ToyMachine
