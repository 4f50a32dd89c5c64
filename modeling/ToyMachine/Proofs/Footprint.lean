import ToyMachine.Proofs.Fault
import ToyMachine.Proofs.Overlay
import ToyMachine.Proofs.Respects
import Mathlib.Logic.Function.Iterate

/-! What of memory a program can see, and what it can change. The program counter stays below
256, so a fetch looks at no cell beyond the first 256 wide ones; instructions pass words
through the narrow view only, which lies in the first 128 of these. Two machines that agree
on the first 256 wide cells so do the same for ever, and the cells from the 128th on keep
what they were given. -/

namespace ToyMachine

namespace Memory

def AgreeLow (m m' : Memory) : Prop :=
  ∀ c : Width.wide.Cell, c.val ≤ 0xFF → m'.get .wide c = m.get .wide c

namespace AgreeLow

variable {m m' : Memory} (agree : m.AgreeLow m')

include agree

theorem get_narrow (c : Width.narrow.Cell) : m'.get .narrow c = m.get .narrow c := by
  have bound : c.val < 0x100 := c.isLt
  apply get_congr
  intro k h inside
  simp only [Width.cellBytes] at inside
  have cell : k / 4 < Width.wide.cells := by
    change k / 4 < 0x10000
    omega
  exact bytes_of_get_wide (agree ⟨k / 4, cell⟩ (by simp only; omega)) h rfl

theorem read_narrow (address : Address) : m'.read .narrow address = m.read .narrow address := by
  by_cases bound : address.toNat < Width.narrow.cells
  · rw [read_eq _ bound, read_eq _ bound, agree.get_narrow]
  · rw [read_of_missing _ bound, read_of_missing _ bound]

theorem read_low (w : Width) {address : Address} (low : address.toNat < 0x100) :
    m'.read w address = m.read w address := by
  cases w with
  | narrow => exact agree.read_narrow address
  | wide =>
    have bound : address.toNat < Width.wide.cells := Nat.lt_trans low (by decide)
    have cell := agree ⟨address.toNat, bound⟩ (Nat.le_of_lt_succ low)
    rw [read_eq _ bound, read_eq _ bound, cell]

theorem set_narrow (c : Width.narrow.Cell) (v : Word) :
    (m.set .narrow c v).AgreeLow (m'.set .narrow c v) := by
  have stored (d : Width.narrow.Cell) :
      (m'.set .narrow c v).get .narrow d = (m.set .narrow c v).get .narrow d := by
    by_cases same : c = d
    · rw [← same, get_set_self, get_set_self]
    · rw [get_set_of_ne _ _ same, get_set_of_ne _ _ same, agree.get_narrow]
  intro n low
  by_cases shared : n.val < 0x80
  · have under : n = pair ⟨n.val, shared⟩ := rfl
    rw [under, get_pair, get_pair, stored, stored]
  · have apart : ¬ Overlap c n := by
      have bound : c.val < 0x100 := c.isLt
      rw [overlap_narrow_wide]
      omega
    rw [get_set_of_apart _ apart, get_set_of_apart _ apart, agree n low]

end AgreeLow

end Memory

namespace Machine

variable {ε α : Type}

/-- Machines that differ in the cells no program looks at, with a condition on their
processor. -/
structure Within (P : Processor → Prop) (m m' : Machine) : Prop where
  cpu : m'.cpu = m.cpu
  console : m'.console = m.console
  memory : m.memory.AgreeLow m'.memory
  holds : P m.cpu

section Within

variable {P : Processor → Prop}

theorem within_onCpu {f : Processor → Processor} (keeps : ∀ cpu, P cpu → P (f cpu)) :
    Respects (Within P) (onCpu f : Action ε Unit) := by
  rintro ⟨_, memory, _⟩ ⟨cpu, memory', c⟩ ⟨rfl, rfl, agree, holds⟩
  exact .ok () ⟨rfl, rfl, agree, keeps cpu holds⟩

theorem within_onConsole (act : Console.Action α) : Respects (Within P) (onConsole act) := by
  rintro ⟨_, memory, _⟩ ⟨cpu, memory', c⟩ ⟨rfl, rfl, agree, holds⟩
  rw [onConsole, onConsole]
  cases act c with
  | ok a c' => exact .ok a ⟨rfl, rfl, agree, holds⟩
  | error e c' => exact .error e ⟨rfl, rfl, agree, holds⟩

theorem within_note (n : Notice) : Respects (Within P) (note n : Action ε Unit) := by
  rintro ⟨_, memory, _⟩ ⟨cpu, memory', c⟩ ⟨rfl, rfl, agree, holds⟩
  exact .ok () ⟨rfl, rfl, agree, holds⟩

theorem within_setNarrow (c : Width.narrow.Cell) (v : Word) :
    Respects (Within P) (onMemory (·.set .narrow c v) : Action ε Unit) := by
  rintro ⟨_, memory, _⟩ ⟨cpu, memory', c⟩ ⟨rfl, rfl, agree, holds⟩
  exact .ok () ⟨rfl, rfl, agree.set_narrow _ v, holds⟩

theorem within_sharing : Sharing (Within P) where
  cpu _ _ := Within.cpu
  note := within_note

theorem within_updating : Updating (Within fun _ => True) where
  toSharing := within_sharing
  update _ := within_onCpu fun _ _ => trivial

end Within

section Narrow

abbrev NarrowWithin : Machine → Machine → Prop :=
  Within (·.width = .narrow)

theorem narrow_update {f : Processor → Processor} (kept : ∀ cpu, (f cpu).width = cpu.width) :
    Respects NarrowWithin (onCpu f : Action ε Unit) :=
  within_onCpu fun cpu narrow => (kept cpu).trans narrow

theorem narrow_beforeRead (address : Address) :
    Respects NarrowWithin (beforeRead .narrow address) := by
  rw [beforeRead]
  split
  · refine (within_onConsole _).bind fun v => ?_
    refine (within_setNarrow _ v).bind fun _ => ?_
    exact (within_onConsole _).bind fun _ => within_note _
  · exact respects_pure ()

theorem narrow_afterWrite (address : Address) :
    Respects NarrowWithin (afterWrite .narrow address) := by
  intro m m' related
  rw [afterWrite, afterWrite, related.memory.get_narrow]
  split
  · exact within_onConsole _ m m' related
  · exact .ok () related

theorem narrow_fetch (address : Address) : Respects NarrowWithin (fetch .narrow address) := by
  intro m m' related
  rw [fetch, fetch, related.memory.read_narrow]
  split
  · exact .ok _ related
  · exact respects_fail within_sharing.cpu _ m m' related

theorem narrow_store (address : Address) (v : Word) :
    Respects NarrowWithin (store .narrow address v) := by
  rw [store]
  split
  · exact within_setNarrow _ v
  · exact respects_fail within_sharing.cpu _

theorem narrow_readMemory (address : Address) : Respects NarrowWithin (readMemory address) := by
  intro m m' related
  have narrow := related.holds
  have narrow' : m'.cpu.width = .narrow := by rw [related.cpu, narrow]
  -- Both machines look their width up and find the narrow one.
  rw [readMemory, bind_of_ok (cpuHas_eq _ _), bind_of_ok (cpuHas_eq _ _), narrow, narrow']
  have filled := respects_faulting within_sharing.cpu (narrow_beforeRead address)
  have rest := filled.bind fun _ => (narrow_fetch address).bind fun v =>
    (narrow_update fun cpu => cpu.width_markMemoryRead address).bind fun _ => respects_pure v
  exact rest m m' related

theorem narrow_writeMemory (address : Address) (v : Word) :
    Respects NarrowWithin (writeMemory address v) := by
  intro m m' related
  have narrow := related.holds
  have narrow' : m'.cpu.width = .narrow := by rw [related.cpu, narrow]
  rw [writeMemory, bind_of_ok (cpuHas_eq _ _), bind_of_ok (cpuHas_eq _ _), narrow, narrow']
  have shown := respects_faulting within_sharing.cpu (narrow_afterWrite address)
  have rest := (narrow_store address v).bind fun _ =>
    (narrow_update fun cpu => cpu.width_markMemoryWritten address).bind fun _ => shown
  exact rest m m' related

theorem narrow_accessing : Accessing NarrowWithin where
  toSharing := within_sharing
  update _ := narrow_update
  readMemory := narrow_readMemory
  writeMemory := narrow_writeMemory

end Narrow

section Lockstep

abbrev Alongside : Machine → Machine → Prop :=
  Within fun _ => True

theorem Within.alongside {P : Processor → Prop} {m m' : Machine} (h : Within P m m') :
    Alongside m m' :=
  { h with holds := trivial }

/-- The wide width knows one instruction only, and that one passes no word. -/
theorem executed_alongside {i : Instruction} {m m' : Machine} (related : Alongside m m')
    (known : m.cpu.width = .wide → i.opcode = .halt) :
    Matches Alongside ((execute i >>= fun _ => onCpu (·.endCycle)) m)
      ((execute i >>= fun _ => onCpu (·.endCycle)) m') := by
  by_cases code : i.opcode = .halt
  · have halts := (execute_halt_respects within_updating code).bind fun _ =>
      within_updating.update (·.endCycle)
    exact halts m m' related
  · have narrow : m.cpu.width = .narrow := by
      cases width : m.cpu.width with
      | narrow => rfl
      | wide => exact absurd (known width) code
    have kept (cpu : Processor) : cpu.endCycle.width = cpu.width := by
      rw [Processor.endCycle_eq, Processor.width_setRegister, Processor.width_movePc]
    have passes := (execute_other_respects narrow_accessing code).bind fun _ =>
      narrow_accessing.update (·.endCycle) kept
    exact (passes m m' { related with holds := narrow }).mono fun _ _ => Within.alongside

theorem step_alongside {m m' : Machine} (bounded : m.cpu.Bounded) (related : Alongside m m') :
    Matches Alongside (step m) (step m') := by
  obtain ⟨_, memory, _⟩ := m
  obtain ⟨cpu, memory', console⟩ := m'
  obtain ⟨rfl, rfl, agree, -⟩ := related
  have began : Alongside ⟨cpu.beginCycle, memory, console⟩ ⟨cpu.beginCycle, memory', console⟩ :=
    ⟨rfl, rfl, agree, trivial⟩
  cases halted : cpu.halted with
  | true =>
    rw [step_of_halted halted, step_of_halted halted]
    exact .ok () ⟨rfl, rfl, agree, trivial⟩
  | false =>
    rw [step_of_running halted, step_of_running halted]
    have found := memory.read_eq bounded.pc_lt_cells
    have found' := (agree.read_low cpu.width bounded.pc_lt).trans found
    generalize memory.get cpu.width _ = v at found found'
    cases known : Instruction.decode cpu.width (cpu.width.pattern v) with
    | error code =>
      rw [bind_of_error (fetchInstruction_refused cpu.beginCycle console found known),
        bind_of_error (fetchInstruction_refused cpu.beginCycle console found' known)]
      exact .error _ began
    | ok i =>
      rw [bind_of_ok (fetchInstruction_ok cpu.beginCycle console found known),
        bind_of_ok (fetchInstruction_ok cpu.beginCycle console found' known)]
      refine executed_alongside ⟨rfl, rfl, agree, trivial⟩ ?_
      intro wide
      have width : cpu.width = .wide := wide
      rw [width] at known
      obtain ⟨rfl, -⟩ := Instruction.decode_wide_ok known
      rfl

/-- How a cycle ends, without the machine that it leaves. -/
def outcome (m : Machine) : Except Fault Unit :=
  match step m with
  | .ok _ _ => .ok ()
  | .error f _ => .error f

theorem attempt_alongside {m m' : Machine} (bounded : m.cpu.Bounded) (related : Alongside m m') :
    Alongside m.attempt m'.attempt ∧ m'.outcome = m.outcome := by
  have stepped := step_alongside bounded related
  rw [attempt, attempt, outcome, outcome]
  generalize step m = r at stepped
  generalize step m' = r' at stepped
  cases stepped with
  | ok _ related => exact ⟨related, rfl⟩
  | error f related => exact ⟨related, rfl⟩

theorem attempts_alongside {m m' : Machine} (sound : m.cpu.Sound) (related : Alongside m m')
    (n : ℕ) : (attempt^[n] m).cpu.Sound ∧ Alongside (attempt^[n] m) (attempt^[n] m') := by
  induction n with
  | zero => exact ⟨sound, related⟩
  | succ n ih =>
    obtain ⟨sound, related⟩ := ih
    rw [Function.iterate_succ_apply', Function.iterate_succ_apply']
    exact ⟨sound_attempt sound, (attempt_alongside sound.toBounded related).1⟩

end Lockstep

section Frame

theorem Effect.stored {i : Instruction} {cpu : Processor} {memory : Memory} {console : Console}
    {r : EStateM.Result Fault Machine Unit} (h : Effect i cpu memory console r) {m' : Machine}
    (left : r = .ok () m' ∨ ∃ f, r = .error f m') :
    m'.memory = memory ∨
      cpu.transfer i ≠ .none ∧ ∃ c v, m'.memory = memory.set cpu.width c v := by
  cases h with
  | register | load =>
    obtain rfl : _ = m' := by simpa using left
    exact .inl rfl
  | store passes _ kept _ =>
    obtain rfl : _ = m' := by simpa using left
    obtain ⟨bound, stored⟩ := Memory.write_ok kept
    exact .inr ⟨by simp [passes], _, _, stored⟩
  | asked passes | shown passes =>
    obtain rfl : _ = m' := by simpa using left
    exact .inr ⟨by simp [passes], _, _, rfl⟩
  | unanswered =>
    obtain rfl : _ = m' := by simpa using left
    exact .inl rfl
  | cutShort passes | unshown passes =>
    obtain rfl : _ = m' := by simpa using left
    exact .inr ⟨by simp [passes], _, _, rfl⟩

theorem attempt_memory (m : Machine) : m.attempt.memory = m.memory ∨
    ∃ (c : Width.narrow.Cell) (v : Word), m.attempt.memory = m.memory.set .narrow c v := by
  have cycle := cycle_step m
  have narrowly {i : Instruction} {memory : Memory} (current : m.current? = some i)
      (stored : memory = m.memory ∨ m.cpu.beginCycle.transfer i ≠ .none ∧
        ∃ c v, memory = m.memory.set m.cpu.beginCycle.width c v) :
      memory = m.memory ∨
        ∃ (c : Width.narrow.Cell) (v : Word), memory = m.memory.set .narrow c v := by
    rcases stored with same | ⟨passes, written⟩
    · exact .inl same
    · have narrow : m.cpu.beginCycle.width = .narrow := narrow_of_transfer current passes
      rw [narrow] at written
      exact .inr written
  generalize result : step m = r at cycle
  cases cycle with
  | idle =>
    rw [attempt_of_ok result]
    exact .inl rfl
  | missing | refused =>
    rw [attempt_of_error result]
    exact .inl rfl
  | carried current quiet effect =>
    have stored := effect.stored (.inl rfl)
    rw [attempt_of_ok result]
    exact narrowly current stored
  | failed current quiet effect =>
    have stored := effect.stored (.inr ⟨_, rfl⟩)
    rw [attempt_of_error result]
    exact narrowly current stored

theorem attempt_get_wide (m : Machine) {c : Width.wide.Cell} (beyond : 0x80 ≤ c.val) :
    m.attempt.memory.get .wide c = m.memory.get .wide c := by
  rcases m.attempt_memory with same | ⟨a, v, written⟩
  · rw [same]
  · have apart : ¬ Memory.Overlap a c := by
      have bound : a.val < 0x100 := a.isLt
      rw [Memory.overlap_narrow_wide]
      omega
    rw [written, Memory.get_set_of_apart _ apart]

theorem attempts_get_wide (m : Machine) (n : ℕ) {c : Width.wide.Cell} (beyond : 0x80 ≤ c.val) :
    (attempt^[n] m).memory.get .wide c = m.memory.get .wide c := by
  induction n with
  | zero => rfl
  | succ n ih => rw [Function.iterate_succ_apply', attempt_get_wide _ beyond, ih]

end Frame

/-- Programs over memories that differ from the wide cell 256 on cannot be told apart, call
after call, whether the calls go well or not; and none of them changes a wide cell from the
128th on. -/
theorem footprint {entry : Address} (bound : entry.toNat ≤ 0xFF) {memory memory' : Memory}
    (agree : ∀ c : Width.wide.Cell, c.val ≤ 0xFF → memory'.get .wide c = memory.get .wide c)
    (console : Console) (n : ℕ) :
    let m := attempt^[n] ⟨.startingAt entry, memory, console⟩
    let m' := attempt^[n] ⟨.startingAt entry, memory', console⟩
    m'.cpu = m.cpu ∧ m'.console = m.console ∧ m'.outcome = m.outcome ∧
    (∀ c : Width.wide.Cell, c.val ≤ 0xFF → m'.memory.get .wide c = m.memory.get .wide c) ∧
    ∀ c : Width.wide.Cell, 0x80 ≤ c.val →
      m.memory.get .wide c = memory.get .wide c ∧
      m'.memory.get .wide c = memory'.get .wide c := by
  intro m m'
  have sound := Processor.startingAt_sound (Nat.lt_succ_of_le bound)
  have related : Alongside ⟨.startingAt entry, memory, console⟩
    ⟨.startingAt entry, memory', console⟩ := ⟨rfl, rfl, agree, trivial⟩
  obtain ⟨sound, related⟩ := attempts_alongside sound related n
  refine ⟨related.cpu, related.console, (attempt_alongside sound.toBounded related).2,
    related.memory, ?_⟩
  intro c beyond
  exact ⟨attempts_get_wide _ n beyond, attempts_get_wide _ n beyond⟩

/-- A program that stores a word and halts does not see a wide cell 256. -/
theorem footprint_unseen :
    let memory := ((Memory.zeroed.set .narrow (0x10 : Fin 0x100) 0x7A05).set .narrow
      (0x11 : Fin 0x100) 0x9A80)
    let memory' := memory.set .wide (0x100 : Fin 0x10000) 7
    let m' := attempt^[3] ⟨.startingAt 0x10, memory', ⟨[], [], none, #[]⟩⟩
    (∀ c : Width.wide.Cell, c.val ≤ 0xFF → memory'.get .wide c = memory.get .wide c) ∧
      m'.cpu.halted = true ∧ m'.cpu.register 0xA = 5 ∧
      m'.memory.get .wide (0x100 : Fin 0x10000) = 7 := by
  intro memory memory' m'
  have bound : (0x10 : Address).toNat ≤ 0xFF := by decide
  have agree (c : Width.wide.Cell) (low : c.val ≤ 0xFF) :
      memory'.get .wide c = memory.get .wide c := by
    apply Memory.get_set_of_ne
    rintro rfl
    exact absurd low (by decide)
  obtain ⟨cpu, -, -, -, kept⟩ := footprint bound agree ⟨[], [], none, #[]⟩ 3
  -- The run over the memory without the word is short enough to look at.
  have seen : (attempt^[3] ⟨.startingAt 0x10, memory, ⟨[], [], none, #[]⟩⟩).cpu.halted = true ∧
      (attempt^[3] ⟨.startingAt 0x10, memory, ⟨[], [], none, #[]⟩⟩).cpu.register 0xA = 5 := by
    decide +kernel
  rw [← cpu] at seen
  refine ⟨agree, seen.1, seen.2, ?_⟩
  rw [(kept (0x100 : Fin 0x10000) (by decide)).2]
  exact Memory.get_set_self _ .wide (0x100 : Fin 0x10000) 7

end Machine

end ToyMachine
