import ToyMachine.Display.Table
import ToyMachine.Proofs.Destination
import ToyMachine.Proofs.Reachable

/-! The display highlights every change. A cycle writes one register at most, and marks it
unless it is register 0, which is zero before and after; it stores to one cell at most, and
marks it unless it is the console. The marks of the cycle before are gone by then. The colour of
the program counter tells the three ways apart in which a cycle can end: the machine has
halted, the instruction has put the counter somewhere, or the end of the cycle has moved it on. -/

namespace ToyMachine

namespace Processor

section Registers

/-- No register but `d` has another word, and `d` only with the mark of a target. -/
def Writes (d : Fin 16) (before after : Processor) : Prop :=
  ∀ r, after.register r ≠ before.register r →
    r = d ∧ (d.val ≠ 0 → after.access.written = some d.val)

variable {d : Fin 16} {before after : Processor}

theorem writes_perform (cpu : Processor) (i : Instruction) (v : Word) :
    Writes i.target cpu (cpu.perform i v) := by
  intro r changed
  have writes : i.destination? = some r :=
    Decidable.byContradiction fun other => changed (cpu.register_perform other v)
  obtain rfl := target_eq_of_destination writes
  exact ⟨rfl, fun other => cpu.written_perform writes other v⟩

/-- The end of a cycle resets register 0, which was zero before. -/
theorem Writes.endCycle (writes : Writes d before after) (zero : before.register 0 = 0) {r : Fin 16}
    (changed : after.endCycle.register r ≠ before.register r) :
    r = d ∧ after.endCycle.access.written = some r.val := by
  rw [register_endCycle] at changed
  split at changed
  · next first =>
    rw [← first] at changed
    exact absurd zero.symm changed
  · next other =>
    obtain ⟨rfl, marked⟩ := writes r changed
    rw [access_endCycle]
    exact ⟨rfl, marked fun zero => other (Fin.ext zero.symm)⟩

end Registers

section Counter

/-- The instruction puts the program counter somewhere by itself, be it where it was. -/
def SetsPc (cpu : Processor) (i : Instruction) : Prop :=
  match i.opcode with
  | .halt => i.switchesWidth = true
  | .branchZero => cpu.register i.target = 0
  | .branchPositive => 0 < (cpu.register i.target).toInt
  | .jump | .call => True
  | _ => False

inductive Leaves (cpu : Processor) (i : Instruction) (after : Processor) : Prop where
  | stopped (code : i.opcode = .halt) (unset : ¬ cpu.SetsPc i) (halted : after.halted = true)
  | set (sets : cpu.SetsPc i) (running : after.halted = false) (modified : after.pcModified = true)
  | unmoved (other : i.opcode ≠ .halt) (unset : ¬ cpu.SetsPc i) (running : after.halted = false)
      (unmodified : after.pcModified = false) (pc : after.pc = cpu.pc)

theorem Leaves.movePc {cpu after : Processor} {i : Instruction} (sets : cpu.SetsPc i)
    (running : after.halted = false) (target : Address) :
    cpu.Leaves i (after.movePc target false) := by
  refine .set sets ?_ ?_ <;> simp [Processor.movePc, running]

theorem readSources_eq (cpu : Processor) (i : Instruction) :
    cpu.readSources i = { cpu with access := (cpu.readSources i).access } := by
  unfold readSources
  cases i.opcode <;> rfl

theorem markMemoryWritten_eq (cpu : Processor) (address : Address) :
    cpu.markMemoryWritten address =
      { cpu with access := (cpu.markMemoryWritten address).access } := by
  unfold markMemoryWritten
  split <;> rfl

theorem memoryRead_readSources (cpu : Processor) (i : Instruction) :
    (cpu.readSources i).access.memoryRead = cpu.access.memoryRead := by
  unfold readSources
  cases i.opcode <;> rfl

theorem leaves_perform {cpu : Processor} (running : cpu.halted = false)
    (fresh : cpu.pcModified = false) (i : Instruction) (v : Word) :
    cpu.Leaves i (cpu.perform i v) := by
  have ready := cpu.readSources_eq i
  have running' : (cpu.readSources i).halted = false := by
    rw [ready]
    exact running
  have fresh' : (cpu.readSources i).pcModified = false := by
    rw [ready]
    exact fresh
  have pc := cpu.readSources_pc i
  unfold perform
  cases code : i.opcode with
  | halt =>
    dsimp only
    split
    · next switches =>
      have sets : cpu.SetsPc i := by simpa only [SetsPc, code] using switches
      unfold switchWidth
      refine .movePc sets ?_ _
      exact running'
    · next stops =>
      have unset : ¬ cpu.SetsPc i := by simpa only [SetsPc, code] using stops
      exact .stopped code unset rfl
  | store | storeIndirect =>
    have unset : ¬ cpu.SetsPc i := by simp only [SetsPc, code, not_false_iff]
    dsimp only
    rw [markMemoryWritten_eq]
    exact .unmoved (by simp [code]) unset running' fresh' pc
  | branchZero =>
    dsimp only
    split
    · next taken =>
      have sets : cpu.SetsPc i := by simpa only [SetsPc, code, beq_iff_eq] using taken
      exact .movePc sets running' _
    · next passed =>
      have unset : ¬ cpu.SetsPc i := by simpa only [SetsPc, code, beq_iff_eq] using passed
      exact .unmoved (by simp [code]) unset running' fresh' pc
  | branchPositive =>
    dsimp only
    split
    · next taken =>
      have sets : cpu.SetsPc i := by simpa only [SetsPc, code] using taken
      exact .movePc sets running' _
    · next passed =>
      have unset : ¬ cpu.SetsPc i := by simpa only [SetsPc, code] using passed
      exact .unmoved (by simp [code]) unset running' fresh' pc
  | jump | call =>
    have sets : cpu.SetsPc i := by simp only [SetsPc, code]
    refine .movePc sets ?_ _
    exact running'
  | _ =>
    have unset : ¬ cpu.SetsPc i := by simp only [SetsPc, code, not_false_iff]
    exact .unmoved (by simp [code]) unset running' fresh' pc

structure Ended (cpu : Processor) (i : Instruction) (after : Processor) : Prop where
  white : after.pcColour = .white ↔ after.halted = true
  red : after.pcColour = .red ↔ cpu.SetsPc i
  yellow : after.pcColour = .yellow ↔ i.opcode ≠ .halt ∧ ¬ cpu.SetsPc i
  advanced : after.pcColour = .yellow → after.pc.toNat = (cpu.pc.toNat + 1) % 0x100

theorem Leaves.endCycle {cpu after : Processor} {i : Instruction} (leaves : cpu.Leaves i after)
    (narrow : i.opcode ≠ .halt → after.width = .narrow) :
    cpu.Ended i after.endCycle := by
  cases leaves with
  | stopped code unset halted =>
    have kept : after.movePc (after.width.wrap after.link) true = after :=
      movePc_of_settled (.inl halted) _
    have stays : after.endCycle.halted = true := by
      rw [Processor.endCycle, kept]
      exact halted
    have colour : after.endCycle.pcColour = .white := by rw [pcColour, if_pos stays]
    refine ⟨?_, ?_, ?_, ?_⟩ <;> simp [colour, stays, code, unset]
  | set sets running modified =>
    have kept : after.movePc (after.width.wrap after.link) true = after :=
      movePc_of_settled (.inr modified) _
    have runs : after.endCycle.halted = false := by
      rw [Processor.endCycle, kept]
      exact running
    have colour : after.endCycle.pcColour = .red := by
      simp [pcColour, Processor.endCycle, kept, running, modified]
    refine ⟨?_, ?_, ?_, ?_⟩ <;> simp [colour, runs, sets]
  | unmoved other unset running unmodified pc =>
    have next := advance_toNat (narrow other)
    have moved : after.movePc (after.width.wrap after.link) true =
        { after with oldPc := after.pc, pc := after.width.wrap after.link } := by
      simp [Processor.movePc, running, unmodified]
    have differs : after.pc ≠ after.width.wrap after.link := by
      intro same
      have number := congrArg BitVec.toNat same
      rw [next, pc] at number
      omega
    have runs : after.endCycle.halted = false := by
      rw [Processor.endCycle, moved]
      exact running
    have colour : after.endCycle.pcColour = .yellow := by
      simp [pcColour, Processor.endCycle, moved, running, unmodified, differs]
    have there : after.endCycle.pc.toNat = (cpu.pc.toNat + 1) % 0x100 := by
      rw [Processor.endCycle, moved, ← pc]
      exact next
    refine ⟨?_, ?_, ?_, ?_⟩ <;> simp [colour, runs, other, unset, there]

end Counter

end Processor

namespace Machine

open Display (cellAddress)

/-- No narrow cell but `c` has another word, and `c` only with the mark of a cell stored to,
unless it is the console. -/
def Stores (c : Width.narrow.Cell) (memory : Memory) (after : Machine) : Prop :=
  ∀ a, after.memory.get .narrow a ≠ memory.get .narrow a →
    a = c ∧ (c ≠ Width.narrow.consoleCell →
      after.cpu.access.memoryRead = none ∧
        after.cpu.access.memoryWritten = some (cellAddress c))

section Stores

variable {i : Instruction} {cpu : Processor} {memory : Memory} {console : Console} {m' : Machine}

theorem Stores.of_kept (c : Width.narrow.Cell) (kept : m'.memory = memory) :
    Stores c memory m' := by
  intro a changed
  rw [kept] at changed
  exact absurd rfl changed

theorem Stores.set {c : Width.narrow.Cell} (v : Word)
    (marked : c ≠ Width.narrow.consoleCell →
      cpu.access.memoryRead = none ∧ cpu.access.memoryWritten = some (cellAddress c)) :
    Stores c memory ⟨cpu, memory.set .narrow c v, console⟩ := by
  intro a changed
  by_cases same : c = a
  · exact ⟨same.symm, marked⟩
  · exact absurd (memory.get_set_of_ne _ same v) changed

theorem Effect.stores (unread : cpu.access.memoryRead = none)
    (known : cpu.width = .wide → i.opcode = .halt)
    (effect : Effect i cpu memory console (.ok () m')) : ∃ c, Stores c memory m' := by
  cases width : cpu.width with
  | wide =>
    have silent : cpu.transfer i = .none := by simp only [Processor.transfer, known width]
    obtain ⟨console', -, result⟩ := effect.of_silent silent
    simp only [EStateM.Result.ok.injEq, true_and] at result
    exact ⟨_, .of_kept Width.narrow.consoleCell (result ▸ rfl)⟩
  | narrow =>
    cases effect with
    | register | load => exact ⟨_, .of_kept Width.narrow.consoleCell rfl⟩
    | asked | shown =>
      rw [width]
      exact ⟨_, .set _ (absurd rfl)⟩
    | @store address v _ _ passes cell kept quiet =>
      rw [width] at kept
      obtain ⟨bound, rfl⟩ := Memory.write_ok kept
      have plain : address ≠ (cpu.readSources i).width.consoleAddress := by
        rw [Processor.readSources_width]
        exact cell
      have named : cellAddress (⟨address.toNat, bound⟩ : Width.narrow.Cell) = address := by
        rw [cellAddress, BitVec.ofNat_toNat, BitVec.setWidth_eq]
      refine ⟨_, .set _ fun _ => ?_⟩
      rw [Processor.perform_store passes, Processor.markMemoryWritten, if_neg plain, named]
      exact ⟨(Processor.memoryRead_readSources cpu i).trans unread, rfl⟩

end Stores

/-- What a successful cycle changes, and the colours that it leaves on the display. -/
structure Highlighted (m m' : Machine) : Prop where
  oneRegister : ∀ r s, m'.cpu.register r ≠ m.cpu.register r →
    m'.cpu.register s ≠ m.cpu.register s → r = s
  oneCell : ∀ a b, m'.memory.get .narrow a ≠ m.memory.get .narrow a →
    m'.memory.get .narrow b ≠ m.memory.get .narrow b → a = b
  register : ∀ r, m'.cpu.register r ≠ m.cpu.register r →
    m'.cpu.access.category r.val = .written ∧ m'.cpu.registerColour r.val = .red
  plain : ∀ r, m'.cpu.registerColour r.val ≠ .red → m'.cpu.register r = m.cpu.register r
  cell : ∀ a, m'.memory.get .narrow a ≠ m.memory.get .narrow a →
    a ≠ Width.narrow.consoleCell →
    m'.cpu.cellColour (cellAddress a) = if cellAddress a = m'.cpu.pc then .yellow else .red
  white : m'.cpu.pcColour = .white ↔ m'.cpu.halted = true
  red : m'.cpu.pcColour = .red ↔ ∃ i, m.current? = some i ∧ m.cpu.SetsPc i
  yellow : m'.cpu.pcColour = .yellow ↔
    ∃ i, m.current? = some i ∧ i.opcode ≠ .halt ∧ ¬ m.cpu.SetsPc i
  advanced : m'.cpu.pcColour = .yellow → m'.cpu.pc.toNat = (m.cpu.pc.toNat + 1) % 0x100

theorem step_highlights {entry : Address} (bound : entry.toNat ≤ 0xFF) {initial : Memory}
    {m m' : Machine} (reached : Reachable entry initial (m.cpu, m.memory))
    (running : m.cpu.halted = false) (ran : step m = .ok () m') : m.Highlighted m' := by
  have sound : m.cpu.Sound := reached.sound (by omega)
  have cycle := cycle_step m
  rw [ran] at cycle
  cases cycle with
  | idle halted => exact absurd halted (by simp [running])
  | @carried i console after current quiet effect =>
    have known : m.cpu.beginCycle.width = .wide → i.opcode = .halt := current?_wide current
    have running' : m.cpu.beginCycle.halted = false := running
    obtain ⟨v, performed⟩ := effect.ok_cpu
    have registers : Processor.Writes i.target m.cpu.beginCycle after.cpu := by
      rw [performed]
      exact Processor.writes_perform _ i v
    have leaves : m.cpu.beginCycle.Leaves i after.cpu := by
      rw [performed]
      exact Processor.leaves_perform running' rfl i v
    have narrow : i.opcode ≠ .halt → after.cpu.width = .narrow := by
      intro other
      rw [performed, Processor.width_perform other]
      exact current?_narrow current other
    have ended := leaves.endCycle narrow
    obtain ⟨c, stores⟩ := effect.stores rfl known
    have marked (r : Fin 16) (changed : after.cpu.endCycle.register r ≠ m.cpu.register r) :
        after.cpu.endCycle.access.category r.val = .written := by
      rw [Access.category, if_pos (registers.endCycle sound.zero changed).2]
    refine ⟨?_, ?_, ?_, ?_, ?_, ended.white, ?_, ?_, ended.advanced⟩
    · intro r s first second
      have one := (registers.endCycle sound.zero first).1
      exact one.trans (registers.endCycle sound.zero second).1.symm
    · intro a b first second
      exact (stores a first).1.trans (stores b second).1.symm
    · intro r changed
      rw [Processor.registerColour, marked r changed]
      exact ⟨rfl, rfl⟩
    · intro r other
      refine Decidable.byContradiction fun changed => ?_
      rw [Processor.registerColour, marked r changed] at other
      exact other rfl
    · intro a changed operand
      obtain ⟨rfl, shown⟩ := stores a changed
      obtain ⟨unread, written⟩ := shown operand
      simp [Processor.cellColour, Processor.access_endCycle, unread, written]
    · simp only [ended.red, current, Option.some.injEq, exists_eq_left']
      rfl
    · simp only [ended.yellow, current, Option.some.injEq, exists_eq_left']
      rfl

/-- A register is written by the last instruction there is room for. -/
theorem step_highlights_wrapped :
    let memory := Memory.zeroed.set .narrow (0xFF : Fin 0x100) 0x7B05
    let m : Machine := ⟨Processor.startingAt 0xFF, memory, ⟨[], [], none, #[]⟩⟩
    ∃ m', step m = .ok () m' ∧ m'.cpu.registerColour 0xB = .red ∧
      m'.cpu.pcColour = .yellow ∧ m'.cpu.pc.toNat = 0 := by
  intro memory m
  have current : m.current? = some (.ofWord .loadAddress 0x7B05) := by decide +kernel
  obtain ⟨console, _, ran⟩ := step_of_silent current rfl
  have reached : Reachable 0xFF memory (m.cpu, m.memory) := .refl
  have highlighted := step_highlights (by decide) reached rfl ran
  have moved := highlighted.yellow.mpr ⟨_, current, nofun, nofun⟩
  have changed :
      (m.cpu.beginCycle.perform (.ofWord .loadAddress 0x7B05) 0).endCycle.register 0xB ≠
        m.cpu.register 0xB := by decide +kernel
  have wrapped : (m.cpu.pc.toNat + 1) % 0x100 = 0 := by decide
  exact ⟨_, ran, (highlighted.register 0xB changed).2, moved,
    (highlighted.advanced moved).trans wrapped⟩

end Machine

end ToyMachine
