import ToyMachine.Proofs.Cycle
import ToyMachine.Proofs.Invariant
import ToyMachine.Proofs.Reference

/-! The narrow machine does what the reference machine does. An instruction is followed
on a processor that has not moved its counter yet, and compared after the end of the
cycle, which moves the counter unless the instruction did. A store to the console and a
load from it differ from others in memory only. -/

namespace ToyMachine

namespace Processor

theorem link_setWidth (cpu : Processor) : cpu.link.setWidth 16 = cpu.pc + 1 := by
  rw [link, BitVec.setWidth_add _ _ (by omega), BitVec.setWidth_setWidth_of_le _ (by omega),
    BitVec.setWidth_eq]
  rfl

structure Fresh (cpu : Processor) : Prop where
  narrow : cpu.width = .narrow
  running : cpu.halted = false
  still : cpu.pcModified = false

namespace Fresh

variable {cpu : Processor} (fresh : cpu.Fresh)

include fresh

theorem setRegister (d : Fin 16) (v : Word) : (cpu.setRegister d v).Fresh :=
  ⟨fresh.narrow, fresh.running, fresh.still⟩

theorem markMemoryRead (address : Address) : (cpu.markMemoryRead address).Fresh :=
  ⟨fresh.narrow, fresh.running, fresh.still⟩

theorem markMemoryWritten (address : Address) : (cpu.markMemoryWritten address).Fresh := by
  unfold Processor.markMemoryWritten
  split
  · exact fresh
  · exact ⟨fresh.narrow, fresh.running, fresh.still⟩

theorem readSources (i : Instruction) : (cpu.readSources i).Fresh := by
  unfold Processor.readSources
  cases i.opcode <;> exact ⟨fresh.narrow, fresh.running, fresh.still⟩

theorem wrap_link : cpu.width.wrap cpu.link = ((cpu.pc + 1).setWidth 8).setWidth 16 := by
  have low : (cpu.link.setWidth 16).setWidth 8 = cpu.link.setWidth 8 :=
    BitVec.setWidth_setWidth_of_le _ (by omega)
  rw [fresh.narrow, Width.wrap, ← low, link_setWidth]

theorem pointed_eq (r : Fin 16) :
    cpu.pointed r = (((cpu.register r).setWidth 16).setWidth 8).setWidth 16 := by
  have low : ((cpu.register r).setWidth 16).setWidth 8 = (cpu.register r).setWidth 8 :=
    BitVec.setWidth_setWidth_of_le _ (by omega)
  rw [pointed, fresh.narrow, Width.wrap, low]

theorem movePc_eq (address : Address) (endOfCycle : Bool) :
    cpu.movePc address endOfCycle =
      { cpu with oldPc := cpu.pc, pc := address, pcModified := !endOfCycle } := by
  rw [movePc, if_neg (by simp [fresh.running, fresh.still]), fresh.still, Bool.false_or]

end Fresh

end Processor

namespace Reference

open Processor (Fresh)

variable {cpu : Processor} {memory : Memory}

section CycleEnd

theorem of_endCycle_of_settled (settled : cpu.halted = true ∨ cpu.pcModified = true) :
    of cpu.endCycle memory = (of cpu memory).put 0 0 := by
  rw [Processor.endCycle_eq, Processor.movePc_of_settled settled, of_setRegister]
  rfl

variable (fresh : cpu.Fresh)

include fresh

theorem of_endCycle : of cpu.endCycle memory = (of cpu memory).advance.put 0 0 := by
  rw [Processor.endCycle_eq, of_setRegister, fresh.movePc_eq, fresh.wrap_link]
  rfl

theorem of_movePc (address : BitVec 8) :
    of (cpu.movePc (address.setWidth 16) false).endCycle memory =
      ((of cpu memory).goTo address).put 0 0 := by
  rw [fresh.movePc_eq, of_endCycle_of_settled (.inr rfl)]
  rfl

theorem of_switchWidth (low : cpu.pc.toNat < 0x100) :
    of cpu.switchWidth.endCycle memory =
      ({ of cpu memory with width := cpu.width.other } : Reference).put 0 0 := by
  have switched : cpu.switchWidth =
      { cpu with width := cpu.width.other, oldPc := cpu.pc, pcModified := true } := by
    rw [Processor.switchWidth, Processor.switchTarget_eq low, Processor.movePc,
      if_neg (by simp [fresh.running]), Bool.not_false, Bool.or_true]
  rw [switched, of_endCycle_of_settled (.inr rfl)]
  rfl

theorem of_computed (d : Fin 16) (v : Word) :
    of (cpu.setRegister d v).endCycle memory =
      ((of cpu memory).advance.put d (v.setWidth 16)).put 0 0 := by
  rw [of_endCycle (fresh.setRegister d v), of_setRegister]
  rfl

end CycleEnd

def carryOut (r : Reference) (i : Instruction) (typed : BitVec 16) : Reference :=
  r.execute typed i.opcode.code.toNat i.target i.second i.third i.switchesWidth

section Transfers

variable {i : Instruction} {w : BitVec 16} {address : Address} {v : Word} (fresh : cpu.Fresh)

include fresh

theorem of_perform_load (passes : cpu.transfer i = .load address) (v : Word) :
    of (cpu.perform i v).endCycle memory =
      ((of cpu memory).advance.put i.target (v.setWidth 16)).put 0 0 := by
  rw [Processor.perform_load passes, of_computed ((fresh.readSources i).markMemoryRead address),
    of_markMemoryRead, of_readSources]

theorem of_perform_store (passes : cpu.transfer i = .store address v) :
    of (cpu.perform i 0).endCycle memory = (of cpu memory).advance.put 0 0 := by
  have performed : cpu.perform i 0 = (cpu.readSources i).markMemoryWritten address := by
    rcases Processor.transfer_store passes with ⟨code, rfl⟩ | ⟨code, rfl⟩
    · simp only [Processor.perform, code]
    · simp only [Processor.perform, code]
  rw [performed, of_endCycle ((fresh.readSources i).markMemoryWritten address),
    of_markMemoryWritten, of_readSources]

variable (typed : BitVec 16) (h : Instruction.decode .narrow (w.setWidth 32) = .ok i)

include h

theorem carryOut_load (passes : cpu.transfer i = .load address) :
    (of cpu memory).carryOut i typed =
      (of cpu memory).advance.load i.target (address.setWidth 8) typed := by
  rw [carryOut]
  rcases Processor.transfer_load passes with ⟨code, rfl⟩ | ⟨code, rfl⟩
  · rw [code, address_eq h, BitVec.setWidth_setWidth_of_le _ (by omega), BitVec.setWidth_eq]
    rfl
  · rw [code, fresh.pointed_eq, BitVec.setWidth_setWidth_of_le _ (by omega), BitVec.setWidth_eq]
    rfl

theorem carryOut_store (passes : cpu.transfer i = .store address v) :
    (of cpu memory).carryOut i typed =
      (of cpu memory).advance.store (address.setWidth 8) (v.setWidth 16) := by
  rw [carryOut]
  rcases Processor.transfer_store passes with ⟨code, rfl⟩ | ⟨code, rfl⟩
  · simp only [Processor.transfer, code, Transfer.store.injEq, true_and] at passes
    rw [code, address_eq h, BitVec.setWidth_setWidth_of_le _ (by omega), BitVec.setWidth_eq,
      ← passes]
    rfl
  · simp only [Processor.transfer, code, Transfer.store.injEq, true_and] at passes
    rw [code, fresh.pointed_eq, BitVec.setWidth_setWidth_of_le _ (by omega), BitVec.setWidth_eq,
      ← passes]
    rfl

end Transfers

section Instructions

variable {i : Instruction} {w : BitVec 16} (typed : BitVec 16) (fresh : cpu.Fresh)
  (low : cpu.pc.toNat < 0x100)
  (fits : ∀ r : Fin 16, Width.narrow.fit (cpu.register r) = cpu.register r)
  (h : Instruction.decode .narrow (w.setWidth 32) = .ok i)

include fresh low fits h

theorem of_perform (silent : cpu.transfer i = .none) :
    of (cpu.perform i 0).endCycle memory = ((of cpu memory).carryOut i typed).put 0 0 := by
  -- The three ways in which such an instruction leaves the counter: at the next cell, or
  -- at an address, or where it is.
  have ready := fresh.readSources i
  have sources : of (cpu.readSources i) memory = of cpu memory := of_readSources i
  have computed (v : Word) : of ((cpu.readSources i).setRegister i.target v).endCycle memory =
      ((of cpu memory).advance.put i.target (v.setWidth 16)).put 0 0 := by
    rw [of_computed ready, sources]
  have untaken : of (cpu.readSources i).endCycle memory = (of cpu memory).advance.put 0 0 := by
    rw [of_endCycle ready, sources]
  have taken : of ((cpu.readSources i).movePc i.address false).endCycle memory =
      ((of cpu memory).goTo (BitVec.ofNat 8 (i.second.val * 16 + i.third.val))).put 0 0 := by
    rw [address_eq h, of_movePc ready, sources]
  rw [carryOut]
  cases code : i.opcode with
  | halt =>
    have same : cpu.readSources i = cpu := by simp only [Processor.readSources, code]
    simp only [Processor.perform, code, same]
    cases i.switchesWidth with
    | false =>
      rw [if_neg (by simp), of_endCycle_of_settled (.inl rfl)]
      rfl
    | true =>
      rw [if_pos rfl, of_switchWidth fresh low]
      rfl
  | add =>
    simp only [Processor.perform, code]
    rw [computed, BitVec.setWidth_add _ _ (by omega)]
    rfl
  | sub =>
    simp only [Processor.perform, code]
    rw [computed, setWidth_sub]
    rfl
  | and =>
    simp only [Processor.perform, code]
    rw [computed, BitVec.setWidth_and]
    rfl
  | xor =>
    simp only [Processor.perform, code]
    rw [computed, BitVec.setWidth_xor]
    rfl
  | shiftLeft =>
    simp only [Processor.perform, code]
    rw [computed, setWidth_shiftLeft]
    rfl
  | shiftRight =>
    simp only [Processor.perform, code]
    rw [computed, setWidth_shiftRight (fits _)]
    rfl
  | loadAddress =>
    simp only [Processor.perform, code]
    rw [computed, BitVec.setWidth_setWidth_of_le _ (by omega), BitVec.setWidth_eq, address_eq h]
    rfl
  | branchZero =>
    simp only [Processor.perform, code, beq_iff_eq, eq_zero_iff_of_fit (fits i.target)]
    by_cases zero : (cpu.register i.target).setWidth 16 = 0
    · rw [if_pos zero, taken]
      exact (congrArg (put · 0 0) (if_pos zero)).symm
    · rw [if_neg zero, untaken]
      exact (congrArg (put · 0 0) (if_neg zero)).symm
  | branchPositive =>
    simp only [Processor.perform, code, toInt_eq_of_fit (fits i.target)]
    by_cases positive : 0 < ((cpu.register i.target).setWidth 16).toInt
    · rw [if_pos positive, taken]
      exact (congrArg (put · 0 0) (if_pos positive)).symm
    · rw [if_neg positive, untaken]
      exact (congrArg (put · 0 0) (if_neg positive)).symm
  | jump =>
    simp only [Processor.perform, code]
    rw [fresh.pointed_eq, of_movePc ready, sources]
    rfl
  | call =>
    simp only [Processor.perform, code]
    rw [address_eq h, of_movePc (ready.setRegister _ _), of_setRegister, sources,
      Processor.link_setWidth]
    rfl
  | load | store | loadIndirect | storeIndirect =>
    simp only [Processor.transfer, code] at silent
    exact absurd silent (by simp)

theorem of_effect {console : Console} {m' : Machine}
    (effect : Machine.Effect i cpu memory console (.ok () m')) :
    of m'.cpu.endCycle m'.memory =
      ((of cpu memory).carryOut i ((console.firstWord .narrow).setWidth 16)).put 0 0 := by
  have narrow := fresh.narrow
  cases effect with
  | register passes _ => exact of_perform _ fresh low fits h passes
  | load passes cell found _ =>
    rw [narrow] at cell found
    rw [carryOut_load fresh _ h passes, load_of_ne _ _ _ (ne_console found cell),
      of_perform_load fresh passes, ← view_of_read found]
    rfl
  | store passes cell kept _ =>
    rw [narrow] at kept
    rw [carryOut_store fresh _ h passes, of_perform_store fresh passes, of_write kept]
    rfl
  | asked passes answer _ _ =>
    -- The cell is filled before it is read, in both machines.
    rw [narrow] at passes answer
    have address : Width.narrow.consoleAddress.setWidth 8 = 0xFF := rfl
    rw [carryOut_load fresh _ h passes, Console.firstWord_of_ask answer, address, load_console,
      of_perform_load fresh passes, narrow, of_set]
    rfl
  | shown passes _ _ =>
    -- The echo is not part of the reference machine; the cell is written all the same.
    rw [narrow] at passes
    rw [carryOut_store fresh _ h passes, of_perform_store fresh passes, narrow, of_set]
    rfl

end Instructions

end Reference

namespace Machine

/-- A narrow cycle that succeeds is one of the reference machine. -/
theorem step_refines {m m' : Machine} (running : m.cpu.halted = false)
    (narrow : m.cpu.width = .narrow) (low : m.cpu.pc.toNat ≤ 0xFF)
    (range : ∀ r : Fin 16, -32768 ≤ (m.cpu.register r).toInt ∧ (m.cpu.register r).toInt ≤ 32767)
    (ran : step m = .ok () m') :
    Reference.of m'.cpu m'.memory =
        (Reference.of m.cpu m.memory).step ((m.console.firstWord .narrow).setWidth 16) ∧
      m'.cpu.register 0 = 0 := by
  have cycle := cycle_step m
  rw [ran] at cycle
  cases cycle with
  | idle halted => exact absurd halted (by simp [running])
  | @carried i console m' current quiet effect =>
    obtain ⟨_, word, present, known⟩ := current?_some current
    obtain ⟨v, found, rfl⟩ := fetched?_some present
    rw [narrow] at found known
    have fetched : (Reference.of m.cpu m.memory).memory (m.cpu.pc.setWidth 8) = v.setWidth 16 :=
      Reference.view_of_read found
    have fresh : m.cpu.beginCycle.Fresh := ⟨narrow, running, rfl⟩
    have bound : m.cpu.beginCycle.pc.toNat < 0x100 := Nat.lt_succ_of_le low
    have fits (r : Fin 16) : Width.narrow.fit (m.cpu.register r) = m.cpu.register r :=
      (fit_narrow_eq_self_iff _).mpr (range r)
    have after := Reference.of_effect fresh bound fits known effect
    have same : (Reference.of m.cpu m.memory).pc = m.cpu.pc := rfl
    refine ⟨?_, Processor.register_endCycle _ 0⟩
    rw [Reference.step]
    simp only [same, fetched]
    rw [after, quiet.firstWord_eq, Reference.carryOut, Reference.code_eq known,
      Reference.target_eq known, Reference.second_eq known, Reference.third_eq known,
      Reference.switchesWidth_eq known]
    rfl

/-- A call from the last cell. -/
theorem step_refines_call :
    let memory := Memory.zeroed.set .narrow (0xFF : Fin 0x100) 0xFB20
    let m : Machine := ⟨Processor.startingAt 0xFF, memory, ⟨[], [], none, #[]⟩⟩
    ∃ m', step m = .ok () m' ∧ (Reference.of m'.cpu m'.memory).registers 0xB = 0x100 ∧
      (Reference.of m'.cpu m'.memory).pc = 0x20 := by
  intro memory m
  have range : ∀ r : Fin 16,
      -32768 ≤ (m.cpu.register r).toInt ∧ (m.cpu.register r).toInt ≤ 32767 := by decide +kernel
  have current : m.current? = some (.ofWord .call 0xFB20) := by decide +kernel
  obtain ⟨console, _, ran⟩ := step_of_silent current rfl
  refine ⟨_, ran, ?_⟩
  rw [(step_refines rfl rfl (by decide) range ran).1]
  decide +kernel

end Machine

end ToyMachine
