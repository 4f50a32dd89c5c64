import ToyMachine.Proofs.Cycle
import ToyMachine.Proofs.NarrowWord
import ToyMachine.Proofs.Update
import Mathlib.Logic.Relation

/-! What holds of a processor whatever program it runs. The program counter stays among
the 256 cells of the narrow width, also in the wide one: there no instruction but the halt
is known, so the counter is put back by the switch or held by the halt and never advanced.
Registers are written in the narrow width only, and so never leave its range. Register 0
is left out of the invariant while an instruction is carried out, and a cycle that fails
has not written it. -/

namespace ToyMachine

/-- Marks that a cycle can leave: registers there are, never register 0 as a target and
never the console as a cell stored to. -/
structure Access.Sound (a : Access) (w : Width) : Prop where
  firstRead_lt : ∀ r, a.firstRead = some r → r < 16
  secondRead_lt : ∀ r, a.secondRead = some r → r < 16
  written_lt : ∀ r, a.written = some r → r < 16
  written_ne : a.written ≠ some 0
  memoryWritten_ne : a.memoryWritten ≠ some w.consoleAddress

namespace Processor

structure Bounded (cpu : Processor) : Prop where
  pc_lt : cpu.pc.toNat < 0x100
  oldPc_lt : cpu.oldPc.toNat < 0x100
  fits : ∀ r : Fin 16, Width.narrow.fit (cpu.register r) = cpu.register r
  access : cpu.access.Sound cpu.width

structure Sound (cpu : Processor) : Prop extends Bounded cpu where
  zero : cpu.register 0 = 0

/-- Both widths have the address in the counter, so a switch does not move it. -/
theorem switchTarget_eq {cpu : Processor} (low : cpu.pc.toNat < 0x100) :
    cpu.switchTarget = cpu.pc := by
  apply BitVec.eq_of_toNat_eq
  unfold Processor.switchTarget
  cases cpu.width <;>
    simp only [Width.other, Width.wrap, BitVec.toNat_setWidth] <;> omega

namespace Bounded

variable {cpu : Processor}

theorem markRegisterRead (b : cpu.Bounded) (r : Fin 16) (second : Bool) :
    (cpu.markRegisterRead r.val second).Bounded := by
  have named : ∀ k, some r.val = some k → k < 16 := by
    rintro k ⟨⟩
    exact r.isLt
  cases second with
  | false => exact { b with access := { b.access with firstRead_lt := named } }
  | true => exact { b with access := { b.access with secondRead_lt := named } }

theorem markMemoryRead (b : cpu.Bounded) (address : Address) :
    (cpu.markMemoryRead address).Bounded :=
  { b with access := { b.access with } }

theorem markMemoryWritten (b : cpu.Bounded) (address : Address) :
    (cpu.markMemoryWritten address).Bounded := by
  unfold Processor.markMemoryWritten
  split
  · exact b
  · next other =>
    have kept : some address ≠ some cpu.width.consoleAddress := by simpa using other
    exact { b with access := { b.access with memoryWritten_ne := kept } }

theorem setRegister (b : cpu.Bounded) (narrow : cpu.width = .narrow) (r : Fin 16) (v : Word) :
    (cpu.setRegister r v).Bounded := by
  refine ⟨b.pc_lt, b.oldPc_lt, ?_, ?_⟩
  · intro k
    rw [register_setRegister, narrow]
    split
    · exact Width.fit_fit _ _
    · exact b.fits k
  · have sound := b.access
    simp only [Processor.setRegister]
    split
    · exact sound
    · next other =>
      have named : ∀ k, some r.val = some k → k < 16 := by
        rintro k ⟨⟩
        exact r.isLt
      have positive : some r.val ≠ some 0 := by simpa using other
      exact { sound with written_lt := named, written_ne := positive }

theorem movePc (b : cpu.Bounded) {target : Address} (bound : target.toNat < 0x100)
    (endOfCycle : Bool) : (cpu.movePc target endOfCycle).Bounded := by
  unfold Processor.movePc
  split
  · exact b
  · exact { b with pc_lt := bound, oldPc_lt := b.pc_lt }

theorem halt (b : cpu.Bounded) : cpu.halt.Bounded :=
  { b with }

theorem beginCycle (b : cpu.Bounded) : cpu.beginCycle.Bounded :=
  { b with access := ⟨nofun, nofun, nofun, nofun, nofun⟩ }

theorem switchWidth (b : cpu.Bounded) (clear : cpu.access.memoryWritten = none) :
    cpu.switchWidth.Bounded := by
  have other : ({ cpu with width := cpu.width.other } : Processor).Bounded :=
    { b with access := { b.access with memoryWritten_ne := by simp [clear] } }
  refine movePc other ?_ false
  rw [switchTarget_eq b.pc_lt]
  exact b.pc_lt

theorem readSources (b : cpu.Bounded) (i : Instruction) : (cpu.readSources i).Bounded := by
  unfold Processor.readSources
  cases i.opcode with
  | add | sub | and | xor | shiftLeft | shiftRight =>
    exact (b.markRegisterRead _ _).markRegisterRead _ _
  | store | branchZero | branchPositive | jump => exact b.markRegisterRead _ _
  | loadIndirect => exact b.markRegisterRead _ _
  | storeIndirect => exact (b.markRegisterRead _ _).markRegisterRead _ _
  | halt | loadAddress | load | call => exact b

/-- The wide width is safe because it knows one instruction only. -/
theorem perform {i : Instruction} (b : cpu.Bounded) (decoded : i.Decoded)
    (clear : cpu.access.memoryWritten = none) (known : cpu.width = .wide → i.opcode = .halt)
    (v : Word) : (cpu.perform i v).Bounded := by
  have ready := b.readSources i
  have width := cpu.readSources_width i
  have named : i.address.toNat < 0x100 := decoded.address_lt .narrow
  have pointed (narrow : cpu.width = .narrow) (r : Fin 16) : (cpu.pointed r).toNat < 0x100 := by
    rw [Processor.pointed, narrow]
    exact Width.wrap_lt .narrow _
  have narrow : i.opcode ≠ .halt → cpu.width = .narrow := by
    intro other
    cases w : cpu.width with
    | narrow => rfl
    | wide => exact absurd (known w) other
  unfold Processor.perform
  cases code : i.opcode with
  | halt =>
    have same : cpu.readSources i = cpu := by simp only [Processor.readSources, code]
    dsimp only
    rw [same]
    split
    · exact b.switchWidth clear
    · exact b.halt
  | add | sub | and | xor | shiftLeft | shiftRight | loadAddress =>
    exact ready.setRegister (width.trans (narrow (by simp [code]))) _ _
  | load | loadIndirect =>
    exact (ready.markMemoryRead _).setRegister (width.trans (narrow (by simp [code]))) _ _
  | store | storeIndirect => exact ready.markMemoryWritten _
  | branchZero | branchPositive =>
    dsimp only
    split
    · exact ready.movePc named false
    · exact ready
  | jump => exact ready.movePc (pointed (narrow (by simp [code])) _) false
  | call =>
    exact (ready.setRegister (width.trans (narrow (by simp [code]))) _ _).movePc named false

end Bounded

theorem width_perform {cpu : Processor} {i : Instruction} (other : i.opcode ≠ .halt) (v : Word) :
    (cpu.perform i v).width = cpu.width := by
  unfold perform
  cases code : i.opcode with
  | halt => exact absurd code other
  | branchZero | branchPositive =>
    dsimp only
    split <;> simp only [width_movePc, readSources_width]
  | _ =>
    simp only [width_setRegister, width_markMemoryRead, width_markMemoryWritten, width_movePc,
      readSources_width]

/-- An instruction that ends in the wide width has stopped the machine or moved the
counter, so the end of the cycle does not. -/
theorem perform_settled {cpu : Processor} {i : Instruction} (running : cpu.halted = false)
    (known : cpu.width = .wide → i.opcode = .halt) {v : Word}
    (wide : (cpu.perform i v).width = .wide) :
    (cpu.perform i v).halted = true ∨ (cpu.perform i v).pcModified = true := by
  by_cases code : i.opcode = .halt
  · simp only [perform, readSources, code]
    split
    · right
      simp [switchWidth, movePc, running]
    · exact .inl rfl
  · rw [width_perform code] at wide
    exact absurd (known wide) code

theorem movePc_of_settled {cpu : Processor} (settled : cpu.halted = true ∨ cpu.pcModified = true)
    (target : Address) : cpu.movePc target true = cpu := by
  rw [movePc, if_pos]
  rcases settled with halted | moved
  · simp [halted]
  · simp [moved]

theorem Bounded.endCycle {cpu : Processor} (b : cpu.Bounded)
    (settled : cpu.width = .wide → cpu.halted = true ∨ cpu.pcModified = true) :
    cpu.endCycle.Sound := by
  have moved : (cpu.movePc (cpu.width.wrap cpu.link) true).Bounded := by
    cases width : cpu.width with
    | narrow => exact b.movePc (Width.wrap_lt .narrow _) true
    | wide =>
      rw [movePc_of_settled (settled width)]
      exact b
  refine { moved with fits := ?_, zero := ?_ }
  · intro r
    rw [register_endCycle]
    split
    · rfl
    · exact b.fits r
  · rw [register_endCycle, if_pos rfl]

theorem startingAt_sound {entry : Address} (h : entry.toNat < 0x100) :
    (startingAt entry).Sound where
  pc_lt := h
  oldPc_lt := h
  fits r := by
    have empty : (startingAt entry).register r = 0 := Vector.getElem_replicate r.isLt
    rw [empty]
    rfl
  access := ⟨nofun, nofun, nofun, nofun, nofun⟩
  zero := rfl

end Processor

end ToyMachine
