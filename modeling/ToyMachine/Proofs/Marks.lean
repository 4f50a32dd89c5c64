import ToyMachine.Proofs.Destination
import ToyMachine.Proofs.Reachable
import ToyMachine.Proofs.Display.Heading

/-! The marks of a cycle. An instruction marks the registers that it reads, in the order in which
its operands are used, the register that it writes, and the cell that it loads from or stores to.
There is no mark for register 0 as a destination, nor for the console as a cell stored to. A cycle
starts without marks, so that it ends with those of its instruction alone. -/

namespace ToyMachine

namespace Processor

/-- The address of the cell that an instruction loads from or stores to. -/
def effective (cpu : Processor) (i : Instruction) : Address :=
  match i.opcode with
  | .loadIndirect | .storeIndirect => BitVec.ofNat 16 ((cpu.register i.third).toNat % 0x100)
  | _ => i.address

/-- The marks of an instruction, by the roles of its operands. -/
def marks (cpu : Processor) (i : Instruction) : Access where
  firstRead := match i.opcode with
    | .add | .sub | .and | .xor | .shiftLeft | .shiftRight => some i.s.toNat
    | .store | .storeIndirect | .branchZero | .branchPositive | .jump => some i.d.toNat
    | .loadIndirect => some i.t.toNat
    | .halt | .loadAddress | .load | .call => none
  secondRead := match i.opcode with
    | .add | .sub | .and | .xor | .shiftLeft | .shiftRight | .storeIndirect => some i.t.toNat
    | _ => none
  written := match i.opcode with
    | .add | .sub | .and | .xor | .shiftLeft | .shiftRight | .loadAddress | .load | .loadIndirect
    | .call => if i.d = 0 then none else some i.d.toNat
    | _ => none
  memoryRead := match i.opcode with
    | .load | .loadIndirect => some (cpu.effective i)
    | _ => none
  memoryWritten := match i.opcode with
    | .store | .storeIndirect =>
      if cpu.effective i = 0xFF then none else some (cpu.effective i)
    | _ => none

variable {cpu : Processor} {i : Instruction}

theorem pointed_narrow (narrow : cpu.width = .narrow) (r : Fin 16) :
    cpu.pointed r = BitVec.ofNat 16 ((cpu.register r).toNat % 0x100) := by
  apply BitVec.eq_of_toNat_eq
  rw [pointed, narrow, Width.wrap]
  simp only [BitVec.toNat_setWidth, BitVec.toNat_ofNat]

theorem target_eq_zero_iff (decoded : i.Decoded) : i.d = 0 ↔ i.target = 0 := by
  rw [← BitVec.toNat_inj, decoded.target_val]
  exact Fin.val_eq_zero_iff

theorem access_perform (blank : cpu.access = {}) (decoded : i.Decoded)
    (narrow : i.opcode ≠ .halt → cpu.width = .narrow) (v : Word) :
    (cpu.perform i v).access = cpu.marks i := by
  -- In the wide width nothing but a halt is carried out, and that leaves no marks.
  have console (other : i.opcode ≠ .halt) : cpu.width.consoleAddress = 0xFF :=
    congrArg Width.consoleAddress (narrow other)
  have there (other : i.opcode ≠ .halt) := pointed_narrow (narrow other) i.third
  unfold perform marks effective
  simp only [target_eq_zero_iff decoded, decoded.target_val, decoded.second_val,
    decoded.third_val]
  cases code : i.opcode with
  | halt =>
    simp only [readSources, code]
    split
    · simp [switchWidth, access_movePc, blank]
    · simp [halt, blank]
  | load => simp [readSources, code, access_setRegister, markMemoryRead, blank]
  | loadIndirect =>
    simp [readSources, code, access_setRegister, markRegisterRead, markMemoryRead, blank,
      there (by simp [code])]
  | store =>
    simp [readSources, code, access_markMemoryWritten, markRegisterRead, blank,
      console (by simp [code])]
  | storeIndirect =>
    simp [readSources, code, access_markMemoryWritten, markRegisterRead, blank,
      console (by simp [code]), there (by simp [code])]
  | branchZero | branchPositive =>
    simp only [readSources, code]
    split
    · simp [access_movePc, markRegisterRead, blank]
    · simp [markRegisterRead, blank]
  | jump => simp [readSources, code, access_movePc, markRegisterRead, blank]
  | call => simp [readSources, code, access_movePc, access_setRegister, blank]
  | _ => simp [readSources, code, access_setRegister, markRegisterRead, blank]

end Processor

namespace Machine

open Display (ShowsMark)

theorem access_step {m m' : Machine} (running : m.cpu.halted = false)
    (ran : step m = .ok () m') :
    ∃ i, m.current? = some i ∧ m'.cpu.access = m.cpu.marks i := by
  obtain ⟨i, v, current, performed⟩ := step_performs running ran
  have narrow : i.opcode ≠ .halt → m.cpu.beginCycle.width = .narrow := current?_narrow current
  have marked : (m.cpu.beginCycle.perform i v).access = m.cpu.beginCycle.marks i :=
    Processor.access_perform rfl (current?_decoded current) narrow v
  refine ⟨i, current, ?_⟩
  rw [performed, Processor.access_endCycle]
  exact marked

/-- After a successful cycle the marks are those of its instruction, whatever they were before; and
the display has a window for each mark of a cell, as long as the machine runs. -/
theorem step_marks {m m' : Machine} (running : m.cpu.halted = false)
    (ran : step m = .ok () m') :
    (∃ i, m.current? = some i ∧ m'.cpu.access = m.cpu.marks i) ∧
      ∀ cpu memory half, ShowsMark cpu memory half "last read" cpu.access.memoryRead ∧
        ShowsMark cpu memory half "last write" cpu.access.memoryWritten :=
  ⟨access_step running ran, fun cpu memory half =>
    ⟨Display.showsMark_lastRead cpu memory half, Display.showsMark_lastWrite cpu memory half⟩⟩

/-- A load through the register that it writes marks the address from before the cycle. -/
theorem step_marks_through :
    let m : Machine := ⟨{ Processor.startingAt 0x10 with
      registers := (Vector.replicate 16 0).set 0xA 0x130
      access := ⟨some 1, some 2, some 3, some 4, some 5⟩ },
      (Memory.zeroed.set .narrow (0x10 : Fin 0x100) 0xAA0A).set .narrow (0x30 : Fin 0x100) 0x1234,
      ⟨[], [], none, #[]⟩⟩
    ∃ m', step m = .ok () m' ∧ m'.cpu.register 0xA = 0x1234 ∧
      m'.cpu.access = ⟨some 0xA, none, some 0xA, some 0x30, none⟩ ∧
      (∀ half, Display.Heads "last read" (Display.cycle m'.cpu m'.memory half) ∧
        ¬ Display.Heads "last write" (Display.cycle m'.cpu m'.memory half)) ∧
      ∃ front table behind labels values, Display.cycle m'.cpu m'.memory 0 =
          front ++ ("\n  Memory near last read:\n" ++ table ++ behind) ∧
        Display.Table table labels values ∧
        labels.map Display.Mark.shown = [("M[30]", .blue)] ∧
        values.map Display.Mark.shown = [("1234", .blue)] := by
  intro m
  obtain ⟨m', ran, loaded, running, width, pc, cell⟩ : ∃ m', step m = .ok () m' ∧
      m'.cpu.register 0xA = 0x1234 ∧ m'.cpu.halted = false ∧ m'.cpu.width = .narrow ∧
      m'.cpu.pc = 0x11 ∧ m'.memory.read .narrow 0x30 = .ok 0x1234 :=
    ⟨_, rfl, by decide +kernel, by decide +kernel, rfl, by decide +kernel, by decide +kernel⟩
  obtain ⟨⟨i, current, marked⟩, shows⟩ := step_marks rfl ran
  have known : m.current? = some (.ofWord .loadIndirect 0xAA0A) := by decide +kernel
  obtain rfl : .ofWord .loadIndirect 0xAA0A = i := Option.some.inj (known.symm.trans current)
  have access : m'.cpu.access = ⟨some 0xA, none, some 0xA, some 0x30, none⟩ :=
    marked.trans (by decide +kernel)
  have blue : m'.cpu.cellColour 0x30 = .blue := by
    rw [Processor.cellColour, pc, access]
    rfl
  refine ⟨m', ran, loaded, access, fun half => ?_, ?_⟩
  · obtain ⟨read, written⟩ := shows m'.cpu m'.memory half
    rw [read.shown, written.shown, access]
    simp [running]
  · obtain ⟨front, table, behind, parts, labels, values, shown, named, valued⟩ :=
      (shows m'.cpu m'.memory 0).1.around running 0x30 (by rw [access]; rfl)
    have alone : (Window.around m'.cpu.width 0x30 0).addresses = [0x30] := by
      rw [width]
      decide
    rw [alone, width] at named valued
    refine ⟨front, table, behind, labels, values, parts, shown, ?_, ?_⟩
    · rw [named, List.map_singleton, blue]
      decide
    · obtain _ | ⟨⟨v, found, shown⟩, ⟨⟩⟩ := valued
      cases cell.symm.trans found
      rw [List.map_singleton, shown, blue]
      decide

end Machine

end ToyMachine
