import ToyMachine.Proofs.Effect

/-! The register that an instruction writes. Only arithmetic, loads and calls name one; what the
others have in its place is a source, and they leave every register as it is. -/

namespace ToyMachine

def Instruction.destination? (i : Instruction) : Option (Fin 16) :=
  match i.opcode with
  | .add | .sub | .and | .xor | .shiftLeft | .shiftRight => some i.target
  | .loadAddress | .load | .loadIndirect | .call => some i.target
  | .halt | .store | .storeIndirect | .branchZero | .branchPositive | .jump => none

namespace Processor

variable {i : Instruction} {r : Fin 16}

theorem target_eq_of_destination (writes : i.destination? = some r) : i.target = r := by
  unfold Instruction.destination? at writes
  cases code : i.opcode <;> simp [code] at writes
  all_goals exact writes

theorem register_perform (cpu : Processor) (other : i.destination? ≠ some r) (v : Word) :
    (cpu.perform i v).register r = cpu.register r := by
  have kept := cpu.readSources_register i r
  unfold Instruction.destination? at other
  unfold perform
  cases code : i.opcode with
  | halt =>
    dsimp only
    split
    · exact (register_movePc _ _ _ r).trans kept
    · exact kept
  | store | storeIndirect => exact (register_markMemoryWritten _ _ r).trans kept
  | branchZero | branchPositive =>
    dsimp only
    split
    · exact (register_movePc _ _ _ r).trans kept
    · exact kept
  | jump => exact (register_movePc _ _ _ r).trans kept
  | call =>
    have distinct : i.target ≠ r := by simpa [code] using other
    rw [register_movePc, register_setRegister, if_neg distinct, kept]
  | _ =>
    have distinct : i.target ≠ r := by simpa [code] using other
    rw [register_setRegister, if_neg distinct]
    exact kept

theorem written_perform (cpu : Processor) (writes : i.destination? = some r) (other : r.val ≠ 0)
    (v : Word) : (cpu.perform i v).access.written = some r.val := by
  obtain rfl := target_eq_of_destination writes
  unfold Instruction.destination? at writes
  unfold perform
  cases code : i.opcode with
  | halt | store | storeIndirect | branchZero | branchPositive | jump => simp [code] at writes
  | call =>
    rw [access_movePc, access_setRegister]
    exact if_neg other
  | _ =>
    rw [access_setRegister]
    exact if_neg other

end Processor

end ToyMachine
