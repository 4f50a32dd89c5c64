import ToyMachine.Machine.Execute
import ToyMachine.Proofs.Update

/-! Instructions by what they are made of. A property of actions that is kept when one action
follows another holds of every instruction as soon as it holds of the parts: of looking at the
processor, changing it, reporting, failing, and reading and writing a cell. An instruction is
followed once, for any such property. Only a halt changes the width, and only the others reach
memory. -/

namespace ToyMachine

namespace Machine

/-- The property is kept by sequences and holds of what only looks at the processor, reports
or fails. -/
structure Composes (P : (α : Type) → Action Fault α → Prop) : Prop where
  pure : ∀ {α : Type} (a : α), P α (pure a)
  bind : ∀ {α β : Type} {act : Action Fault α} {next : α → Action Fault β},
    P α act → (∀ a, P β (next a)) → P β (act >>= next)
  cpuHas : ∀ {α : Type} (f : Processor → α), P α (cpuHas f)
  fail : ∀ {α : Type} (cause : Fault.Cause), P α (fail cause)
  note : ∀ n, P Unit (note n)

structure ComposesHalts (P : (α : Type) → Action Fault α → Prop) : Prop extends Composes P where
  update : ∀ f : Processor → Processor, P Unit (onCpu f)

structure ComposesOthers (P : (α : Type) → Action Fault α → Prop) : Prop
    extends Composes P where
  update : ∀ f : Processor → Processor, (∀ cpu, (f cpu).width = cpu.width) → P Unit (onCpu f)
  readMemory : ∀ address, P Word (readMemory address)
  writeMemory : ∀ address v, P Unit (writeMemory address v)

variable {P : (α : Type) → Action Fault α → Prop}

namespace ComposesHalts

variable (composes : ComposesHalts P)

include composes

theorem switchWidth : P Unit switchWidth := by
  refine composes.bind (composes.cpuHas _) fun w => ?_
  refine composes.bind (composes.cpuHas _) fun pc => ?_
  exact composes.bind (composes.update _) fun _ => composes.note _

theorem stop : P Unit stop := by
  refine composes.bind (composes.update _) fun _ => ?_
  exact composes.bind (composes.cpuHas _) fun pc => composes.note _

theorem execute {i : Instruction} (code : i.opcode = .halt) : P Unit (execute i) := by
  rw [Machine.execute, code]
  dsimp only
  split
  · exact composes.switchWidth
  · exact composes.stop

end ComposesHalts

namespace ComposesOthers

variable (composes : ComposesOthers P)

include composes

theorem readRegister (index : Nat) (second : Bool) : P Word (readRegister index second) := by
  rw [Machine.readRegister]
  split
  · have kept (cpu : Processor) : (cpu.markRegisterRead index second).width = cpu.width := by
      cases second <;> rfl
    exact composes.bind (composes.update _ kept) fun _ => composes.cpuHas _
  · exact composes.fail _

theorem writeRegister (index : Nat) (v : Word) : P Unit (writeRegister index v) := by
  rw [Machine.writeRegister]
  split
  · exact composes.update _ fun cpu => cpu.width_setRegister _ _
  · exact composes.fail _

theorem movePc (address : Address) : P Unit (onCpu (·.movePc address false)) :=
  composes.update _ fun cpu => cpu.width_movePc _ _

theorem arithmetic (i : Instruction) (operation : Word → Word → Word) :
    P Unit (arithmetic i operation) := by
  refine composes.bind (composes.readRegister _ _) fun a => ?_
  refine composes.bind (composes.readRegister _ _) fun b => ?_
  refine composes.bind (composes.writeRegister _ _) fun _ => ?_
  exact composes.bind (composes.cpuHas _) fun w => composes.note _

theorem pointer (index : Nat) (second : Bool) : P Address (pointer index second) := by
  refine composes.bind (composes.readRegister _ _) fun v => ?_
  exact composes.bind (composes.cpuHas _) fun w => composes.pure _

theorem loadFrom (d : Nat) (address : Address) : P Unit (loadFrom d address) := by
  refine composes.bind (composes.readMemory address) fun v => ?_
  exact composes.bind (composes.writeRegister d v) fun _ => composes.note _

theorem storeTo (d : Nat) (address : Address) (v : Word) : P Unit (storeTo d address v) :=
  composes.bind (composes.writeMemory address v) fun _ => composes.note _

theorem branch (d : Nat) (address : Address) (condition : Word → Bool)
    (notice : Nat → Bool → Notice) : P Unit (branch d address condition notice) := by
  refine composes.bind (composes.readRegister _ _) fun v => ?_
  cases condition v with
  | true => exact composes.bind (composes.movePc _) fun _ => composes.note _
  | false => exact composes.bind (composes.pure _) fun _ => composes.note _

theorem execute {i : Instruction} (other : i.opcode ≠ .halt) : P Unit (execute i) := by
  rw [Machine.execute]
  cases code : i.opcode with
  | halt => exact absurd code other
  | add | sub | and | xor | shiftLeft | shiftRight => exact composes.arithmetic i _
  | loadAddress => exact composes.bind (composes.writeRegister _ _) fun _ => composes.note _
  | load => exact composes.loadFrom _ _
  | store => exact composes.bind (composes.readRegister _ _) fun v => composes.storeTo _ _ v
  | loadIndirect =>
    exact composes.bind (composes.pointer _ _) fun address => composes.loadFrom _ address
  | storeIndirect =>
    refine composes.bind (composes.readRegister _ _) fun v => ?_
    exact composes.bind (composes.pointer _ _) fun address => composes.storeTo _ address v
  | branchZero | branchPositive => exact composes.branch _ _ _ _
  | jump => exact composes.bind (composes.pointer _ _) fun address => composes.movePc address
  | call =>
    refine composes.bind (composes.cpuHas _) fun link => ?_
    exact composes.bind (composes.writeRegister _ _) fun _ => composes.movePc _

end ComposesOthers

end Machine

end ToyMachine
