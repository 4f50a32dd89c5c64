import ToyMachine.Proofs.Action

/-! What one instruction does, in either outcome. Most instructions touch the processor
only. A load or a store also passes one word between a register and a cell, and where
that cell is the console the operator is asked or shown something, which is the only
way in which an instruction that came from a word can fail. `Effect` lists the outcomes
with everything that is known of each; later modules split cases on it and do not open
the definition of `execute` again. -/

namespace ToyMachine

inductive Transfer where
  | none
  | load (address : Address)
  | store (address : Address) (v : Word)
deriving DecidableEq

namespace Processor

def transfer (cpu : Processor) (i : Instruction) : Transfer :=
  match i.opcode with
  | .load => .load i.address
  | .store => .store i.address (cpu.register i.target)
  | .loadIndirect => .load (cpu.pointed i.third)
  | .storeIndirect => .store (cpu.pointed i.third) (cpu.register i.target)
  | _ => .none

theorem transfer_load {cpu : Processor} {i : Instruction} {address : Address}
    (h : cpu.transfer i = .load address) :
    i.opcode = .load ∧ i.address = address ∨
      i.opcode = .loadIndirect ∧ cpu.pointed i.third = address := by
  unfold transfer at h
  cases code : i.opcode <;> simp [code] at h
  · exact .inl ⟨rfl, h⟩
  · exact .inr ⟨rfl, h⟩

theorem transfer_store {cpu : Processor} {i : Instruction} {address : Address} {v : Word}
    (h : cpu.transfer i = .store address v) :
    i.opcode = .store ∧ i.address = address ∨
      i.opcode = .storeIndirect ∧ cpu.pointed i.third = address := by
  unfold transfer at h
  cases code : i.opcode <;> simp [code] at h
  · exact .inl ⟨rfl, h.1⟩
  · exact .inr ⟨rfl, h.1⟩

theorem register_of_transfer {cpu : Processor} {i : Instruction} {address : Address} {v : Word}
    (h : cpu.transfer i = .store address v) : cpu.register i.target = v := by
  unfold transfer at h
  cases code : i.opcode <;> simp [code] at h
  · exact h.2
  · exact h.2

def readSources (cpu : Processor) (i : Instruction) : Processor :=
  match i.opcode with
  | .add | .sub | .and | .xor | .shiftLeft | .shiftRight =>
    (cpu.markRegisterRead i.second.val false).markRegisterRead i.third.val true
  | .store | .branchZero | .branchPositive | .jump => cpu.markRegisterRead i.target.val false
  | .loadIndirect => cpu.markRegisterRead i.third.val false
  | .storeIndirect =>
    (cpu.markRegisterRead i.target.val false).markRegisterRead i.third.val true
  | .halt | .loadAddress | .load | .call => cpu

/-- The processor after an instruction that found `loaded` in the cell it loads from. -/
def perform (cpu : Processor) (i : Instruction) (loaded : Word) : Processor :=
  let ready := cpu.readSources i
  let a := cpu.register i.second
  let b := cpu.register i.third
  let v := cpu.register i.target
  match i.opcode with
  | .halt => if i.switchesWidth then ready.switchWidth else ready.halt
  | .add => ready.setRegister i.target (a + b)
  | .sub => ready.setRegister i.target (a - b)
  | .and => ready.setRegister i.target (a &&& b)
  | .xor => ready.setRegister i.target (a ^^^ b)
  | .shiftLeft => ready.setRegister i.target (a.shiftLeft b)
  | .shiftRight => ready.setRegister i.target (a.shiftRight b)
  | .loadAddress => ready.setRegister i.target (i.address.setWidth 32)
  | .load => (ready.markMemoryRead i.address).setRegister i.target loaded
  | .store => ready.markMemoryWritten i.address
  | .loadIndirect => (ready.markMemoryRead (cpu.pointed i.third)).setRegister i.target loaded
  | .storeIndirect => ready.markMemoryWritten (cpu.pointed i.third)
  | .branchZero => if v == 0 then ready.movePc i.address false else ready
  | .branchPositive => if 0 < v.toInt then ready.movePc i.address false else ready
  | .jump => ready.movePc (cpu.pointed i.target) false
  | .call => (ready.setRegister i.target cpu.link).movePc i.address false

theorem perform_load {cpu : Processor} {i : Instruction} {address : Address}
    (h : cpu.transfer i = .load address) (v : Word) :
    cpu.perform i v = ((cpu.readSources i).markMemoryRead address).setRegister i.target v := by
  rcases transfer_load h with ⟨code, rfl⟩ | ⟨code, rfl⟩
  · simp only [perform, code]
  · simp only [perform, code]

theorem perform_store {cpu : Processor} {i : Instruction} {address : Address} {v : Word}
    (h : cpu.transfer i = .store address v) :
    cpu.perform i 0 = (cpu.readSources i).markMemoryWritten address := by
  rcases transfer_store h with ⟨code, rfl⟩ | ⟨code, rfl⟩
  · simp only [perform, code]
  · simp only [perform, code]

@[simp] theorem readSources_width (cpu : Processor) (i : Instruction) :
    (cpu.readSources i).width = cpu.width := by
  unfold readSources
  cases i.opcode <;> rfl

@[simp] theorem readSources_pc (cpu : Processor) (i : Instruction) :
    (cpu.readSources i).pc = cpu.pc := by
  unfold readSources
  cases i.opcode <;> rfl

@[simp] theorem readSources_register (cpu : Processor) (i : Instruction) (r : Fin 16) :
    (cpu.readSources i).register r = cpu.register r := by
  unfold readSources
  cases i.opcode <;> rfl

end Processor

namespace Machine

open Console (Noted)

/-- The outcomes of an instruction, by the word that it passes and the cell it passes
it through. -/
inductive Effect (i : Instruction) (cpu : Processor) (memory : Memory) (console : Console) :
    EStateM.Result Fault Machine Unit → Prop where
  | register {console' : Console} (passes : cpu.transfer i = .none)
      (quiet : Noted console console') :
      Effect i cpu memory console (.ok () ⟨cpu.perform i 0, memory, console'⟩)
  | load {address : Address} {v : Word} {console' : Console}
      (passes : cpu.transfer i = .load address) (cell : address ≠ cpu.width.consoleAddress)
      (found : memory.read cpu.width address = .ok v) (quiet : Noted console console') :
      Effect i cpu memory console (.ok () ⟨cpu.perform i v, memory, console'⟩)
  | store {address : Address} {v : Word} {memory' : Memory} {console' : Console}
      (passes : cpu.transfer i = .store address v) (cell : address ≠ cpu.width.consoleAddress)
      (kept : memory.write cpu.width address v = .ok memory') (quiet : Noted console console') :
      Effect i cpu memory console (.ok () ⟨cpu.perform i 0, memory', console'⟩)
  | asked {v : Word} {answered printed console' : Console}
      (passes : cpu.transfer i = .load cpu.width.consoleAddress)
      (answer : Console.ask cpu.width console = .ok v answered)
      (newline : Console.print "\n" answered = .ok () printed) (quiet : Noted printed console') :
      Effect i cpu memory console
        (.ok () ⟨cpu.perform i v, memory.set cpu.width cpu.width.consoleCell v, console'⟩)
  | shown {v : Word} {printed console' : Console}
      (passes : cpu.transfer i = .store cpu.width.consoleAddress v)
      (echo : Console.print (echoText cpu.width (cpu.width.fit v)) console = .ok () printed)
      (quiet : Noted printed console') :
      Effect i cpu memory console
        (.ok () ⟨cpu.perform i 0, memory.set cpu.width cpu.width.consoleCell v, console'⟩)
  | unanswered {failure : Console.Failure} {console' : Console}
      (passes : cpu.transfer i = .load cpu.width.consoleAddress)
      (answer : Console.ask cpu.width console = .error failure console') :
      Effect i cpu memory console
        (.error ⟨.console failure, cpu.width, cpu.pc⟩ ⟨cpu.readSources i, memory, console'⟩)
  | cutShort {v : Word} {failure : Console.Failure} {answered console' : Console}
      (passes : cpu.transfer i = .load cpu.width.consoleAddress)
      (answer : Console.ask cpu.width console = .ok v answered)
      (newline : Console.print "\n" answered = .error failure console') :
      Effect i cpu memory console
        (.error ⟨.console failure, cpu.width, cpu.pc⟩
          ⟨cpu.readSources i, memory.set cpu.width cpu.width.consoleCell v, console'⟩)
  | unshown {v : Word} {failure : Console.Failure} {console' : Console}
      (passes : cpu.transfer i = .store cpu.width.consoleAddress v)
      (echo : Console.print (echoText cpu.width (cpu.width.fit v)) console
        = .error failure console') :
      Effect i cpu memory console
        (.error ⟨.console failure, cpu.width, cpu.pc⟩
          ⟨cpu.readSources i, memory.set cpu.width cpu.width.consoleCell v, console'⟩)

namespace Effect

variable {i : Instruction} {cpu : Processor} {memory : Memory} {console : Console} {m' : Machine}

theorem ok_cpu (h : Effect i cpu memory console (.ok () m')) :
    ∃ v, m'.cpu = cpu.perform i v := by
  cases h with
  | register | store | shown => exact ⟨0, rfl⟩
  | load | asked => exact ⟨_, rfl⟩

theorem of_silent {r : EStateM.Result Fault Machine Unit} (passes : cpu.transfer i = .none)
    (h : Effect i cpu memory console r) :
    ∃ console', Noted console console' ∧ r = .ok () ⟨cpu.perform i 0, memory, console'⟩ := by
  cases h with
  | register _ quiet => exact ⟨_, quiet, rfl⟩
  | load other | store other | asked other | shown other | unanswered other | cutShort other
  | unshown other => exact absurd (passes.symm.trans other) (by simp)

theorem error_cpu {f : Fault} (h : Effect i cpu memory console (.error f m')) :
    m'.cpu = cpu.readSources i := by
  cases h <;> rfl

end Effect

variable {i : Instruction} (cpu : Processor) (memory : Memory) (console : Console)

theorem effect_arithmetic {operation : Word → Word → Word} (decoded : i.Decoded)
    (passes : cpu.transfer i = .none)
    (result : cpu.perform i 0 =
      ((cpu.markRegisterRead i.second.val false).markRegisterRead i.third.val true).setRegister
        i.target (operation (cpu.register i.second) (cpu.register i.third))) :
    Effect i cpu memory console (arithmetic i operation ⟨cpu, memory, console⟩) := by
  rw [arithmetic_eq cpu memory console decoded, ← result]
  exact .register passes (Noted.single _ _)

theorem effect_branch {condition : Word → Bool} {notice : Nat → Bool → Notice}
    (decoded : i.Decoded) (passes : cpu.transfer i = .none)
    (result : cpu.perform i 0 =
      if condition (cpu.register i.target) then
        (cpu.markRegisterRead i.target.val false).movePc i.address false
      else cpu.markRegisterRead i.target.val false) :
    Effect i cpu memory console
      (branch i.d.toNat i.address condition notice ⟨cpu, memory, console⟩) := by
  rw [decoded.target_val, branch_eq, ← result]
  exact .register passes (Noted.single _ _)

theorem execute_of_load (decoded : i.Decoded) {address : Address}
    (passes : cpu.transfer i = .load address) :
    execute i ⟨cpu, memory, console⟩ =
      loadFrom i.d.toNat address ⟨cpu.readSources i, memory, console⟩ := by
  rcases Processor.transfer_load passes with ⟨code, rfl⟩ | ⟨code, rfl⟩
  · simp only [execute, code, Processor.readSources]
  · simp only [execute, code, Processor.readSources]
    rw [decoded.third_val, bind_of_ok (pointer_eq _ _ _ _ _)]

theorem execute_of_store (decoded : i.Decoded) {address : Address} {v : Word}
    (passes : cpu.transfer i = .store address v) :
    execute i ⟨cpu, memory, console⟩ =
      storeTo i.d.toNat address v ⟨cpu.readSources i, memory, console⟩ := by
  obtain rfl := Processor.register_of_transfer passes
  rcases Processor.transfer_store passes with ⟨code, rfl⟩ | ⟨code, rfl⟩
  · simp only [execute, code, Processor.readSources]
    rw [decoded.target_val, bind_of_ok (readRegister_eq _ _ _ _ _)]
  · simp only [execute, code, Processor.readSources]
    rw [decoded.target_val, decoded.third_val, bind_of_ok (readRegister_eq _ _ _ _ _),
      bind_of_ok (pointer_eq _ _ _ _ _)]
    rfl

theorem effect_loadFrom {address : Address} (decoded : i.Decoded)
    (bound : address.toNat < cpu.width.cells) (passes : cpu.transfer i = .load address)
    (result : ∀ v, cpu.perform i v =
      ((cpu.readSources i).markMemoryRead address).setRegister i.target v) :
    Effect i cpu memory console
      (loadFrom i.d.toNat address ⟨cpu.readSources i, memory, console⟩) := by
  have width := cpu.readSources_width i
  have pc := cpu.readSources_pc i
  rw [decoded.target_val, loadFrom]
  by_cases cell : address = cpu.width.consoleAddress
  · subst cell
    -- The word is in memory before the line feed, and stays there when that fails.
    cases answer : Console.ask cpu.width console with
    | error failure console' =>
      rw [bind_of_error (readMemory_unanswered memory console width answer), pc]
      exact .unanswered passes answer
    | ok v answered =>
      cases newline : Console.print "\n" answered with
      | error failure console' =>
        rw [bind_of_error (readMemory_cutShort memory console width answer newline), pc]
        exact .cutShort passes answer newline
      | ok u printed =>
        rw [bind_of_ok (readMemory_asked memory console width answer newline),
          bind_of_ok (writeRegister_eq _ _ _ _ _), ← result]
        exact .asked passes answer newline ((Noted.single _ _).trans (Noted.single _ _))
  · have found := memory.read_eq bound
    rw [bind_of_ok (readMemory_eq memory console width cell found),
      bind_of_ok (writeRegister_eq _ _ _ _ _), ← result]
    exact .load passes cell found (Noted.single _ _)

theorem effect_storeTo (d : Nat) {address : Address} {v : Word}
    (bound : address.toNat < cpu.width.cells) (passes : cpu.transfer i = .store address v)
    (result : cpu.perform i 0 = (cpu.readSources i).markMemoryWritten address) :
    Effect i cpu memory console
      (storeTo d address v ⟨cpu.readSources i, memory, console⟩) := by
  have width := cpu.readSources_width i
  have pc := cpu.readSources_pc i
  rw [storeTo]
  by_cases cell : address = cpu.width.consoleAddress
  · subst cell
    -- The word is in memory before its echo, and stays there when that fails.
    have unmarked : cpu.perform i 0 = cpu.readSources i := by
      rw [result, Processor.markMemoryWritten, if_pos (by rw [width])]
    have ran := writeMemory_console memory console width v
    cases echo : Console.print (echoText cpu.width (cpu.width.fit v)) console with
    | error failure console' =>
      rw [faulting_error (onConsole_error _ _ echo), width, pc] at ran
      rw [bind_of_error ran]
      exact .unshown passes echo
    | ok u printed =>
      rw [faulting_ok (onConsole_ok _ _ echo)] at ran
      rw [bind_of_ok ran, ← unmarked]
      exact .shown passes echo (Noted.single _ _)
  · rw [bind_of_ok (writeMemory_eq memory console width bound v cell), ← result]
    exact .store passes cell (memory.write_eq bound v) (Noted.single _ _)

theorem effect_execute (decoded : i.Decoded) :
    Effect i cpu memory console (execute i ⟨cpu, memory, console⟩) := by
  have pointed : (cpu.pointed i.third).toNat < cpu.width.cells := Width.wrap_lt _ _
  have named := decoded.address_lt cpu.width
  cases code : i.opcode with
  | halt =>
    have passes : cpu.transfer i = .none := by simp only [Processor.transfer, code]
    have result : cpu.perform i 0 = if i.switchesWidth then cpu.switchWidth else cpu.halt := by
      simp only [Processor.perform, Processor.readSources, code]
    simp only [execute, code]
    split
    · next switches =>
      rw [if_pos switches] at result
      rw [switchWidth, bind_of_ok (cpuHas_eq _ _), bind_of_ok (cpuHas_eq _ _),
        bind_of_ok (onCpu_eq _ _ _ _), ← result]
      exact .register passes (Noted.single _ _)
    · next stops =>
      rw [if_neg stops] at result
      rw [stop, bind_of_ok (onCpu_eq _ _ _ _), bind_of_ok (cpuHas_eq _ _), ← result]
      exact .register passes (Noted.single _ _)
  | add | sub | and | xor | shiftLeft | shiftRight =>
    simp only [execute, code]
    exact effect_arithmetic cpu memory console decoded (by simp only [Processor.transfer, code])
      (by simp only [Processor.perform, Processor.readSources, code])
  | loadAddress =>
    have passes : cpu.transfer i = .none := by simp only [Processor.transfer, code]
    have result : cpu.perform i 0 = cpu.setRegister i.target (i.address.setWidth 32) := by
      simp only [Processor.perform, Processor.readSources, code]
    simp only [execute, code]
    rw [decoded.target_val, bind_of_ok (writeRegister_eq _ _ _ _ _), ← result]
    exact .register passes (Noted.single _ _)
  | load =>
    have passes : cpu.transfer i = .load i.address := by simp only [Processor.transfer, code]
    rw [execute_of_load cpu memory console decoded passes]
    exact effect_loadFrom cpu memory console decoded named passes (Processor.perform_load passes)
  | store =>
    have passes : cpu.transfer i = .store i.address (cpu.register i.target) := by
      simp only [Processor.transfer, code]
    rw [execute_of_store cpu memory console decoded passes]
    exact effect_storeTo cpu memory console _ named passes (Processor.perform_store passes)
  | loadIndirect =>
    have passes : cpu.transfer i = .load (cpu.pointed i.third) := by
      simp only [Processor.transfer, code]
    rw [execute_of_load cpu memory console decoded passes]
    exact effect_loadFrom cpu memory console decoded pointed passes (Processor.perform_load passes)
  | storeIndirect =>
    have passes : cpu.transfer i = .store (cpu.pointed i.third) (cpu.register i.target) := by
      simp only [Processor.transfer, code]
    rw [execute_of_store cpu memory console decoded passes]
    exact effect_storeTo cpu memory console _ pointed passes (Processor.perform_store passes)
  | branchZero | branchPositive =>
    simp only [execute, code]
    exact effect_branch cpu memory console decoded (by simp only [Processor.transfer, code])
      (by simp only [Processor.perform, Processor.readSources, code, decide_eq_true_eq])
  | jump =>
    have passes : cpu.transfer i = .none := by simp only [Processor.transfer, code]
    have result : cpu.perform i 0 =
        (cpu.markRegisterRead i.target.val false).movePc (cpu.pointed i.target) false := by
      simp only [Processor.perform, Processor.readSources, code]
    simp only [execute, code]
    rw [decoded.target_val, bind_of_ok (pointer_eq _ _ _ _ _), onCpu_eq, ← result]
    exact .register passes .refl
  | call =>
    have passes : cpu.transfer i = .none := by simp only [Processor.transfer, code]
    have result : cpu.perform i 0 =
        (cpu.setRegister i.target cpu.link).movePc i.address false := by
      simp only [Processor.perform, Processor.readSources, code]
    simp only [execute, code]
    rw [decoded.target_val, bind_of_ok (cpuHas_eq _ _), bind_of_ok (writeRegister_eq _ _ _ _ _),
      onCpu_eq, ← result]
    exact .register passes .refl

end Machine

end ToyMachine
