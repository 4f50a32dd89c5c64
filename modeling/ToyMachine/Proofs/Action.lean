import ToyMachine.Proofs.Memory
import ToyMachine.Proofs.Operand
import ToyMachine.Proofs.Update
import ToyMachine.Proofs.Console.Asking
import ToyMachine.Machine.Execute

/-! The actions of which instructions are made, on a machine that is given by its parts.
Each equation says how one action ends where its operands are in range, so that an
instruction can be followed action by action with `bind_of_ok` and `bind_of_error`. A
read or a write has one equation for an ordinary cell and one for each way in which the
console can end it. -/

namespace ToyMachine

def Processor.pointed (cpu : Processor) (r : Fin 16) : Address :=
  cpu.width.wrap (cpu.register r)

namespace Machine

variable {ε α β : Type}

theorem bind_of_ok {act : Action ε α} {next : α → Action ε β} {m m' : Machine} {a : α}
    (h : act m = .ok a m') : (act >>= next) m = next a m' := by
  simp only [bind, EStateM.bind, h]

theorem bind_of_error {act : Action ε α} {next : α → Action ε β} {m m' : Machine} {e : ε}
    (h : act m = .error e m') : (act >>= next) m = .error e m' := by
  simp only [bind, EStateM.bind, h]

theorem bind_error {act : Action ε α} {next : α → Action ε β} {m m' : Machine} {e : ε}
    (h : (act >>= next) m = .error e m') :
    act m = .error e m' ∨ ∃ a m₁, act m = .ok a m₁ ∧ next a m₁ = .error e m' := by
  cases first : act m with
  | ok a m₁ =>
    rw [bind_of_ok first] at h
    exact .inr ⟨a, m₁, rfl, h⟩
  | error e' m₁ =>
    rw [bind_of_error first] at h
    simp only [EStateM.Result.error.injEq] at h
    obtain ⟨rfl, rfl⟩ := h
    exact .inl rfl

theorem bind_ok {act : Action ε α} {next : α → Action ε β} {m m' : Machine} {b : β}
    (h : (act >>= next) m = .ok b m') : ∃ a m₁, act m = .ok a m₁ ∧ next a m₁ = .ok b m' := by
  cases first : act m with
  | ok a m₁ =>
    rw [bind_of_ok first] at h
    exact ⟨a, m₁, rfl, h⟩
  | error e m₁ =>
    rw [bind_of_error first] at h
    exact absurd h (by simp)

theorem cpuHas_eq (f : Processor → α) (m : Machine) :
    (cpuHas f : Action ε α) m = .ok (f m.cpu) m := rfl

section Actions

variable (cpu : Processor) (memory : Memory) (console : Console)

theorem onCpu_eq (f : Processor → Processor) :
    (onCpu f : Action ε Unit) ⟨cpu, memory, console⟩ = .ok () ⟨f cpu, memory, console⟩ := rfl

theorem onMemory_eq (f : Memory → Memory) :
    (onMemory f : Action ε Unit) ⟨cpu, memory, console⟩ = .ok () ⟨cpu, f memory, console⟩ := rfl

theorem onConsole_ok {console : Console} {act : Console.Action α} {a : α} {console' : Console}
    (h : act console = .ok a console') :
    onConsole act ⟨cpu, memory, console⟩ = .ok a ⟨cpu, memory, console'⟩ := by
  simp only [onConsole, h]

theorem onConsole_error {console : Console} {act : Console.Action α}
    {failure : Console.Failure} {console' : Console}
    (h : act console = .error failure console') :
    onConsole act ⟨cpu, memory, console⟩ = .error failure ⟨cpu, memory, console'⟩ := by
  simp only [onConsole, h]

theorem faulting_ok {act : Action Console.Failure α} {m m' : Machine} {a : α}
    (h : act m = .ok a m') : faulting act m = .ok a m' := by
  simp only [faulting, h]

theorem faulting_error {act : Action Console.Failure α} {m m' : Machine}
    {failure : Console.Failure} (h : act m = .error failure m') :
    faulting act m = .error ⟨.console failure, m'.cpu.width, m'.cpu.pc⟩ m' := by
  simp only [faulting, h]

theorem readRegister_eq (r : Fin 16) (second : Bool) :
    readRegister r.val second ⟨cpu, memory, console⟩ =
      .ok (cpu.register r) ⟨cpu.markRegisterRead r.val second, memory, console⟩ := by
  rw [readRegister, dif_pos r.isLt]
  cases second <;> rfl

theorem writeRegister_eq (r : Fin 16) (v : Word) :
    writeRegister r.val v ⟨cpu, memory, console⟩ =
      .ok () ⟨cpu.setRegister r v, memory, console⟩ := by
  rw [writeRegister, dif_pos r.isLt]
  rfl

variable {cpu} {w : Width}

theorem fetch_eq {address : Address} {v : Word} (h : memory.read w address = .ok v) :
    fetch w address ⟨cpu, memory, console⟩ = .ok v ⟨cpu, memory, console⟩ := by
  simp only [fetch, h]

theorem readMemory_eq (width : cpu.width = w) {address : Address} {v : Word}
    (cell : address ≠ w.consoleAddress) (found : memory.read w address = .ok v) :
    readMemory address ⟨cpu, memory, console⟩ =
      .ok v ⟨cpu.markMemoryRead address, memory, console⟩ := by
  have skipped : beforeRead w address ⟨cpu, memory, console⟩ = .ok () ⟨cpu, memory, console⟩ := by
    rw [beforeRead, if_neg cell]
    rfl
  rw [readMemory, bind_of_ok (cpuHas_eq _ _), width, bind_of_ok (faulting_ok skipped),
    bind_of_ok (fetch_eq _ _ found)]
  rfl

theorem readMemory_asked (width : cpu.width = w) {v : Word} {answered printed : Console}
    (answer : Console.ask w console = .ok v answered)
    (newline : Console.print "\n" answered = .ok () printed) :
    readMemory w.consoleAddress ⟨cpu, memory, console⟩ =
      .ok v ⟨cpu.markMemoryRead w.consoleAddress, memory.set w w.consoleCell v,
        printed.emit (.noted (.received w v))⟩ := by
  have filled : beforeRead w w.consoleAddress ⟨cpu, memory, console⟩ =
      .ok () ⟨cpu, memory.set w w.consoleCell v, printed.emit (.noted (.received w v))⟩ := by
    rw [beforeRead, if_pos rfl, bind_of_ok (onConsole_ok cpu memory answer),
      bind_of_ok (onMemory_eq _ _ _ _), bind_of_ok (onConsole_ok _ _ newline)]
    rfl
  have found : (memory.set w w.consoleCell v).read w w.consoleAddress = .ok v := by
    rw [Memory.read_console, Memory.get_set_self, Console.fit_of_ask answer]
  rw [readMemory, bind_of_ok (cpuHas_eq _ _), width, bind_of_ok (faulting_ok filled),
    bind_of_ok (fetch_eq _ _ found)]
  rfl

theorem readMemory_unanswered (width : cpu.width = w) {failure : Console.Failure}
    {console' : Console} (answer : Console.ask w console = .error failure console') :
    readMemory w.consoleAddress ⟨cpu, memory, console⟩ =
      .error ⟨.console failure, w, cpu.pc⟩ ⟨cpu, memory, console'⟩ := by
  have failed : beforeRead w w.consoleAddress ⟨cpu, memory, console⟩ =
      .error failure ⟨cpu, memory, console'⟩ := by
    rw [beforeRead, if_pos rfl, bind_of_error (onConsole_error cpu memory answer)]
  rw [readMemory, bind_of_ok (cpuHas_eq _ _), width, bind_of_error (faulting_error failed), width]

theorem readMemory_cutShort (width : cpu.width = w) {v : Word} {failure : Console.Failure}
    {answered console' : Console} (answer : Console.ask w console = .ok v answered)
    (newline : Console.print "\n" answered = .error failure console') :
    readMemory w.consoleAddress ⟨cpu, memory, console⟩ =
      .error ⟨.console failure, w, cpu.pc⟩ ⟨cpu, memory.set w w.consoleCell v, console'⟩ := by
  have failed : beforeRead w w.consoleAddress ⟨cpu, memory, console⟩ =
      .error failure ⟨cpu, memory.set w w.consoleCell v, console'⟩ := by
    rw [beforeRead, if_pos rfl, bind_of_ok (onConsole_ok cpu memory answer),
      bind_of_ok (onMemory_eq _ _ _ _), bind_of_error (onConsole_error _ _ newline)]
  rw [readMemory, bind_of_ok (cpuHas_eq _ _), width, bind_of_error (faulting_error failed), width]

theorem readMemory_missing (width : cpu.width = w) {address : Address}
    (beyond : ¬ address.toNat < w.cells) :
    readMemory address ⟨cpu, memory, console⟩ =
      .error ⟨.noSuchCell address.toNat, w, cpu.pc⟩ ⟨cpu, memory, console⟩ := by
  have cell : address ≠ w.consoleAddress := by
    rintro rfl
    exact beyond w.consoleAddress_lt
  have skipped : beforeRead w address ⟨cpu, memory, console⟩ = .ok () ⟨cpu, memory, console⟩ := by
    rw [beforeRead, if_neg cell]
    rfl
  have missing : fetch w address ⟨cpu, memory, console⟩ =
      .error ⟨.noSuchCell address.toNat, w, cpu.pc⟩ ⟨cpu, memory, console⟩ := by
    simp only [fetch, Memory.read, Width.cell?, dif_neg beyond, Except.map, fail, width]
  rw [readMemory, bind_of_ok (cpuHas_eq _ _), width, bind_of_ok (faulting_ok skipped),
    bind_of_error missing]

theorem store_eq {address : Address} (bound : address.toNat < w.cells) (v : Word) :
    store w address v ⟨cpu, memory, console⟩ =
      .ok () ⟨cpu, memory.set w ⟨address.toNat, bound⟩ v, console⟩ := by
  rw [store, Width.cell?_eq bound]
  rfl

theorem writeMemory_eq (width : cpu.width = w) {address : Address}
    (bound : address.toNat < w.cells) (v : Word) (cell : address ≠ w.consoleAddress) :
    writeMemory address v ⟨cpu, memory, console⟩ =
      .ok () ⟨cpu.markMemoryWritten address, memory.set w ⟨address.toNat, bound⟩ v, console⟩ := by
  have skipped (m : Machine) : afterWrite w address m = .ok () m := by
    rw [afterWrite, if_neg cell]
  rw [writeMemory, bind_of_ok (cpuHas_eq _ _), width, bind_of_ok (store_eq _ _ bound v),
    bind_of_ok (onCpu_eq _ _ _ _), faulting_ok (skipped _)]

theorem writeMemory_missing (width : cpu.width = w) {address : Address}
    (beyond : ¬ address.toNat < w.cells) (v : Word) :
    writeMemory address v ⟨cpu, memory, console⟩ =
      .error ⟨.noSuchCell address.toNat, w, cpu.pc⟩ ⟨cpu, memory, console⟩ := by
  have missing : store w address v ⟨cpu, memory, console⟩ =
      .error ⟨.noSuchCell address.toNat, w, cpu.pc⟩ ⟨cpu, memory, console⟩ := by
    simp only [store, Width.cell?, dif_neg beyond, fail, width]
  rw [writeMemory, bind_of_ok (cpuHas_eq _ _), width, bind_of_error missing]

theorem writeMemory_console (width : cpu.width = w) (v : Word) :
    writeMemory w.consoleAddress v ⟨cpu, memory, console⟩ =
      faulting (onConsole (Console.print (echoText w (w.fit v))))
        ⟨cpu, memory.set w w.consoleCell v, console⟩ := by
  have unmarked : cpu.markMemoryWritten w.consoleAddress = cpu := by
    rw [Processor.markMemoryWritten, if_pos (by rw [width])]
  rw [writeMemory, bind_of_ok (cpuHas_eq _ _), width,
    bind_of_ok (store_eq _ _ w.consoleAddress_lt v), bind_of_ok (onCpu_eq _ _ _ _), unmarked]
  simp only [faulting, afterWrite, if_pos, Width.consoleCell, Memory.get_set_self]

variable (cpu)

theorem arithmetic_eq {i : Instruction} (decoded : i.Decoded) (operation : Word → Word → Word) :
    let a := cpu.register i.second
    let b := cpu.register i.third
    let marked := (cpu.markRegisterRead i.second.val false).markRegisterRead i.third.val true
    arithmetic i operation ⟨cpu, memory, console⟩ =
      .ok () ⟨marked.setRegister i.target (operation a b), memory,
        console.emit (.noted (.computed a b (cpu.width.fit (operation a b))))⟩ := by
  intro a b marked
  rw [arithmetic, decoded.second_val, decoded.third_val, decoded.target_val,
    bind_of_ok (readRegister_eq _ _ _ _ _), bind_of_ok (readRegister_eq _ _ _ _ _),
    bind_of_ok (writeRegister_eq _ _ _ _ _)]
  rfl

theorem pointer_eq (r : Fin 16) (second : Bool) :
    pointer r.val second ⟨cpu, memory, console⟩ =
      .ok (cpu.pointed r) ⟨cpu.markRegisterRead r.val second, memory, console⟩ := by
  rw [pointer, bind_of_ok (readRegister_eq _ _ _ _ _)]
  cases second <;> rfl

theorem branch_eq (r : Fin 16) (address : Address) (condition : Word → Bool)
    (notice : Nat → Bool → Notice) :
    let marked := cpu.markRegisterRead r.val false
    let holds := condition (cpu.register r)
    branch r.val address condition notice ⟨cpu, memory, console⟩ =
      .ok () ⟨if holds then marked.movePc address false else marked, memory,
        console.emit (.noted (notice r.val holds))⟩ := by
  intro marked holds
  rw [branch, bind_of_ok (readRegister_eq _ _ _ _ _)]
  cases taken : condition (cpu.register r) with
  | false =>
    simp only [holds, taken, Bool.false_eq_true, if_false]
    rfl
  | true =>
    simp only [holds, taken, if_true]
    rfl

end Actions

end Machine

end ToyMachine
