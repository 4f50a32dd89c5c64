import ToyMachine.Machine.Processor

/-!
The machine: a processor, a memory and a console, and what is done with them. An
action that fails keeps what it did before it failed. A fault is always stamped
with the width and the program counter of the processor as it stands.
-/

namespace ToyMachine

structure Machine where
  cpu : Processor
  memory : Memory
  console : Console

namespace Machine

abbrev Action (ε : Type) := EStateM ε Machine

variable {ε α : Type}

def onCpu (f : Processor → Processor) : Action ε Unit
  | ⟨cpu, memory, console⟩ => .ok () ⟨f cpu, memory, console⟩

def onMemory (f : Memory → Memory) : Action ε Unit
  | ⟨cpu, memory, console⟩ => .ok () ⟨cpu, f memory, console⟩

def onConsole (act : Console.Action α) : Action Console.Failure α
  | ⟨cpu, memory, console⟩ =>
    match act console with
    | .ok a console => .ok a ⟨cpu, memory, console⟩
    | .error e console => .error e ⟨cpu, memory, console⟩

def note (n : Notice) : Action ε Unit
  | ⟨cpu, memory, console⟩ => .ok () ⟨cpu, memory, console.emit (.noted n)⟩

def fail (cause : Fault.Cause) : Action Fault α := fun m =>
  .error ⟨cause, m.cpu.width, m.cpu.pc⟩ m

def faulting (act : Action Console.Failure α) : Action Fault α := fun m =>
  match act m with
  | .ok a m => .ok a m
  | .error e m => .error ⟨.console e, m.cpu.width, m.cpu.pc⟩ m

def cpuHas (f : Processor → α) : Action ε α := fun m =>
  .ok (f m.cpu) m

/-- Fills the console cell from the operator before it is read; any other cell is left
as it is. -/
def beforeRead (w : Width) (address : Address) : Action Console.Failure Unit :=
  if address = w.consoleAddress then do
    let v ← onConsole (Console.ask w)
    onMemory (·.set w w.consoleCell v)
    onConsole (Console.print "\n")
    note (.received w v)
  else pure ()

def echoText (w : Width) (v : Word) : String :=
  "output: " ++ w.hex v ++ "(" ++ toString v.toInt ++ ")\n\n"

def afterWrite (w : Width) (address : Address) : Action Console.Failure Unit := fun m =>
  if address = w.consoleAddress then
    onConsole (Console.print (echoText w (m.memory.get w w.consoleCell))) m
  else .ok () m

def fetch (w : Width) (address : Address) : Action Fault Word := fun m =>
  match m.memory.read w address with
  | .ok v => .ok v m
  | .error e => fail (.noSuchCell e.address) m

def store (w : Width) (address : Address) (v : Word) : Action Fault Unit :=
  match w.cell? address.toNat with
  | .ok cell => onMemory (·.set w cell v)
  | .error e => fail (.noSuchCell e.address)

def readRegister (index : Nat) (second : Bool) : Action Fault Word :=
  if h : index < 16 then do
    onCpu (·.markRegisterRead index second)
    cpuHas (·.registers[index])
  else fail (.invalidRegister index)

def writeRegister (index : Nat) (v : Word) : Action Fault Unit :=
  if h : index < 16 then onCpu (·.setRegister ⟨index, h⟩ v)
  else fail (.invalidRegister index)

/-- Reads a cell for an instruction; the console is filled first. -/
def readMemory (address : Address) : Action Fault Word := do
  let w ← cpuHas (·.width)
  faulting (beforeRead w address)
  let v ← fetch w address
  onCpu (·.markMemoryRead address)
  pure v

/-- Writes a cell for an instruction; the console is shown afterwards. -/
def writeMemory (address : Address) (v : Word) : Action Fault Unit := do
  let w ← cpuHas (·.width)
  store w address v
  onCpu (·.markMemoryWritten address)
  faulting (afterWrite w address)

end Machine

end ToyMachine
