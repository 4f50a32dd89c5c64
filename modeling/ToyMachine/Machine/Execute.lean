import ToyMachine.Machine.Basic

/-!
What each instruction does, and the cycle around it: fetch the word at the program
counter, decode it, carry it out, go on. Arithmetic works on whole words; a result
is cut to the width when it reaches its register. Shifts use the low five bits of
their count in either width.
-/

namespace ToyMachine

def shiftCount (v : Word) : Nat :=
  v.toNat % 32

def Word.shiftLeft (a b : Word) : Word :=
  a <<< shiftCount b

/-- The sign fills the bits that become free. -/
def Word.shiftRight (a b : Word) : Word :=
  a.sshiftRight (shiftCount b)

namespace Machine

def arithmetic (i : Instruction) (operation : Word → Word → Word) : Action Fault Unit := do
  let a ← readRegister i.s.toNat false
  let b ← readRegister i.t.toNat true
  writeRegister i.d.toNat (operation a b)
  let w ← cpuHas (·.width)
  note (.computed a b (w.fit (operation a b)))

def pointer (index : Nat) (second : Bool) : Action Fault Address := do
  let v ← readRegister index second
  let w ← cpuHas (·.width)
  pure (w.wrap v)

def loadFrom (d : Nat) (address : Address) : Action Fault Unit := do
  let v ← readMemory address
  writeRegister d v
  note (.cellRead d address v)

def storeTo (d : Nat) (address : Address) (v : Word) : Action Fault Unit := do
  writeMemory address v
  note (.cellWritten address d v)

def branch (d : Nat) (address : Address) (condition : Word → Bool)
    (notice : Nat → Bool → Notice) : Action Fault Unit := do
  let v ← readRegister d false
  if condition v then onCpu (·.movePc address false)
  note (notice d (condition v))

def switchWidth : Action Fault Unit := do
  let w ← cpuHas (·.width.other)
  let pc ← cpuHas (·.switchTarget)
  onCpu (·.switchWidth)
  note (.switched w pc)

def stop : Action Fault Unit := do
  onCpu (·.halt)
  let pc ← cpuHas (·.pc)
  note (.halted pc)

def execute (i : Instruction) : Action Fault Unit :=
  let d := i.d.toNat
  let t := i.t.toNat
  match i.opcode with
  | .halt => if i.switchesWidth then switchWidth else stop
  | .add => arithmetic i (· + ·)
  | .sub => arithmetic i (· - ·)
  | .and => arithmetic i (· &&& ·)
  | .xor => arithmetic i (· ^^^ ·)
  | .shiftLeft => arithmetic i Word.shiftLeft
  | .shiftRight => arithmetic i Word.shiftRight
  | .loadAddress => do
    writeRegister d (i.address.setWidth 32)
    note (.addressTaken d i.address)
  | .load => loadFrom d i.address
  | .store => do
    let v ← readRegister d false
    storeTo d i.address v
  | .loadIndirect => do
    let address ← pointer t false
    loadFrom d address
  | .storeIndirect => do
    let v ← readRegister d false
    let address ← pointer t true
    storeTo d address v
  | .branchZero => branch d i.address (· == 0) .zeroTested
  | .branchPositive => branch d i.address (0 < ·.toInt) .positiveTested
  | .jump => do
    let address ← pointer d false
    onCpu (·.movePc address false)
  | .call => do
    let link ← cpuHas (·.link)
    writeRegister d link
    onCpu (·.movePc i.address false)

def fetchInstruction : Action Fault Instruction := do
  let w ← cpuHas (·.width)
  let pc ← cpuHas (·.pc)
  let v ← fetch w pc
  match Instruction.decode w (w.pattern v) with
  | .ok i =>
    note (.fetched w pc i)
    pure i
  | .error code => fail (.invalidOpcode code (w.pattern v))

/-- One cycle. A halted machine does nothing. -/
def step : Action Fault Unit := do
  if ← cpuHas (·.halted) then pure ()
  else
    onCpu (·.beginCycle)
    let i ← fetchInstruction
    execute i
    onCpu (·.endCycle)

end Machine

end ToyMachine
