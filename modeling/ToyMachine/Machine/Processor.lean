import ToyMachine.Console.Basic

/-!
The processor: a width, a program counter, sixteen registers, and marks that say
what the current cycle has touched. The marks are for display only. A register or
an address in a mark may be any number, because a processor can be put into any
state from outside; the ones that a cycle sets are in range.
-/

namespace ToyMachine

/-- Registers and cells that the current cycle has touched. -/
structure Access where
  firstRead : Option Nat := none
  secondRead : Option Nat := none
  /-- The target register, which is never register 0. -/
  written : Option Nat := none
  memoryRead : Option Address := none
  /-- The cell stored to, which is never the console. -/
  memoryWritten : Option Address := none
deriving DecidableEq, Repr

structure Processor where
  width : Width := .narrow
  pc : Address
  /-- The program counter before it was last moved. -/
  oldPc : Address
  /-- The current instruction has moved the program counter itself. -/
  pcModified : Bool := false
  halted : Bool := false
  registers : Vector Word 16 := Vector.replicate 16 0
  access : Access := {}
deriving DecidableEq

namespace Processor

def defaultEntry : Address := 0x10

def startingAt (entry : Address) : Processor where
  pc := entry
  oldPc := entry

/-- Moves the program counter. At the end of a cycle it stays where the instruction
has put it, and a halted processor does not move it at all. -/
def movePc (cpu : Processor) (target : Address) (endOfCycle : Bool) : Processor :=
  if cpu.halted || (cpu.pcModified && endOfCycle) then cpu
  else
    { cpu with
      oldPc := cpu.pc
      pc := target
      pcModified := cpu.pcModified || !endOfCycle }

def link (cpu : Processor) : Word :=
  cpu.pc.setWidth 32 + 1

def markRegisterRead (cpu : Processor) (index : Nat) (second : Bool) : Processor :=
  if second then { cpu with access := { cpu.access with secondRead := some index } }
  else { cpu with access := { cpu.access with firstRead := some index } }

/-- Register 0 takes values too, but no mark. -/
def setRegister (cpu : Processor) (index : Fin 16) (v : Word) : Processor :=
  { cpu with
    registers := cpu.registers.set index (cpu.width.fit v)
    access :=
      if index.val = 0 then cpu.access else { cpu.access with written := some index.val } }

def markMemoryRead (cpu : Processor) (address : Address) : Processor :=
  { cpu with access := { cpu.access with memoryRead := some address } }

/-- The console shows what is written to it, so it takes no mark. -/
def markMemoryWritten (cpu : Processor) (address : Address) : Processor :=
  if address = cpu.width.consoleAddress then cpu
  else { cpu with access := { cpu.access with memoryWritten := some address } }

def switchTarget (cpu : Processor) : Address :=
  cpu.width.other.wrap (cpu.pc.setWidth 32)

/-- Changes the width. The program counter keeps its number and so names another cell. -/
def switchWidth (cpu : Processor) : Processor :=
  { cpu with width := cpu.width.other }.movePc cpu.switchTarget false

def halt (cpu : Processor) : Processor :=
  { cpu with halted := true }

def beginCycle (cpu : Processor) : Processor :=
  { cpu with access := {}, pcModified := false }

/-- Goes to the next cell unless the instruction went elsewhere. Register 0 is zero
after every cycle. -/
def endCycle (cpu : Processor) : Processor :=
  let moved := cpu.movePc (cpu.width.wrap cpu.link) true
  { moved with registers := moved.registers.set 0 0 }

end Processor

inductive Fault.Cause where
  | invalidOpcode (code : BitVec 4) (word : Word)
  | invalidRegister (index : Nat)
  | noSuchCell (address : Nat)
  | console (failure : Console.Failure)
deriving DecidableEq, Repr

def Fault.Cause.message : Fault.Cause → String
  | invalidOpcode code word =>
    "invalid opcode `0x" ++ Text.Hex.number code.toNat ++ "` in word `0x" ++
      Text.Hex.number word.toNat ++ "`"
  | invalidRegister index => "invalid cpu register `R[" ++ toString index ++ "]` accessed"
  | noSuchCell address => "memory has no address `0x" ++ Text.Hex.number address ++ "`"
  | console .inputClosed => "console input closed"
  | console _ => "console failure"

def Fault.Cause.source? : Fault.Cause → Option String
  | console failure => some failure.message
  | _ => none

structure Fault where
  cause : Fault.Cause
  width : Width
  pc : Address
deriving DecidableEq, Repr

def Fault.message (f : Fault) : String :=
  "error [pc: " ++ f.width.addressHex f.pc ++ ", " ++ f.width.name ++ "]: " ++ f.cause.message

def Fault.chain (f : Fault) : List String :=
  f.message :: f.cause.source?.toList

end ToyMachine
