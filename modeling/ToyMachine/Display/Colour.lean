import ToyMachine.Machine.Processor

/-!
Colours of the display. A register is coloured by what the last cycle did with it,
a write before a first read before a second read. A memory cell is coloured by the
program counter first, then by a read, then by a write.
-/

namespace ToyMachine

inductive Colour where
  | red
  | yellow
  | blue
  | brightBlue
  | white
deriving DecidableEq, Repr

def Colour.code : Colour → String
  | red => "\x1b[31m"
  | yellow => "\x1b[33m"
  | blue => "\x1b[34m"
  | brightBlue => "\x1b[94m"
  | white => "\x1b[97m"

/-- What the last cycle did with a register. -/
inductive Category where
  | written
  | firstRead
  | secondRead
  | untouched
deriving DecidableEq, Repr

def Access.category (access : Access) (register : Nat) : Category :=
  if access.written = some register then .written
  else if access.firstRead = some register then .firstRead
  else if access.secondRead = some register then .secondRead
  else .untouched

def Category.colour : Category → Colour
  | written => .red
  | firstRead => .blue
  | secondRead => .brightBlue
  | untouched => .white

namespace Processor

def registerColour (cpu : Processor) (register : Nat) : Colour :=
  (cpu.access.category register).colour

def pcColour (cpu : Processor) : Colour :=
  if cpu.halted then .white
  else if cpu.pcModified then .red
  else if cpu.oldPc ≠ cpu.pc then .yellow
  else .white

def cellColour (cpu : Processor) (address : Address) : Colour :=
  if address = cpu.pc then .yellow
  else if cpu.access.memoryRead = some address then .blue
  else if cpu.access.memoryWritten = some address then .red
  else .white

end Processor

end ToyMachine
