import ToyMachine.Display.Colour
import ToyMachine.Display.Window
import ToyMachine.Machine.Basic

/-!
The display: tables of two rows, labels above values, for the registers and for
windows of memory. An entry of a row is a lead of blanks and commas and a text in
a colour; the leads are chosen so that a label and its value end in one column.
-/

namespace ToyMachine

namespace Display

structure Entry where
  lead : String
  colour : Colour
  text : String

def Entry.tinted (e : Entry) : String :=
  e.lead ++ e.colour.code ++ e.text ++ Colour.white.code

def Entry.visible (e : Entry) : String :=
  e.lead ++ e.text

abbrev Row := List Entry

def Row.line (row : Row) : String :=
  String.join (row.map Entry.tinted) ++ "\n"

def pcLabel (cpu : Processor) : Entry where
  lead := match cpu.width with
    | .narrow => "    "
    | .wide => "      "
  colour := cpu.pcColour
  text := "PC"

def registerLabel (cpu : Processor) (register : Fin 16) : Entry :=
  let digits (least : Nat) := String.ofList (Text.Hex.padded least register.val)
  match cpu.width with
  | .narrow => ⟨", ", cpu.registerColour register, "R[" ++ digits 1 ++ "]"⟩
  | .wide => ⟨",    ", cpu.registerColour register, "R[" ++ digits 2 ++ "]"⟩

def pcValue (cpu : Processor) : Entry where
  lead := "    "
  colour := cpu.pcColour
  text := cpu.width.addressHex cpu.pc

def registerValue (cpu : Processor) (register : Fin 16) : Entry where
  lead := ", "
  colour := cpu.registerColour register
  text := cpu.width.hex (cpu.registers.get register)

def registerLabels (cpu : Processor) : Row :=
  pcLabel cpu :: (List.finRange 16).map (registerLabel cpu)

def registerValues (cpu : Processor) : Row :=
  pcValue cpu :: (List.finRange 16).map (registerValue cpu)

def registers (cpu : Processor) : String :=
  (registerLabels cpu).line ++ (registerValues cpu).line

def cellAddress {w : Width} (c : w.Cell) : Address :=
  BitVec.ofNat 16 c.val

def cellLabel (cpu : Processor) (first : Nat) (c : cpu.width.Cell) : Entry where
  lead := match decide (c.val = first), cpu.width with
    | true, .narrow => "    "
    | true, .wide => "     "
    | false, .narrow => ", "
    | false, .wide => ",   "
  colour := cpu.cellColour (cellAddress c)
  text := "M[" ++ cpu.width.addressHex (cellAddress c) ++ "]"

def cellValue (cpu : Processor) (memory : Memory) (first : Nat) (c : cpu.width.Cell) : Entry where
  lead := match decide (c.val = first), cpu.width with
    | true, .narrow => "     "
    | true, .wide => "    "
    | false, _ => ",  "
  colour := cpu.cellColour (cellAddress c)
  text := cpu.width.hex (memory.get cpu.width c)

def windowLabels (cpu : Processor) (window : Window cpu.width) : Row :=
  window.cells.map (cellLabel cpu window.first)

def windowValues (cpu : Processor) (memory : Memory) (window : Window cpu.width) : Row :=
  window.cells.map (cellValue cpu memory window.first)

def window (cpu : Processor) (memory : Memory) (centre : Address) (half : Nat) : String :=
  let shown := Window.around cpu.width centre half
  (windowLabels cpu shown).line ++ (windowValues cpu memory shown).line

def namedWindow (name : String) (cpu : Processor) (memory : Memory) (half : Nat)
    (centre : Address) : String :=
  "\n  Memory near " ++ name ++ ":\n" ++ window cpu memory centre half

def haltBanner : String :=
  Colour.red.code ++ "Cpu has halted" ++ Colour.white.code ++ "\n"

/-- The registers, the memory around the program counter and around the last accesses. -/
def state (cpu : Processor) (memory : Memory) (half : Nat) : String :=
  "Cpu state:\n  Registers:\n" ++ registers cpu ++
    namedWindow "PC" cpu memory half cpu.pc ++
    (match cpu.access.memoryRead with
      | some address => namedWindow "last read" cpu memory half address
      | none => "") ++
    (match cpu.access.memoryWritten with
      | some address => namedWindow "last write" cpu memory half address
      | none => "") ++
    "\n"

def cycle (cpu : Processor) (memory : Memory) (half : Nat) : String :=
  if cpu.halted then haltBanner else state cpu memory half

end Display

namespace Machine

def display (text : Processor → Memory → String) : Action Console.Failure Unit := fun m =>
  onConsole (Console.print (text m.cpu m.memory)) m

end Machine

end ToyMachine
