import ToyMachine.Width

/-!
The instruction set: sixteen opcodes, one for each value of a word's top four
bits. An opcode has a mnemonic and a format, which says what operands it shows.
-/

namespace ToyMachine

inductive Format where
  | bare
  | target
  | targetThird
  | three
  | targetAddress
deriving DecidableEq, Repr

inductive Opcode where
  /-- Stops the machine, or changes its width. -/
  | halt
  | add
  | sub
  | and
  | xor
  | shiftLeft
  | shiftRight
  /-- A register becomes the address itself. -/
  | loadAddress
  | load
  | store
  | loadIndirect
  | storeIndirect
  | branchZero
  | branchPositive
  | jump
  /-- Keeps the next address in a register and goes to another. -/
  | call
deriving DecidableEq, Repr

namespace Opcode

def code : Opcode → BitVec 4
  | halt => 0x0
  | add => 0x1
  | sub => 0x2
  | and => 0x3
  | xor => 0x4
  | shiftLeft => 0x5
  | shiftRight => 0x6
  | loadAddress => 0x7
  | load => 0x8
  | store => 0x9
  | loadIndirect => 0xA
  | storeIndirect => 0xB
  | branchZero => 0xC
  | branchPositive => 0xD
  | jump => 0xE
  | call => 0xF

def ofCode (code : BitVec 4) : Opcode :=
  match code.toNat with
  | 0x0 => halt
  | 0x1 => add
  | 0x2 => sub
  | 0x3 => and
  | 0x4 => xor
  | 0x5 => shiftLeft
  | 0x6 => shiftRight
  | 0x7 => loadAddress
  | 0x8 => load
  | 0x9 => store
  | 0xA => loadIndirect
  | 0xB => storeIndirect
  | 0xC => branchZero
  | 0xD => branchPositive
  | 0xE => jump
  | _ => call

def mnemonic : Opcode → String
  | halt => "hlt"
  | add => "add"
  | sub => "sub"
  | and => "and"
  | xor => "xor"
  | shiftLeft => "asl"
  | shiftRight => "asr"
  | loadAddress => "lda"
  | load => "lod"
  | store => "str"
  | loadIndirect => "ldi"
  | storeIndirect => "sti"
  | branchZero => "brz"
  | branchPositive => "brp"
  | jump => "jmp"
  | call => "jsr"

def format : Opcode → Format
  | halt => .bare
  | add | sub | and | xor | shiftLeft | shiftRight => .three
  | loadAddress | load | store | branchZero | branchPositive | call => .targetAddress
  | loadIndirect | storeIndirect => .targetThird
  | jump => .target

@[simp] theorem ofCode_code (o : Opcode) : ofCode o.code = o := by cases o <;> rfl

@[simp] theorem code_ofCode (c : BitVec 4) : (ofCode c).code = c := by
  revert c; decide

end Opcode

end ToyMachine
