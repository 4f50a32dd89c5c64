import ToyMachine.Instruction.Opcode

/-!
Instructions: a word taken apart into an opcode and three operands `d`, `s`, `t`,
four bits each from the top down. The last two together are an address of eight
bits. An instruction keeps the word it came from, because halting and changing
the width share an opcode and only the whole word tells them apart. Operands are
bytes, so that one built by hand may exceed the four bits of a word.

The text of an instruction is its mnemonic and the operands that its format uses.
The halt word that changes the width is the one instruction with a text of its
own.
-/

namespace ToyMachine

structure Instruction where
  opcode : Opcode
  d : BitVec 8
  s : BitVec 8
  t : BitVec 8
  word : Word
deriving DecidableEq, Repr

def registerName (index : Nat) : String :=
  "R[" ++ Text.Hex.number index ++ "]"

namespace Instruction

/-- The halt word that changes the width instead of stopping the machine. -/
def switchWord : Word := 0x0FFF

def operand (word : Word) (low : Nat) : BitVec 8 :=
  (word.extractLsb' low 4).setWidth 8

def ofWord (opcode : Opcode) (word : Word) : Instruction :=
  ⟨opcode, operand word 8, operand word 4, operand word 0, word⟩

/-- The bits that select the opcode: the top four of the width's word. -/
def selector : Width → Word → BitVec 4
  | .narrow, word => word.extractLsb' 12 4
  | .wide, word => word.extractLsb' 28 4

/-- Every narrow word is an instruction. Of the wide ones only those of the halt opcode
are, and all others are refused with the bits that would have selected their opcode. -/
def decode (w : Width) (word : Word) : Except (BitVec 4) Instruction :=
  match w with
  | .narrow => .ok (ofWord (Opcode.ofCode (selector .narrow word)) word)
  | .wide =>
    if selector .wide word = Opcode.halt.code then .ok (ofWord .halt word)
    else .error (selector .wide word)

/-- The narrow instruction with these operands, of which four bits each are kept. -/
def assemble (opcode : Opcode) (d s t : BitVec 8) : Instruction :=
  ofWord opcode
    ((opcode.code ++ d.setWidth 4 ++ s.setWidth 4 ++ t.setWidth 4 : BitVec 16).setWidth 32)

def assembleAddress (opcode : Opcode) (d address : BitVec 8) : Instruction :=
  assemble opcode d (address >>> 4) (address &&& 0xF)

def address (i : Instruction) : Address :=
  (i.s.setWidth 16 <<< 4) ||| i.t.setWidth 16

def switchesWidth (i : Instruction) : Bool :=
  i.opcode == .halt && i.word == switchWord

def targetName (i : Instruction) : String := registerName i.d.toNat

def secondName (i : Instruction) : String := registerName i.s.toNat

def thirdName (i : Instruction) : String := registerName i.t.toNat

def operands (i : Instruction) : String :=
  match i.opcode.format with
  | .bare => ""
  | .target => " " ++ i.targetName
  | .targetThird => " " ++ i.targetName ++ ", " ++ i.thirdName
  | .three => " " ++ i.targetName ++ ", " ++ i.secondName ++ ", " ++ i.thirdName
  | .targetAddress => " " ++ i.targetName ++ ", " ++ Width.narrow.addressHex i.address

def text (i : Instruction) : String :=
  if i.switchesWidth then "hlt (switch width)" else i.opcode.mnemonic ++ i.operands

end Instruction

end ToyMachine
