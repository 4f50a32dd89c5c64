import ToyMachine.Proofs.Effect
import ToyMachine.Proofs.NarrowWord
import Mathlib.Logic.Function.Basic

/-! The machine of the instruction set's own description: sixteen registers and 256 cells
of sixteen bits each. Nothing is extended, narrowed or masked here, since its words have
no more bits than those that count. It is what the machine looks like through the low
halves of its words while it is narrow. -/

namespace ToyMachine

structure Reference where
  width : Width
  pc : Address
  halted : Bool
  registers : Fin 16 → BitVec 16
  memory : BitVec 8 → BitVec 16

namespace Reference

/-- Four bits of a word; the lowest four are nibble 0. -/
def nibble (w : BitVec 16) (k : Nat) : Fin 16 :=
  (w.extractLsb' (4 * k) 4).toFin

def goTo (r : Reference) (address : BitVec 8) : Reference :=
  { r with pc := address.setWidth 16 }

def advance (r : Reference) : Reference :=
  r.goTo ((r.pc + 1).setWidth 8)

def put (r : Reference) (d : Fin 16) (v : BitVec 16) : Reference :=
  { r with registers := Function.update r.registers d v }

def store (r : Reference) (address : BitVec 8) (v : BitVec 16) : Reference :=
  { r with memory := Function.update r.memory address v }

/-- A word that is loaded from the console is first stored there. -/
def load (r : Reference) (d : Fin 16) (address : BitVec 8) (typed : BitVec 16) : Reference :=
  let filled := if address = 0xFF then r.store 0xFF typed else r
  filled.put d (filled.memory address)

/-- What an instruction does by its number and its three operands, before register 0 is
reset. `typed` is the next word at the console. -/
def execute (r : Reference) (typed : BitVec 16) (number : Nat) (d s t : Fin 16)
    (switches : Bool) : Reference :=
  let address := BitVec.ofNat 8 (s.val * 16 + t.val)
  let v := r.registers d
  let a := r.registers s
  let b := r.registers t
  match number with
  | 0x0 => if switches then { r with width := r.width.other } else { r with halted := true }
  | 0x1 => r.advance.put d (a + b)
  | 0x2 => r.advance.put d (a - b)
  | 0x3 => r.advance.put d (a &&& b)
  | 0x4 => r.advance.put d (a ^^^ b)
  | 0x5 => r.advance.put d (a <<< (b.toNat % 32))
  | 0x6 => r.advance.put d (a.sshiftRight (b.toNat % 32))
  | 0x7 => r.advance.put d (address.setWidth 16)
  | 0x8 => r.advance.load d address typed
  | 0x9 => r.advance.store address v
  | 0xA => r.advance.load d (b.setWidth 8) typed
  | 0xB => r.advance.store (b.setWidth 8) v
  | 0xC => if v = 0 then r.goTo address else r.advance
  | 0xD => if 0 < v.toInt then r.goTo address else r.advance
  | 0xE => r.goTo (v.setWidth 8)
  | _ => (r.goTo address).put d (r.pc + 1)

def step (r : Reference) (typed : BitVec 16) : Reference :=
  let w := r.memory (r.pc.setWidth 8)
  let result :=
    r.execute typed (nibble w 3).val (nibble w 2) (nibble w 1) (nibble w 0) (w == 0x0FFF)
  result.put 0 0

theorem load_of_ne (r : Reference) (d : Fin 16) {address : BitVec 8} (typed : BitVec 16)
    (other : address ≠ 0xFF) : r.load d address typed = r.put d (r.memory address) := by
  rw [load, if_neg other]

theorem load_console (r : Reference) (d : Fin 16) (typed : BitVec 16) :
    r.load d 0xFF typed = (r.store 0xFF typed).put d typed := by
  rw [load, if_pos rfl]
  simp only [store, Function.update_self]

section Decoding

theorem toFin_operand (w : BitVec 16) (k : Nat) :
    ((Instruction.operand (w.setWidth 32) (4 * k)).setWidth 4).toFin = nibble w k := by
  have same : (w.setWidth 32).extractLsb' (4 * k) 4 = w.extractLsb' (4 * k) 4 := by
    apply BitVec.eq_of_toNat_eq
    rw [BitVec.extractLsb'_toNat, BitVec.toNat_setWidth_of_le (by omega), BitVec.extractLsb'_toNat]
  rw [nibble, Instruction.operand, BitVec.setWidth_setWidth_of_le _ (by omega),
    BitVec.setWidth_eq, same]

variable {i : Instruction} {w : BitVec 16}
  (h : Instruction.decode .narrow (w.setWidth 32) = .ok i)

include h

theorem decoded_eq :
    i = .ofWord (Opcode.ofCode (Instruction.selector .narrow (w.setWidth 32))) (w.setWidth 32) := by
  rw [Instruction.decode_narrow, Except.ok.injEq] at h
  exact h.symm

theorem code_eq : i.opcode.code.toNat = (nibble w 3).val := by
  have low : (w.setWidth 32).toNat = w.toNat := BitVec.toNat_setWidth_of_le (by omega)
  rw [decoded_eq h]
  simp only [Instruction.ofWord, Opcode.code_ofCode, Instruction.selector, nibble,
    BitVec.extractLsb'_toNat, BitVec.val_toFin, low]

theorem target_eq : i.target = nibble w 2 := by
  rw [decoded_eq h]
  exact toFin_operand w 2

theorem second_eq : i.second = nibble w 1 := by
  rw [decoded_eq h]
  exact toFin_operand w 1

theorem third_eq : i.third = nibble w 0 := by
  rw [decoded_eq h]
  exact toFin_operand w 0

theorem address_eq :
    i.address = (BitVec.ofNat 8 (i.second.val * 16 + i.third.val)).setWidth 16 := by
  rw [second_eq h, third_eq h, decoded_eq h, Instruction.address_ofWord]
  apply BitVec.eq_of_toNat_eq
  simp only [Width.wrap, nibble, BitVec.toNat_setWidth, BitVec.toNat_ofNat, BitVec.val_toFin,
    BitVec.extractLsb'_toNat, Nat.shiftRight_eq_div_pow]
  omega

theorem switchesWidth_eq : i.switchesWidth = (w == 0x0FFF) := by
  have word : i.word = w.setWidth 32 := (Instruction.decode_ok h).2
  by_cases same : w = 0x0FFF
  · subst same
    rw [decoded_eq h]
    rfl
  · have other : i.word ≠ Instruction.switchWord := by
      intro equal
      have low := congrArg (BitVec.setWidth 16) (word.symm.trans equal)
      rw [BitVec.setWidth_setWidth_of_le _ (by omega), BitVec.setWidth_eq] at low
      exact same low
    rw [Instruction.switchesWidth, beq_false_of_ne other, Bool.and_false, beq_false_of_ne same]

end Decoding

def view (memory : Memory) (address : BitVec 8) : BitVec 16 :=
  (memory.get .narrow ⟨address.toNat, address.isLt⟩).setWidth 16

def of (cpu : Processor) (memory : Memory) : Reference where
  width := cpu.width
  pc := cpu.pc
  halted := cpu.halted
  registers r := (cpu.register r).setWidth 16
  memory := view memory

theorem view_set (memory : Memory) (cell : Width.narrow.Cell) (v : Word) :
    view (memory.set .narrow cell v) =
      Function.update (view memory) (BitVec.ofNat 8 cell.val) (v.setWidth 16) := by
  have bound : cell.val < 256 := cell.isLt
  funext address
  by_cases same : address = BitVec.ofNat 8 cell.val
  · have hit : (⟨address.toNat, address.isLt⟩ : Width.narrow.Cell) = cell := by
      apply Fin.ext
      simp only [same, BitVec.toNat_ofNat]
      omega
    rw [same, Function.update_self, ← same, view, hit, Memory.get_set_self, setWidth_fit]
  · have miss : cell ≠ ⟨address.toNat, address.isLt⟩ := by
      rintro rfl
      exact same (by simp)
    rw [Function.update_of_ne same, view, Memory.get_set_of_ne _ _ miss, view]

theorem view_of_read {memory : Memory} {address : Address} {v : Word}
    (found : memory.read .narrow address = .ok v) :
    view memory (address.setWidth 8) = v.setWidth 16 := by
  obtain ⟨bound, rfl⟩ := Memory.read_ok found
  have small : address.toNat < 256 := bound
  have cell : (⟨(address.setWidth 8).toNat, (address.setWidth 8).isLt⟩ : Width.narrow.Cell) =
      ⟨address.toNat, bound⟩ := by
    apply Fin.ext
    simp only [BitVec.toNat_setWidth]
    omega
  rw [view, cell]

theorem ne_console {memory : Memory} {address : Address} {v : Word}
    (found : memory.read .narrow address = .ok v) (cell : address ≠ Width.narrow.consoleAddress) :
    address.setWidth 8 ≠ 0xFF := by
  obtain ⟨bound, _⟩ := Memory.read_ok found
  have small : address.toNat < 256 := bound
  intro same
  apply cell
  apply BitVec.eq_of_toNat_eq
  have low := congrArg BitVec.toNat same
  rw [BitVec.toNat_setWidth, Nat.mod_eq_of_lt small] at low
  exact low

section Updates

variable {cpu : Processor} {memory : Memory}

theorem of_setRegister (d : Fin 16) (v : Word) :
    of (cpu.setRegister d v) memory = (of cpu memory).put d (v.setWidth 16) := by
  have registers : (of (cpu.setRegister d v) memory).registers =
      Function.update (of cpu memory).registers d (v.setWidth 16) := by
    funext r
    simp only [of]
    rw [Processor.register_setRegister]
    by_cases same : r = d
    · rw [same, if_pos rfl, Function.update_self, setWidth_fit]
    · rw [if_neg (Ne.symm same), Function.update_of_ne same]
  rw [put, ← registers]
  rfl

theorem of_set (cell : Width.narrow.Cell) (v : Word) :
    of cpu (memory.set .narrow cell v) =
      (of cpu memory).store (BitVec.ofNat 8 cell.val) (v.setWidth 16) := by
  rw [of, view_set]
  rfl

theorem of_write {memory' : Memory} {address : Address} {v : Word}
    (kept : memory.write .narrow address v = .ok memory') :
    of cpu memory' = (of cpu memory).store (address.setWidth 8) (v.setWidth 16) := by
  obtain ⟨bound, rfl⟩ := Memory.write_ok kept
  have cell : BitVec.ofNat 8 address.toNat = address.setWidth 8 := by
    apply BitVec.eq_of_toNat_eq
    simp only [BitVec.toNat_ofNat, BitVec.toNat_setWidth]
  rw [of_set, cell]

@[simp] theorem of_readSources (i : Instruction) :
    of (cpu.readSources i) memory = of cpu memory := by
  unfold Processor.readSources
  cases i.opcode <;> rfl

@[simp] theorem of_markMemoryRead (address : Address) :
    of (cpu.markMemoryRead address) memory = of cpu memory := rfl

@[simp] theorem of_markMemoryWritten (address : Address) :
    of (cpu.markMemoryWritten address) memory = of cpu memory := by
  unfold Processor.markMemoryWritten
  split <;> rfl

end Updates

end Reference

end ToyMachine
