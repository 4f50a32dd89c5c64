import ToyMachine.Instruction.Basic

/-! Instructions that come from a word. Decoding takes the operands from the word four
bits at a time, so each of them names a register, and the last two together are the
word's low eight bits, an address that either width has. -/

namespace ToyMachine

namespace Instruction

/-- The register that the first operand names; `second` and `third` are those of the
other two. -/
def target (i : Instruction) : Fin 16 := (i.d.setWidth 4).toFin

def second (i : Instruction) : Fin 16 := (i.s.setWidth 4).toFin

def third (i : Instruction) : Fin 16 := (i.t.setWidth 4).toFin

/-- The operands are those of the instruction's own word. -/
def Decoded (i : Instruction) : Prop := i = ofWord i.opcode i.word

theorem toNat_setWidth_operand (word : Word) (low : Nat) :
    ((operand word low).setWidth 4).toNat = (operand word low).toNat := by
  have small := (word.extractLsb' low 4).isLt
  rw [operand, BitVec.toNat_setWidth, BitVec.toNat_setWidth]
  omega

namespace Decoded

variable {i : Instruction}

theorem target_val (h : i.Decoded) : i.d.toNat = i.target.val := by
  rw [h]
  exact (toNat_setWidth_operand _ 8).symm

theorem second_val (h : i.Decoded) : i.s.toNat = i.second.val := by
  rw [h]
  exact (toNat_setWidth_operand _ 4).symm

theorem third_val (h : i.Decoded) : i.t.toNat = i.third.val := by
  rw [h]
  exact (toNat_setWidth_operand _ 0).symm

end Decoded

theorem address_ofWord (opcode : Opcode) (word : Word) :
    (ofWord opcode word).address = Width.narrow.wrap word := by
  ext k hk
  simp only [address, ofWord, operand, Width.wrap, BitVec.getElem_or, BitVec.getElem_shiftLeft,
    BitVec.getElem_setWidth, BitVec.getLsbD_setWidth, BitVec.getLsbD_extractLsb']
  by_cases low : k < 4
  · simp [low, show k < 8 by omega]
  · by_cases high : k < 8
    · simp [low, high, show k - 4 < 4 by omega, show k - 4 < 8 by omega,
        show 4 + (k - 4) = k by omega]
    · simp [low, high, show ¬ k - 4 < 4 by omega]

theorem Decoded.address_lt {i : Instruction} (h : i.Decoded) (w : Width) :
    i.address.toNat < w.cells := by
  rw [h, address_ofWord]
  have narrow := Width.wrap_lt .narrow i.word
  cases w with
  | narrow => exact narrow
  | wide => exact Nat.lt_trans narrow (by decide)

theorem decode_narrow (word : Word) :
    decode .narrow word = .ok (ofWord (Opcode.ofCode (selector .narrow word)) word) := rfl

theorem decode_wide_ok {word : Word} {i : Instruction} (h : decode .wide word = .ok i) :
    i = ofWord .halt word ∧ selector .wide word = 0 := by
  simp only [decode] at h
  split at h
  · next code =>
    simp only [Except.ok.injEq] at h
    exact ⟨h.symm, code⟩
  · simp at h

theorem decode_wide_error {word : Word} {code : BitVec 4} (h : decode .wide word = .error code) :
    code = selector .wide word ∧ selector .wide word ≠ 0 := by
  simp only [decode] at h
  split at h
  · simp at h
  · next other =>
    simp only [Except.error.injEq] at h
    exact ⟨h.symm, other⟩

theorem decode_ok {w : Width} {word : Word} {i : Instruction} (h : decode w word = .ok i) :
    i.Decoded ∧ i.word = word := by
  cases w with
  | narrow =>
    rw [decode_narrow, Except.ok.injEq] at h
    subst h
    exact ⟨rfl, rfl⟩
  | wide =>
    obtain ⟨rfl, _⟩ := decode_wide_ok h
    exact ⟨rfl, rfl⟩

end Instruction

end ToyMachine
