import Mathlib.Algebra.Group.Nat.Defs
import ToyMachine.Proofs.Operand

/-! Instructions and the words they are made of. The low sixteen bits of a word are four fields
of four bits; assembling puts an opcode and three operands there, and decoding takes them out
again. So neither loses anything but what the fields have no room for: the upper halves of the
operands, and what stands in a word above its low sixteen bits. -/

namespace ToyMachine

namespace Instruction

section Fields

def packed (code d s t : BitVec 4) : Word :=
  (code ++ d ++ s ++ t : BitVec 16).setWidth 32

theorem toNat_packed (code d s t : BitVec 4) :
    (packed code d s t).toNat =
      code.toNat * 0x1000 + d.toNat * 0x100 + s.toNat * 0x10 + t.toNat := by
  have first := code.isLt
  have more := d.isLt
  have third := s.isLt
  have last := t.isLt
  rw [packed, BitVec.toNat_setWidth, BitVec.toNat_append, BitVec.toNat_append, BitVec.toNat_append,
    ← Nat.shiftLeft_add_eq_or_of_lt last, ← Nat.shiftLeft_add_eq_or_of_lt third,
    ← Nat.shiftLeft_add_eq_or_of_lt more]
  simp only [Nat.shiftLeft_eq]
  omega

theorem toNat_field (word : Word) (low : Nat) :
    (word.extractLsb' low 4).toNat = word.toNat / 2 ^ low % 16 := by
  rw [BitVec.extractLsb'_toNat, Nat.shiftRight_eq_div_pow]

theorem toNat_operand (word : Word) (low : Nat) :
    (operand word low).toNat = word.toNat / 2 ^ low % 16 := by
  rw [operand, BitVec.toNat_setWidth, toNat_field]
  omega

variable (code d s t : BitVec 4)

theorem selector_packed : selector .narrow (packed code d s t) = code := by
  have more := d.isLt
  have third := s.isLt
  have last := t.isLt
  apply BitVec.eq_of_toNat_eq
  rw [selector, toNat_field, toNat_packed]
  omega

theorem operand_packed :
    operand (packed code d s t) 8 = d.setWidth 8 ∧ operand (packed code d s t) 4 = s.setWidth 8 ∧
      operand (packed code d s t) 0 = t.setWidth 8 := by
  have more := d.isLt
  have third := s.isLt
  have last := t.isLt
  refine ⟨?_, ?_, ?_⟩ <;> apply BitVec.eq_of_toNat_eq <;>
    rw [toNat_operand, toNat_packed, BitVec.toNat_setWidth] <;> omega

theorem toNat_packed_fields (word : Word) :
    (packed (selector .narrow word) (word.extractLsb' 8 4) (word.extractLsb' 4 4)
      (word.extractLsb' 0 4)).toNat = word.toNat % 0x10000 := by
  rw [toNat_packed, selector, toNat_field, toNat_field, toNat_field, toNat_field]
  omega

end Fields

section Assembling

variable (o : Opcode) (d s t address : BitVec 8)

theorem assemble_eq :
    assemble o d s t =
      ⟨o, (d.setWidth 4).setWidth 8, (s.setWidth 4).setWidth 8, (t.setWidth 4).setWidth 8,
        packed o.code (d.setWidth 4) (s.setWidth 4) (t.setWidth 4)⟩ := by
  obtain ⟨target, second, third⟩ :=
    operand_packed o.code (d.setWidth 4) (s.setWidth 4) (t.setWidth 4)
  rw [← target, ← second, ← third]
  rfl

theorem decode_assemble :
    decode .narrow (assemble o d s t).word = .ok (assemble o d s t) := by
  have code := selector_packed o.code (d.setWidth 4) (s.setWidth 4) (t.setWidth 4)
  change decode .narrow (packed o.code (d.setWidth 4) (s.setWidth 4) (t.setWidth 4)) = _
  rw [decode_narrow, code, Opcode.ofCode_code]
  rfl

theorem toNat_lowHalf (operand : BitVec 8) :
    ((operand.setWidth 4).setWidth 8).toNat = operand.toNat % 16 := by
  rw [BitVec.toNat_setWidth, BitVec.toNat_setWidth]
  omega

theorem address_assembleAddress :
    (assembleAddress o d address).address = address.setWidth 16 := by
  have low : (address &&& 0xF).toNat = address.toNat % 16 :=
    Nat.and_two_pow_sub_one_eq_mod address.toNat 4
  have bound := address.isLt
  rw [assembleAddress, assemble, address_ofWord]
  change Width.narrow.wrap (packed _ _ _ _) = _
  apply BitVec.eq_of_toNat_eq
  simp only [Width.wrap, BitVec.toNat_setWidth, toNat_packed, BitVec.toNat_ushiftRight, low,
    Nat.shiftRight_eq_div_pow]
  omega

theorem setWidth_operand (word : Word) (low : Nat) :
    (operand word low).setWidth 4 = word.extractLsb' low 4 := by
  rw [operand, BitVec.setWidth_setWidth_of_le _ (by omega), BitVec.setWidth_eq]

theorem assemble_of_decode {word : Word} {i : Instruction} (h : decode .narrow word = .ok i) :
    (assemble i.opcode i.d i.s i.t).word.toNat = word.toNat % 0x10000 ∧
      assemble i.opcode i.d i.s i.t = { i with word := (assemble i.opcode i.d i.s i.t).word } := by
  rw [decode_narrow, Except.ok.injEq] at h
  subst h
  rw [assemble_eq]
  simp only [ofWord, setWidth_operand, Opcode.code_ofCode]
  exact ⟨toNat_packed_fields word, rfl⟩

end Assembling

section Decoding

theorem decode_wide (word : Word) :
    word.toNat < 2 ^ 28 ∧ decode .wide word = .ok (ofWord .halt word) ∨
      2 ^ 28 ≤ word.toNat ∧ decode .wide word = .error (selector .wide word) := by
  have top : (selector .wide word).toNat = word.toNat / 2 ^ 28 % 16 := toNat_field word 28
  have bound := word.isLt
  rw [decode]
  split
  · next zero =>
    have none : (selector .wide word).toNat = 0 := congrArg BitVec.toNat zero
    exact .inl ⟨by omega, rfl⟩
  · next other =>
    have some : (selector .wide word).toNat ≠ 0 := fun none => other (BitVec.eq_of_toNat_eq none)
    exact .inr ⟨by omega, rfl⟩

theorem switches_iff (w : Width) (word : Word) :
    (∃ i, decode w word = .ok i ∧ i.switchesWidth = true) ↔ word = switchWord := by
  constructor
  · rintro ⟨i, known, switches⟩
    rw [switchesWidth, Bool.and_eq_true, beq_iff_eq, beq_iff_eq] at switches
    rw [← (decode_ok known).2, switches.2]
  · rintro rfl
    exact ⟨ofWord .halt switchWord, by cases w <;> rfl, rfl⟩

/-- Decoding and assembling are inverse. An assembled instruction is read from its word again, with
the low four bits of each operand, and with the address if it was assembled from one; an
instruction read from a narrow word is assembled to the low sixteen bits of the word and to the
fields it has. Of the wide words those below 2²⁸ are read, all as halts, and the others refused
with their top four bits. And in either width one word is the switch. -/
theorem decode_inverts_assemble :
    (∀ (o : Opcode) (d s t : BitVec 8), let i := assemble o d s t
      decode .narrow i.word = .ok i ∧ i.opcode = o ∧
        i.d.toNat = d.toNat % 16 ∧ i.s.toNat = s.toNat % 16 ∧ i.t.toNat = t.toNat % 16) ∧
    (∀ (o : Opcode) (d address : BitVec 8), let i := assembleAddress o d address
      i.address.toNat = address.toNat ∧ decode .narrow i.word = .ok i ∧ i.opcode = o ∧
        i.d.toNat = d.toNat % 16) ∧
    (∀ word : Word, ∃ i, decode .narrow word = .ok i ∧ i.word = word ∧
      let j := assemble i.opcode i.d i.s i.t
      j.word.toNat = word.toNat % 65536 ∧ j.opcode = i.opcode ∧ j.d = i.d ∧ j.s = i.s ∧
        j.t = i.t) ∧
    (∀ word : Word,
      word.toNat < 2 ^ 28 ∧ (∃ i, decode .wide word = .ok i ∧ i.opcode = .halt ∧ i.word = word) ∨
        2 ^ 28 ≤ word.toNat ∧
          ∃ code, decode .wide word = .error code ∧ code.toNat = word.toNat / 2 ^ 28) ∧
    ∀ (w : Width) (word : Word),
      (∃ i, decode w word = .ok i ∧ i.switchesWidth = true) ↔ word = 0x00000FFF := by
  refine ⟨?_, ?_, ?_, ?_, switches_iff⟩
  · intro o d s t i
    refine ⟨decode_assemble o d s t, rfl, ?_⟩
    simp only [i, assemble_eq, toNat_lowHalf, and_self]
  · intro o d address i
    have low : i.address.toNat = address.toNat := by
      rw [address_assembleAddress, BitVec.toNat_setWidth_of_le (by omega)]
    refine ⟨low, decode_assemble _ _ _ _, rfl, ?_⟩
    simp only [i, assembleAddress, assemble_eq, toNat_lowHalf]
  · intro word
    have known := decode_narrow word
    obtain ⟨low, fields⟩ := assemble_of_decode known
    refine ⟨_, known, rfl, low, ?_⟩
    rw [fields]
    exact ⟨rfl, rfl, rfl, rfl⟩
  · intro word
    have bound := word.isLt
    rcases decode_wide word with ⟨small, known⟩ | ⟨large, refused⟩
    · exact .inl ⟨small, _, known, rfl, rfl⟩
    · refine .inr ⟨large, _, refused, ?_⟩
      rw [selector, toNat_field]
      omega

end Decoding

end Instruction

end ToyMachine
