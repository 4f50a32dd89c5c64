import ToyMachine.Machine.Execute

/-! Sixteen-bit arithmetic on sign-extended words. A word that the narrow width keeps
is the extension of its low half, and an operation on two such words has the low half
that the same operation has on the halves: subtraction and the left shift by the carry
running upwards only, the right shift because the extension supplies the sign. -/

namespace ToyMachine

theorem toInt_eq_of_fit {v : Word} (h : Width.narrow.fit v = v) :
    v.toInt = (v.setWidth 16).toInt := by
  have extended : (Width.narrow.fit v).toInt = (v.setWidth 16).toInt :=
    BitVec.toInt_signExtend_of_le (by omega)
  rwa [h] at extended

theorem fit_narrow_eq_self_iff (v : Word) :
    Width.narrow.fit v = v ↔ -32768 ≤ v.toInt ∧ v.toInt ≤ 32767 := by
  constructor
  · intro h
    have low := BitVec.le_toInt (v.setWidth 16)
    have high := BitVec.toInt_lt (x := v.setWidth 16)
    rw [toInt_eq_of_fit h]
    omega
  · intro h
    apply BitVec.eq_of_toInt_eq
    rw [Width.fit, BitVec.toInt_signExtend_of_le (by omega), BitVec.toInt_setWidth]
    have signed := BitVec.toInt_eq_toNat_bmod v
    rw [Int.bmod_def] at *
    omega

theorem eq_zero_iff_of_fit {v : Word} (h : Width.narrow.fit v = v) :
    v = 0 ↔ v.setWidth 16 = 0 := by
  constructor
  · rintro rfl
    rfl
  · intro low
    rw [← h, Width.fit, low]
    rfl

theorem setWidth_fit (w : Width) (v : Word) : (w.fit v).setWidth 16 = v.setWidth 16 := by
  cases w with
  | narrow => exact Width.setWidth_signExtend _
  | wide => rfl

theorem setWidth_sub (a b : Word) : (a - b).setWidth 16 = a.setWidth 16 - b.setWidth 16 := by
  rw [BitVec.sub_eq_add_neg, BitVec.setWidth_add _ _ (by omega),
    BitVec.setWidth_neg_of_le (by omega), BitVec.sub_eq_add_neg]

theorem shiftCount_eq (b : Word) : shiftCount b = (b.setWidth 16).toNat % 32 := by
  rw [shiftCount, BitVec.toNat_setWidth]
  omega

theorem setWidth_shiftLeft (a b : Word) :
    (Word.shiftLeft a b).setWidth 16 = a.setWidth 16 <<< ((b.setWidth 16).toNat % 32) := by
  rw [Word.shiftLeft, BitVec.setWidth_shiftLeft_of_le (by omega), shiftCount_eq]

theorem setWidth_sshiftRight_signExtend (x : BitVec 16) (n : Nat) :
    ((x.signExtend 32).sshiftRight n).setWidth 16 = x.sshiftRight n := by
  ext i hi
  rw [BitVec.getElem_setWidth, BitVec.getLsbD_sshiftRight, BitVec.getElem_sshiftRight]
  simp only [BitVec.getLsbD_signExtend, BitVec.msb_signExtend]
  grind

theorem setWidth_shiftRight {a : Word} (h : Width.narrow.fit a = a) (b : Word) :
    (Word.shiftRight a b).setWidth 16 =
      (a.setWidth 16).sshiftRight ((b.setWidth 16).toNat % 32) := by
  rw [Word.shiftRight, shiftCount_eq, ← setWidth_sshiftRight_signExtend]
  conv => lhs; rw [← h]
  rfl

end ToyMachine
