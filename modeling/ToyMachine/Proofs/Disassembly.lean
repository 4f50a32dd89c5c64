import ToyMachine.Instruction.Basic
import ToyMachine.Machine.Execute
import ToyMachine.Proofs.Digits
import ToyMachine.Proofs.Operand

/-! The text of an instruction says all that the instruction does. From the text one gets back
the opcode, which is its first three letters, and the operands that the format shows; and those
are the operands that carrying the instruction out looks at. So whatever else is in the word,
under the operands that are left out or above the low sixteen bits, has no effect. -/

namespace ToyMachine

open Text

theorem Text.append_inj {a b c d : String} (same : a ++ b = c ++ d)
    (length : a.length = c.length) : a = c ∧ b = d := by
  have lists : a.toList ++ b.toList = c.toList ++ d.toList := by
    rw [← String.toList_append, ← String.toList_append, same]
  rw [← String.length_toList, ← String.length_toList] at length
  obtain ⟨front, behind⟩ := List.append_inj lists length
  exact ⟨String.toList_inj.mp front, String.toList_inj.mp behind⟩

theorem Text.listed_inj {a b c d : String} (same : a ++ ", " ++ b = c ++ ", " ++ d)
    (length : a.length = c.length) : a = c ∧ b = d := by
  rw [String.append_assoc, String.append_assoc] at same
  obtain ⟨front, behind⟩ := Text.append_inj same length
  exact ⟨front, (String.append_right_inj _).mp behind⟩

theorem registerName_eq {r : Nat} (bound : r < 16) :
    registerName r = "R[" ++ String.ofList (Hex.fixed 1 r) ++ "]" := by
  rw [registerName, Hex.number, Hex.padded_eq Nat.one_pos bound]

theorem length_registerName {r : Nat} (bound : r < 16) : (registerName r).length = 4 := by
  simp only [registerName_eq bound, String.length_append, String.length_ofList, Hex.fixed_length]
  rfl

theorem registerName_inj {r r' : Nat} (bound : r < 16) (bound' : r' < 16)
    (same : registerName r = registerName r') : r = r' := by
  rw [registerName_eq bound, registerName_eq bound', String.append_left_inj,
    String.append_right_inj, String.ofList_inj] at same
  exact Hex.fixed_inj bound bound' same

theorem operandName_inj {a b : BitVec 8} (bound : a.toNat < 16) (bound' : b.toNat < 16)
    (same : registerName a.toNat = registerName b.toNat) : b = a :=
  (BitVec.eq_of_toNat_eq (registerName_inj bound bound' same)).symm

theorem Width.addressHex_inj {a a' : Address} (bound : a.toNat < 0x100) (bound' : a'.toNat < 0x100)
    (same : Width.narrow.addressHex a = Width.narrow.addressHex a') : a = a' := by
  rw [addressHex_eq bound, addressHex_eq bound', String.ofList_inj] at same
  exact BitVec.eq_of_toNat_eq (Hex.fixed_inj bound bound' same)

namespace Opcode

theorem length_mnemonic (o : Opcode) : o.mnemonic.length = 3 := by cases o <;> rfl

theorem mnemonic_ofCode_inj :
    ∀ c c' : BitVec 4, (ofCode c).mnemonic = (ofCode c').mnemonic → c = c' := by decide

theorem mnemonic_inj {o o' : Opcode} (same : o.mnemonic = o'.mnemonic) : o = o' := by
  rw [← ofCode_code o, ← ofCode_code o'] at same ⊢
  exact congrArg ofCode (mnemonic_ofCode_inj _ _ same)

end Opcode

namespace Instruction

def details (i : Instruction) : String :=
  if i.switchesWidth then " (switch width)" else i.operands

theorem opcode_of_switchesWidth {i : Instruction} (switches : i.switchesWidth = true) :
    i.opcode = .halt := by
  rw [switchesWidth, Bool.and_eq_true, beq_iff_eq] at switches
  exact switches.1

theorem switchesWidth_of_ne {i : Instruction} (other : i.opcode ≠ .halt) :
    i.switchesWidth = false :=
  Bool.eq_false_iff.mpr fun switches => other (opcode_of_switchesWidth switches)

theorem text_eq (i : Instruction) : i.text = i.opcode.mnemonic ++ i.details := by
  rw [text, details]
  split
  · next switches =>
    rw [opcode_of_switchesWidth switches]
    rfl
  · rfl

def SameOperands (i j : Instruction) : Format → Prop
  | .bare => True
  | .target => j.d = i.d
  | .targetThird => j.d = i.d ∧ j.t = i.t
  | .three => j.d = i.d ∧ j.s = i.s ∧ j.t = i.t
  | .targetAddress => j.d = i.d ∧ j.address = i.address

structure SameShown (i j : Instruction) : Prop where
  opcode : j.opcode = i.opcode
  switches : j.switchesWidth = i.switchesWidth
  operands : i.SameOperands j i.opcode.format

section Shown

variable {i j : Instruction}

theorem Decoded.target_lt (decoded : i.Decoded) : i.d.toNat < 16 :=
  decoded.target_val ▸ i.target.isLt

theorem Decoded.second_lt (decoded : i.Decoded) : i.s.toNat < 16 :=
  decoded.second_val ▸ i.second.isLt

theorem Decoded.third_lt (decoded : i.Decoded) : i.t.toNat < 16 :=
  decoded.third_val ▸ i.third.isLt

theorem sameOperands_of_operands (decoded : i.Decoded) (decoded' : j.Decoded)
    (opcode : j.opcode = i.opcode) (same : i.operands = j.operands) :
    i.SameOperands j i.opcode.format := by
  have target (same : " " ++ i.targetName = " " ++ j.targetName) : j.d = i.d :=
    operandName_inj decoded.target_lt decoded'.target_lt ((String.append_right_inj _).mp same)
  have first : (" " ++ i.targetName).length = (" " ++ j.targetName).length := by
    rw [String.length_append, String.length_append, targetName, targetName,
      length_registerName decoded.target_lt, length_registerName decoded'.target_lt]
  rw [operands, operands, opcode] at same
  cases format : i.opcode.format with
  | bare => trivial
  | target =>
    simp only [format] at same
    exact target same
  | targetThird =>
    simp only [format] at same
    obtain ⟨front, third⟩ := Text.listed_inj same first
    exact ⟨target front, operandName_inj decoded.third_lt decoded'.third_lt third⟩
  | three =>
    simp only [format] at same
    have both : (" " ++ i.targetName ++ ", " ++ i.secondName).length =
        (" " ++ j.targetName ++ ", " ++ j.secondName).length := by
      simp only [String.length_append, secondName, targetName,
        length_registerName decoded.target_lt, length_registerName decoded'.target_lt,
        length_registerName decoded.second_lt, length_registerName decoded'.second_lt]
    obtain ⟨front, third⟩ := Text.listed_inj same both
    obtain ⟨front, second⟩ := Text.listed_inj front first
    exact ⟨target front, operandName_inj decoded.second_lt decoded'.second_lt second,
      operandName_inj decoded.third_lt decoded'.third_lt third⟩
  | targetAddress =>
    simp only [format] at same
    obtain ⟨front, address⟩ := Text.listed_inj same first
    have named := Width.addressHex_inj (decoded.address_lt .narrow) (decoded'.address_lt .narrow)
      address
    exact ⟨target front, named.symm⟩

theorem sameShown_of_text (decoded : i.Decoded) (decoded' : j.Decoded) (same : i.text = j.text) :
    i.SameShown j := by
  rw [text_eq, text_eq] at same
  obtain ⟨mnemonic, details⟩ := Text.append_inj same
    ((Opcode.length_mnemonic _).trans (Opcode.length_mnemonic _).symm)
  have opcode := (Opcode.mnemonic_inj mnemonic).symm
  rw [Instruction.details, Instruction.details] at details
  by_cases code : i.opcode = .halt
  · -- Of the two texts of a halt only one has something behind the mnemonic.
    have none : i.operands = "" := by rw [operands, code]; rfl
    have none' : j.operands = "" := by rw [operands, opcode, code]; rfl
    rw [none, none'] at details
    refine ⟨opcode, ?_, code ▸ trivial⟩
    cases switches : i.switchesWidth <;> cases switches' : j.switchesWidth <;>
      simp_all
  · rw [switchesWidth_of_ne code, switchesWidth_of_ne (opcode ▸ code)] at details
    refine ⟨opcode, ?_, sameOperands_of_operands decoded decoded' opcode details⟩
    rw [switchesWidth_of_ne code, switchesWidth_of_ne (opcode ▸ code)]

theorem text_of_sameShown (h : i.SameShown j) : i.text = j.text := by
  obtain ⟨opcode, switches, same⟩ := h
  have operands : j.operands = i.operands := by
    rw [Instruction.operands, Instruction.operands, opcode]
    cases format : i.opcode.format <;>
      simp only [format, SameOperands] at same <;>
      simp only [targetName, secondName, thirdName, same]
  rw [text_eq, text_eq, details, details, opcode, switches, operands]

theorem text_eq_iff (decoded : i.Decoded) (decoded' : j.Decoded) :
    i.text = j.text ↔ i.SameShown j :=
  ⟨sameShown_of_text decoded decoded', text_of_sameShown⟩

end Shown

end Instruction

namespace Machine

theorem execute_of_sameShown {i j : Instruction} (h : i.SameShown j) : execute j = execute i := by
  obtain ⟨opcode, switches, operands⟩ := h
  unfold execute
  rw [opcode]
  cases code : i.opcode with
  | halt =>
    dsimp only
    rw [switches]
  | add | sub | and | xor | shiftLeft | shiftRight =>
    simp only [code, Opcode.format, Instruction.SameOperands] at operands
    obtain ⟨d, s, t⟩ := operands
    simp only [arithmetic, d, s, t]
  | loadIndirect | storeIndirect =>
    simp only [code, Opcode.format, Instruction.SameOperands] at operands
    obtain ⟨d, t⟩ := operands
    simp only [d, t]
  | jump =>
    simp only [code, Opcode.format, Instruction.SameOperands] at operands
    simp only [operands]
  | loadAddress | load | store | branchZero | branchPositive | call =>
    simp only [code, Opcode.format, Instruction.SameOperands] at operands
    obtain ⟨d, address⟩ := operands
    simp only [d, address]

/-- Two words that a width reads as instructions have the same text if they differ in nothing
that is shown. Then they do the same from every machine: they end alike, and leave the same
processor with its marks, the same memory, the same input and the same transcript. -/
theorem execute_of_text {w : Width} {word word' : Word} {i j : Instruction}
    (known : Instruction.decode w word = .ok i) (known' : Instruction.decode w word' = .ok j) :
    (i.text = j.text ↔ i.SameShown j) ∧ (i.text = j.text → ∀ m, execute j m = execute i m) := by
  have decoded := (Instruction.decode_ok known).1
  have decoded' := (Instruction.decode_ok known').1
  refine ⟨Instruction.text_eq_iff decoded decoded', fun same m => ?_⟩
  rw [execute_of_sameShown (Instruction.sameShown_of_text decoded decoded' same)]

/-- A word with bits above the low sixteen and with a second operand, which a load through a
register does not use. -/
theorem execute_of_text_unused :
    let i := Instruction.ofWord .loadIndirect 0xAA1B
    let j := Instruction.ofWord .loadIndirect 0x7AA2B
    Instruction.decode .narrow 0xAA1B = .ok i ∧ Instruction.decode .narrow 0x7AA2B = .ok j ∧
      i.text = "ldi R[A], R[B]" ∧ i.s ≠ j.s ∧ ∀ m, execute j m = execute i m := by
  intro i j
  have known : Instruction.decode .narrow 0xAA1B = .ok i := by decide
  have known' : Instruction.decode .narrow 0x7AA2B = .ok j := by decide
  have same : i.text = j.text := by decide
  exact ⟨known, known', by decide, by decide, (execute_of_text known known').2 same⟩

end Machine

end ToyMachine
