import ToyMachine.Text.Hex

/-!
Word widths. The machine computes on 32-bit words at all times; a width says how
many low bits of a word a register or a memory cell keeps, how many cells there
are, which of them is the operator's console, and how words and addresses are
written. A word that has been cut to the narrow width is sign-extended, so that
one signed reading serves both widths.
-/

namespace ToyMachine

/-- A register or memory value, sign-extended from the width in force. -/
abbrev Word := BitVec 32

/-- The number of a cell, of which a narrow memory has only the low 256. -/
abbrev Address := BitVec 16

inductive Width where
  | narrow
  | wide
deriving DecidableEq, Repr

namespace Width

def bits : Width → Nat
  | narrow => 16
  | wide => 32

def cells : Width → Nat
  | narrow => 0x100
  | wide => 0x10000

def cellBytes : Width → Nat
  | narrow => 2
  | wide => 4

def lastAddress (w : Width) : Nat :=
  w.cells - 1

/-- The cell that is the operator's console. No formula gives it. -/
def consoleAddress : Width → Address
  | narrow => 0xFF
  | wide => 0x7F

def wordDigits : Width → Nat
  | narrow => 4
  | wide => 8

def addressDigits : Width → Nat
  | narrow => 2
  | wide => 4

def other : Width → Width
  | narrow => wide
  | wide => narrow

def name : Width → String
  | narrow => "16-bit"
  | wide => "32-bit"

/-- Keeps the low bits and extends their sign. -/
def fit : Width → Word → Word
  | narrow, v => (v.setWidth 16).signExtend 32
  | wide, v => v

def pattern : Width → Word → Word
  | narrow, v => (v.setWidth 16).setWidth 32
  | wide, v => v

def wrap : Width → Word → Address
  | narrow, v => (v.setWidth 8).setWidth 16
  | wide, v => v.setWidth 16

def hex (w : Width) (v : Word) : String :=
  String.ofList (Text.Hex.fixed w.wordDigits (w.pattern v).toNat)

/-- An address with the digits of the width, or more where it does not fit into those. -/
def addressHex (w : Width) (address : Address) : String :=
  String.ofList (Text.Hex.padded w.addressDigits address.toNat)

theorem lastAddress_lt (w : Width) : w.lastAddress < w.cells := by cases w <;> decide

theorem cells_le (w : Width) : w.cells ≤ 0x10000 := by cases w <;> decide

@[simp] theorem other_other (w : Width) : w.other.other = w := by cases w <;> rfl

theorem consoleAddress_lt (w : Width) : w.consoleAddress.toNat < w.cells := by
  cases w <;> decide

theorem setWidth_signExtend (x : BitVec 16) : (x.signExtend 32).setWidth 16 = x := by
  ext i hi
  simp only [BitVec.getElem_setWidth, BitVec.getLsbD_signExtend, BitVec.getLsbD_eq_getElem hi, hi]
  simp [show i < 32 by omega]

@[simp] theorem fit_fit (w : Width) (v : Word) : w.fit (w.fit v) = w.fit v := by
  cases w
  · rw [fit, fit, setWidth_signExtend]
  · rfl

theorem wrap_lt (w : Width) (v : Word) : (w.wrap v).toNat < w.cells := by
  cases w
  · have h := (v.setWidth 8).isLt
    simp only [wrap, cells, BitVec.toNat_setWidth] at h ⊢
    omega
  · exact (v.setWidth 16).isLt

end Width

end ToyMachine
