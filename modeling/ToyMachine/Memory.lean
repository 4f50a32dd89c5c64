import ToyMachine.Width

/-!
Memory: one row of bytes, little-endian, under two views. Cell `n` of the narrow
view is bytes `2n` and `2n+1`, cell `n` of the wide view is bytes `4n` to `4n+3`,
so the whole narrow view lies under the first 128 wide cells. A cell of a view is
an index below the number of its cells; addresses come from outside and are
checked once, by `Width.cell?`.
-/

namespace ToyMachine

structure OutOfRange where
  width : Width
  address : Nat
deriving DecidableEq, Repr

def OutOfRange.message (e : OutOfRange) : String :=
  s!"memory has no {e.width.name} address `0x" ++ Text.Hex.number e.address ++ "`"

abbrev Width.Cell (w : Width) := Fin w.cells

def Width.cell? (w : Width) (address : Nat) : Except OutOfRange w.Cell :=
  if h : address < w.cells then .ok ⟨address, h⟩ else .error ⟨w, address⟩

def Width.consoleCell (w : Width) : w.Cell :=
  ⟨w.consoleAddress.toNat, w.consoleAddress_lt⟩

structure Memory where
  bytes : Vector (BitVec 8) 0x40000
deriving DecidableEq

namespace Memory

def zeroed : Memory :=
  ⟨Vector.replicate 0x40000 0⟩

def half (m : Memory) (offset : Nat) (h : offset + 1 < 0x40000) : BitVec 16 :=
  m.bytes[offset + 1] ++ m.bytes[offset]

def setHalf (m : Memory) (offset : Nat) (h : offset + 1 < 0x40000) (v : BitVec 16) : Memory :=
  ⟨(m.bytes.set offset (v.extractLsb' 0 8)).set (offset + 1) (v.extractLsb' 8 8)⟩

def get (m : Memory) : (w : Width) → w.Cell → Word
  | .narrow, c => (m.half (2 * c.val) (by have : c.val < 0x100 := c.isLt; omega)).signExtend 32
  | .wide, c =>
    m.half (4 * c.val + 2) (by have : c.val < 0x10000 := c.isLt; omega) ++
      m.half (4 * c.val) (by have : c.val < 0x10000 := c.isLt; omega)

def set (m : Memory) : (w : Width) → w.Cell → Word → Memory
  | .narrow, c, v =>
    m.setHalf (2 * c.val) (by have : c.val < 0x100 := c.isLt; omega) (v.setWidth 16)
  | .wide, c, v =>
    (m.setHalf (4 * c.val) (by have : c.val < 0x10000 := c.isLt; omega) (v.extractLsb' 0 16)).setHalf
      (4 * c.val + 2) (by have : c.val < 0x10000 := c.isLt; omega) (v.extractLsb' 16 16)

def read (m : Memory) (w : Width) (address : Address) : Except OutOfRange Word :=
  (w.cell? address.toNat).map (m.get w)

def write (m : Memory) (w : Width) (address : Address) (v : Word) : Except OutOfRange Memory :=
  (w.cell? address.toNat).map (m.set w · v)

/-- Stores words in consecutive cells. Where the view ends too early the words that
fit are stored, and the first missing cell is reported. -/
def writeBlock (w : Width) : (address : Nat) → List Word → EStateM OutOfRange Memory Unit
  | _, [] => fun m => .ok () m
  | address, v :: vs => fun m =>
    match w.cell? address with
    | .ok c => writeBlock w (address + 1) vs (m.set w c v)
    | .error e => .error e m

def populated (m : Memory) (w : Width) : List (w.Cell × Word) :=
  (List.finRange w.cells).filterMap fun c =>
    let v := m.get w c
    if v = 0 then none else some (c, v)

def summary (m : Memory) : String :=
  s!"Memory \x7b bytes: {m.bytes.size}, populated16: {(m.populated .narrow).length} \x7d"

theorem half_setHalf (m : Memory) (offset : Nat) (h : offset + 1 < 0x40000) (v : BitVec 16) :
    (m.setHalf offset h v).half offset h = v := by
  simp only [half, setHalf, Vector.getElem_set_self]
  rw [Vector.getElem_set_ne _ _ (by omega), Vector.getElem_set_self]
  ext i hi
  simp only [BitVec.getElem_append, BitVec.getElem_extractLsb']
  split
  · simp [BitVec.getLsbD_eq_getElem hi]
  · rw [show 8 + (i - 8) = i by omega, BitVec.getLsbD_eq_getElem hi]

theorem half_setHalf_of_disjoint (m : Memory) {i j : Nat} (hi : i + 1 < 0x40000)
    (hj : j + 1 < 0x40000) (h : i + 1 < j ∨ j + 1 < i) (v : BitVec 16) :
    (m.setHalf i hi v).half j hj = m.half j hj := by
  simp only [half, setHalf]
  rw [Vector.getElem_set_ne _ _ (by omega), Vector.getElem_set_ne _ _ (by omega),
    Vector.getElem_set_ne _ _ (by omega), Vector.getElem_set_ne _ _ (by omega)]

theorem get_set_self (m : Memory) (w : Width) (c : w.Cell) (v : Word) :
    (m.set w c v).get w c = w.fit v := by
  cases w
  · simp only [get, set, half_setHalf, Width.fit]
  · simp only [get, set, Width.fit]
    rw [half_setHalf, half_setHalf_of_disjoint _ _ _ (by omega), half_setHalf]
    ext i hi
    simp only [BitVec.getElem_append, BitVec.getElem_extractLsb']
    split
    · simp [BitVec.getLsbD_eq_getElem hi]
    · rw [show 16 + (i - 16) = i by omega, BitVec.getLsbD_eq_getElem hi]

theorem get_set_of_ne (m : Memory) (w : Width) {c d : w.Cell} (h : c ≠ d) (v : Word) :
    (m.set w c v).get w d = m.get w d := by
  have h : c.val ≠ d.val := fun e => h (Fin.ext e)
  cases w
  · simp only [get, set]
    rw [half_setHalf_of_disjoint _ _ _ (by omega)]
  · simp only [get, set]
    rw [half_setHalf_of_disjoint _ _ _ (by omega), half_setHalf_of_disjoint _ _ _ (by omega),
      half_setHalf_of_disjoint _ _ _ (by omega), half_setHalf_of_disjoint _ _ _ (by omega)]

theorem get_zeroed (w : Width) (c : w.Cell) : zeroed.get w c = 0 := by
  cases w <;> simp [get, half, zeroed]

end Memory

end ToyMachine
