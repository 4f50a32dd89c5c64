import ToyMachine.Memory

/-! Reads and writes by address. An address that the width has names one cell, so a read
of it is a `get` and a write a `set`; the console is such an address in either width.

Byte `k` belongs to cell `k / cellBytes` of a view, if the view reaches that far, and a
store changes no byte of another cell. The wide view reaches all bytes, so its cells
determine the memory. -/

namespace ToyMachine

theorem Width.cell?_eq {w : Width} {address : Nat} (h : address < w.cells) :
    w.cell? address = .ok ⟨address, h⟩ := by
  rw [Width.cell?, dif_pos h]

namespace Memory

theorem read_eq (m : Memory) {w : Width} {address : Address} (h : address.toNat < w.cells) :
    m.read w address = .ok (m.get w ⟨address.toNat, h⟩) := by
  rw [read, Width.cell?_eq h]
  rfl

theorem write_eq (m : Memory) {w : Width} {address : Address} (h : address.toNat < w.cells)
    (v : Word) : m.write w address v = .ok (m.set w ⟨address.toNat, h⟩ v) := by
  rw [write, Width.cell?_eq h]
  rfl

theorem read_console (m : Memory) (w : Width) :
    m.read w w.consoleAddress = .ok (m.get w w.consoleCell) :=
  m.read_eq w.consoleAddress_lt

theorem read_ok {m : Memory} {w : Width} {address : Address} {v : Word}
    (h : m.read w address = .ok v) :
    ∃ bound : address.toNat < w.cells, m.get w ⟨address.toNat, bound⟩ = v := by
  by_cases bound : address.toNat < w.cells
  · rw [m.read_eq bound, Except.ok.injEq] at h
    exact ⟨bound, h⟩
  · rw [read, Width.cell?, dif_neg bound] at h
    exact absurd h (by simp [Except.map])

theorem write_ok {m m' : Memory} {w : Width} {address : Address} {v : Word}
    (h : m.write w address v = .ok m') :
    ∃ bound : address.toNat < w.cells, m' = m.set w ⟨address.toNat, bound⟩ v := by
  by_cases bound : address.toNat < w.cells
  · rw [m.write_eq bound, Except.ok.injEq] at h
    exact ⟨bound, h.symm⟩
  · rw [write, Width.cell?, dif_neg bound] at h
    exact absurd h (by simp [Except.map])

theorem read_error {m : Memory} {w : Width} {address : Address} {e : OutOfRange}
    (h : m.read w address = .error e) : e.address = address.toNat := by
  by_cases bound : address.toNat < w.cells
  · rw [m.read_eq bound] at h
    exact absurd h (by simp)
  · rw [read, Width.cell?, dif_neg bound, Except.map, Except.error.injEq] at h
    exact h ▸ rfl

/-- The same bytes everywhere, but for those of one cell. -/
def SameOutside (w : Width) (c : w.Cell) (m m' : Memory) : Prop :=
  ∀ (k : Nat) (h : k < 0x40000), k / w.cellBytes ≠ c.val → m'.bytes[k] = m.bytes[k]

theorem SameOutside.refl (w : Width) (c : w.Cell) (m : Memory) : m.SameOutside w c m :=
  fun _ _ _ => rfl

theorem bytes_setHalf_of_ne (m : Memory) {offset k : Nat} (h : offset + 1 < 0x40000)
    (hk : k < 0x40000) (v : BitVec 16) (low : k ≠ offset) (high : k ≠ offset + 1) :
    (m.setHalf offset h v).bytes[k] = m.bytes[k] := by
  simp only [setHalf]
  rw [Vector.getElem_set_ne _ _ (by omega), Vector.getElem_set_ne _ _ (by omega)]

theorem set_sameOutside (m : Memory) (w : Width) (c : w.Cell) (v : Word) :
    m.SameOutside w c (m.set w c v) := by
  intro k h outside
  cases w with
  | narrow =>
    simp only [Width.cellBytes] at outside
    exact bytes_setHalf_of_ne _ _ h _ (by omega) (by omega)
  | wide =>
    simp only [Width.cellBytes] at outside
    simp only [set]
    rw [bytes_setHalf_of_ne _ _ h _ (by omega) (by omega),
      bytes_setHalf_of_ne _ _ h _ (by omega) (by omega)]

theorem get_congr {m m' : Memory} {w : Width} {c : w.Cell}
    (same : ∀ (k : Nat) (h : k < 0x40000), k / w.cellBytes = c.val → m'.bytes[k] = m.bytes[k]) :
    m'.get w c = m.get w c := by
  cases w with
  | narrow =>
    have bound : c.val < 0x100 := c.isLt
    simp only [Width.cellBytes] at same
    simp only [get, half]
    rw [same (2 * c.val) (by omega) (by omega), same (2 * c.val + 1) (by omega) (by omega)]
  | wide =>
    have bound : c.val < 0x10000 := c.isLt
    simp only [Width.cellBytes] at same
    simp only [get, half]
    rw [same (4 * c.val) (by omega) (by omega), same (4 * c.val + 1) (by omega) (by omega),
      same (4 * c.val + 2) (by omega) (by omega), same (4 * c.val + 2 + 1) (by omega) (by omega)]

theorem append_inj {v w : Nat} {x x' : BitVec v} {y y' : BitVec w} (h : x ++ y = x' ++ y') :
    x = x' ∧ y = y' := by
  constructor
  · rw [← BitVec.extractLsb'_append_eq_left (a := x), h, BitVec.extractLsb'_append_eq_left]
  · rw [← BitVec.extractLsb'_append_eq_right (b := y), h, BitVec.extractLsb'_append_eq_right]

section Determined

variable {m m' : Memory}

theorem bytes_of_half {offset : Nat} {h : offset + 1 < 0x40000} (low : offset < 0x40000)
    (same : m.half offset h = m'.half offset h) :
    m.bytes[offset] = m'.bytes[offset] ∧ m.bytes[offset + 1] = m'.bytes[offset + 1] :=
  (append_inj same).symm

theorem bytes_of_get_wide {c : Width.wide.Cell} (same : m.get .wide c = m'.get .wide c)
    {k : Nat} (h : k < 0x40000) (inside : k / 4 = c.val) : m.bytes[k] = m'.bytes[k] := by
  obtain ⟨upper, lower⟩ := append_inj same
  obtain ⟨first, second⟩ := bytes_of_half (by omega) lower
  obtain ⟨third, fourth⟩ := bytes_of_half (by omega) upper
  obtain rfl | rfl | rfl | rfl :
    k = 4 * c.val ∨ k = 4 * c.val + 1 ∨ k = 4 * c.val + 2 ∨ k = 4 * c.val + 2 + 1 := by omega
  · exact first
  · exact second
  · exact third
  · exact fourth

theorem eq_of_bytes (same : ∀ (k : Nat) (h : k < 0x40000), m.bytes[k] = m'.bytes[k]) :
    m = m' := by
  cases m
  cases m'
  exact congrArg _ (Vector.ext same)

theorem eq_of_get_wide (same : ∀ c, m.get .wide c = m'.get .wide c) : m = m' := by
  apply eq_of_bytes
  intro k h
  have cell : k / 4 < Width.wide.cells := by
    change k / 4 < 0x10000
    omega
  exact bytes_of_get_wide (same ⟨k / 4, cell⟩) h rfl

end Determined

def holding (words : List (BitVec 8 × Word)) : Memory :=
  words.foldl (fun m p => m.set .narrow p.1.toFin p.2) .zeroed

end Memory

end ToyMachine
