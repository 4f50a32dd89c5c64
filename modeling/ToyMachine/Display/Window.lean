import ToyMachine.Memory

/-!
Windows: the stretch of memory that is shown around a cell. It has as many cells
on either side as are asked for, is moved where it would leave the memory, and is
all of the memory that can be shown when it is too long for that. The narrow
console cell, at the very top of its view, is never shown.
-/

namespace ToyMachine

def Width.windowTop : Width → Nat
  | .narrow => Width.narrow.consoleAddress.toNat - 1
  | .wide => Width.wide.lastAddress

theorem Width.windowTop_lt (w : Width) : w.windowTop < w.cells := by
  cases w <;> decide

/-- Cells `first` to `last`, both included. -/
structure Window (w : Width) where
  first : Nat
  last : Nat
  first_le_last : first ≤ last
  last_lt : last < w.cells

namespace Window

def around (w : Width) (centre : Address) (half : Nat) : Window w :=
  have top := w.windowTop_lt
  if long : w.windowTop ≤ 2 * half then ⟨0, w.windowTop, by omega, top⟩
  else if high : w.windowTop < centre.toNat - half + 2 * half then
    ⟨w.windowTop - 2 * half, w.windowTop, by omega, top⟩
  else ⟨centre.toNat - half, centre.toNat - half + 2 * half, by omega, by omega⟩

variable {w : Width}

def length (window : Window w) : Nat :=
  window.last - window.first + 1

def cell (window : Window w) (i : Fin window.length) : w.Cell :=
  ⟨window.first + i.val, by
    have := i.isLt
    have := window.first_le_last
    have := window.last_lt
    simp only [length] at *
    omega⟩

def cells (window : Window w) : List w.Cell :=
  List.ofFn window.cell

theorem cells_length (window : Window w) : window.cells.length = window.length := by
  simp [cells]

end Window

end ToyMachine
