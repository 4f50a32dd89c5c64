import ToyMachine.Proofs.Digits
import ToyMachine.Proofs.Display.Terminal
import ToyMachine.Proofs.Memory
import ToyMachine.Proofs.Text.Numeral

/-! The tables of the display as they are shown. A label and the value below it are of one length
with their leads, in either width and whether they are first in their row or not, so that they end
at one column; and the labels of a window name its cells one after another, with the words of
these cells below. -/

namespace ToyMachine

open Text (Hex.IsDigit Hex.fixed)

section Digits

theorem isDigit_of_mem_fixed {k n : Nat} {c : Char} (h : c ∈ Hex.fixed k n) : Hex.IsDigit c := by
  have positive : 0 < k := by
    rw [← Text.Hex.fixed_length k n]
    exact List.length_pos_of_mem h
  have read := Text.Hex.read?_fixed positive n
  exact ((Text.Hex.read?_eq_some_iff _ _).mp read).2.1 c h

namespace Width

theorem length_hex (w : Width) (v : Word) : (w.hex v).length = w.wordDigits := by
  rw [hex, String.length_ofList, Text.Hex.fixed_length]

theorem length_addressHex {w : Width} {address : Address} (bound : address.toNat < w.cells) :
    (w.addressHex address).length = w.addressDigits := by
  rw [addressHex_eq bound, String.length_ofList, Text.Hex.fixed_length]

end Width

end Digits

namespace Display

theorem toNat_cellAddress {w : Width} (c : w.Cell) : (cellAddress c).toNat = c.val := by
  have bound := c.isLt
  have cells := w.cells_le
  rw [cellAddress, BitVec.toNat_ofNat]
  omega

theorem cellAddress_lt {w : Width} (c : w.Cell) : (cellAddress c).toNat < w.cells := by
  rw [toNat_cellAddress]
  exact c.isLt

end Display

namespace Window

variable {w : Width}

def addresses (window : Window w) : List Address :=
  (List.range' window.first (window.last + 1 - window.first)).map (BitVec.ofNat 16)

theorem map_cellAddress (window : Window w) :
    window.cells.map Display.cellAddress = window.addresses := by
  have size := window.first_le_last
  apply List.ext_getElem
  · rw [List.length_map, window.cells_length, addresses, List.length_map, List.length_range',
      length]
    omega
  · intro i _ _
    simp [cells, addresses, Display.cellAddress, cell]

end Window

namespace Display

section Solid

theorem Solid.append {a b : String} (first : Solid a) (second : Solid b) : Solid (a ++ b) := by
  intro c member
  rw [String.toList_append, List.mem_append] at member
  rcases member with member | member
  · exact first c member
  · exact second c member

theorem solid_fixed (k n : Nat) : Solid (String.ofList (Hex.fixed k n)) := by
  intro c member
  rw [String.toList_ofList] at member
  have digit := isDigit_of_mem_fixed member
  simp only [Hex.IsDigit, Text.Hex.le_iff_toNat_le, Char.reduceToNat] at digit
  refine ⟨?_, ?_⟩
  · change 0x20 < c.toNat
    omega
  · rintro rfl
    simp only [Char.reduceToNat] at digit
    omega

end Solid

section Windows

variable (cpu : Processor) (memory : Memory) (first : Nat) (c : cpu.width.Cell)

theorem printable_cellLabel : (cellLabel cpu first c).Printable where
  separates := by
    rw [cellLabel]
    dsimp only
    split <;> decide
  solid := .append (.append (by decide) (solid_fixed _ _)) (by decide)

theorem printable_cellValue : (cellValue cpu memory first c).Printable where
  separates := by
    rw [cellValue]
    dsimp only
    split <;> decide
  solid := solid_fixed _ _

theorem length_cell : (cellLabel cpu first c).visible.length =
    (cellValue cpu memory first c).visible.length := by
  have address : (cpu.width.addressHex (cellAddress c)).length = cpu.width.addressDigits :=
    Width.length_addressHex (cellAddress_lt c)
  have word := cpu.width.length_hex (memory.get cpu.width c)
  simp only [Entry.visible, cellLabel, cellValue, String.length_append, address, word]
  generalize decide (c.val = first) = start
  generalize cpu.width = w
  cases w <;> cases start <;> decide

end Windows

section Rows

variable (cpu : Processor) (memory : Memory) (shown : Window cpu.width)

theorem printable_windowLabels : ∀ e ∈ windowLabels cpu shown, e.Printable := by
  intro e member
  obtain ⟨c, -, rfl⟩ := List.mem_map.mp member
  exact printable_cellLabel cpu shown.first c

theorem printable_windowValues : ∀ e ∈ windowValues cpu memory shown, e.Printable := by
  intro e member
  obtain ⟨c, -, rfl⟩ := List.mem_map.mp member
  exact printable_cellValue cpu memory shown.first c

theorem table_window : Table ((windowLabels cpu shown).line ++ (windowValues cpu memory shown).line)
    ((windowLabels cpu shown).marks 0) ((windowValues cpu memory shown).marks 0) := by
  apply table_of_rows (printable_windowLabels cpu shown) (printable_windowValues cpu memory shown)
  simp only [windowLabels, windowValues, List.map_map]
  exact List.map_congr_left fun c _ => length_cell cpu memory shown.first c

theorem shown_windowLabels (column : Nat) :
    ((windowLabels cpu shown).marks column).map Mark.shown = shown.addresses.map fun address =>
      ("M[" ++ String.ofList (Hex.fixed cpu.width.addressDigits address.toNat) ++ "]",
        cpu.cellColour address) := by
  rw [Row.shown_marks, windowLabels, ← shown.map_cellAddress, List.map_map, List.map_map]
  apply List.map_congr_left
  intro c _
  simp only [Function.comp_apply, cellLabel, Width.addressHex_eq (cellAddress_lt c)]

theorem shown_windowValues (column : Nat) :
    List.Forall₂ (fun address mark => ∃ v, memory.read cpu.width address = .ok v ∧
        mark.shown = (cpu.width.hex v, cpu.cellColour address))
      shown.addresses ((windowValues cpu memory shown).marks column) := by
  rw [← shown.map_cellAddress, List.forall₂_map_left_iff, windowValues]
  apply Row.forall₂_marks
  intro c _ stop
  have same : (⟨(cellAddress c).toNat, cellAddress_lt c⟩ : cpu.width.Cell) = c :=
    Fin.ext (toNat_cellAddress c)
  refine ⟨memory.get cpu.width c, ?_, rfl⟩
  rw [memory.read_eq (cellAddress_lt c), same]

end Rows

section Registers

def registerDigits : Width → Nat
  | .narrow => 1
  | .wide => 2

def registerTitle (w : Width) (register : Fin 16) : String :=
  "R[" ++ String.ofList (Hex.fixed (registerDigits w) register.val) ++ "]"

variable (cpu : Processor) (register : Fin 16)

theorem padded_register (w : Width) :
    Text.Hex.padded (registerDigits w) register.val =
      Hex.fixed (registerDigits w) register.val := by
  have bound := register.isLt
  apply Text.Hex.padded_eq
  · cases w <;> decide
  · cases w <;> simp only [registerDigits] <;> omega

theorem registerLabel_eq : registerLabel cpu register =
    ⟨match cpu.width with
      | .narrow => ", "
      | .wide => ",    ", cpu.registerColour register, registerTitle cpu.width register⟩ := by
  have digits := padded_register register cpu.width
  rw [registerTitle, ← digits, registerLabel]
  cases cpu.width <;> rfl

theorem printable_registerLabel : (registerLabel cpu register).Printable := by
  rw [registerLabel_eq]
  refine ⟨?_, .append (.append (by decide) (solid_fixed _ _)) (by decide)⟩
  dsimp only
  split <;> decide

theorem printable_registerValue : (registerValue cpu register).Printable where
  separates := (by decide : Separates ", ")
  solid := solid_fixed _ _

theorem printable_pcLabel : (pcLabel cpu).Printable where
  separates := by
    rw [pcLabel]
    dsimp only
    split <;> decide
  solid := (by decide : Solid "PC")

theorem printable_pcValue : (pcValue cpu).Printable where
  separates := (by decide : Separates "    ")
  solid := solid_fixed _ _

theorem length_register : (registerLabel cpu register).visible.length =
    (registerValue cpu register).visible.length := by
  have word := cpu.width.length_hex (cpu.registers.get register)
  rw [registerLabel_eq]
  simp only [Entry.visible, registerValue, registerTitle, String.length_append, word,
    String.length_ofList, Text.Hex.fixed_length]
  cases cpu.width <;> decide

theorem length_pc (bound : cpu.pc.toNat < cpu.width.cells) :
    (pcLabel cpu).visible.length = (pcValue cpu).visible.length := by
  have address := Width.length_addressHex bound
  simp only [Entry.visible, pcLabel, pcValue, String.length_append, address]
  cases cpu.width <;> decide

theorem printable_registerLabels : ∀ e ∈ registerLabels cpu, e.Printable := by
  rw [registerLabels, List.forall_mem_cons]
  refine ⟨printable_pcLabel cpu, fun e member => ?_⟩
  obtain ⟨register, -, rfl⟩ := List.mem_map.mp member
  exact printable_registerLabel cpu register

theorem printable_registerValues : ∀ e ∈ registerValues cpu, e.Printable := by
  rw [registerValues, List.forall_mem_cons]
  refine ⟨printable_pcValue cpu, fun e member => ?_⟩
  obtain ⟨register, -, rfl⟩ := List.mem_map.mp member
  exact printable_registerValue cpu register

theorem table_registers (bound : cpu.pc.toNat < cpu.width.cells) :
    Table (registers cpu) ((registerLabels cpu).marks 0) ((registerValues cpu).marks 0) := by
  apply table_of_rows (printable_registerLabels cpu) (printable_registerValues cpu)
  rw [registerLabels, registerValues, List.map_cons, List.map_cons, length_pc cpu bound,
    List.map_map, List.map_map]
  exact congrArg _ (List.map_congr_left fun register _ => length_register cpu register)

end Registers

/-- A window is shown as two lines: the addresses of its cells in order, and below each of them the
word of the cell, in the colour of the cell and ending at the same column. The registers are shown
so as well, if the program counter has no more digits than the width: its name and those of the
registers, and below each of them its value in the same colour. -/
theorem tables_aligned (cpu : Processor) (memory : Memory) (centre : Address) (half : Nat) :
    let addresses := (Window.around cpu.width centre half).addresses
    (∃ labels values, Table (window cpu memory centre half) labels values ∧
      (labels.map Mark.shown = addresses.map fun address =>
        ("M[" ++ String.ofList (Hex.fixed cpu.width.addressDigits address.toNat) ++ "]",
          cpu.cellColour address)) ∧
      List.Forall₂ (fun address mark => ∃ v, memory.read cpu.width address = .ok v ∧
        mark.shown = (cpu.width.hex v, cpu.cellColour address)) addresses values) ∧
    (cpu.pc.toNat ≤ cpu.width.lastAddress →
      ∃ labels values, Table (registers cpu) labels values ∧
        (labels.map Mark.shown = ("PC", cpu.pcColour) :: (List.finRange 16).map fun i =>
          (registerTitle cpu.width i, (cpu.access.category i).colour)) ∧
        values.map Mark.shown =
          (String.ofList (Hex.fixed cpu.width.addressDigits cpu.pc.toNat), cpu.pcColour) ::
            (List.finRange 16).map fun i =>
              (cpu.width.hex (cpu.registers.get i), (cpu.access.category i).colour)) := by
  intro addresses
  refine ⟨?_, fun inside => ?_⟩
  · let shown := Window.around cpu.width centre half
    exact ⟨_, _, table_window cpu memory shown, shown_windowLabels cpu shown 0,
      shown_windowValues cpu memory shown 0⟩
  · have bound : cpu.pc.toNat < cpu.width.cells :=
      Nat.lt_of_le_of_lt inside cpu.width.lastAddress_lt
    refine ⟨_, _, table_registers cpu bound, ?_, ?_⟩
    · rw [Row.shown_marks, registerLabels, List.map_cons, List.map_map]
      refine congrArg _ (List.map_congr_left fun register _ => ?_)
      rw [Function.comp_apply, registerLabel_eq]
      rfl
    · rw [Row.shown_marks, registerValues, List.map_cons, List.map_map, pcValue,
        Width.addressHex_eq bound]
      rfl

/-- A wide processor at the last cell that has just written -2 to a register. -/
def atLastCell : Processor where
  width := .wide
  pc := 0xFFFF
  oldPc := 0xFFFF
  registers := (Vector.replicate 16 0).set 3 (-2)
  access := { written := some 3 }

theorem tables_aligned_written :
    ∃ labels values, Table (registers atLastCell) labels values ∧
      (labels.map Mark.shown)[4]? = some ("R[03]", .red) ∧
      (values.map Mark.shown)[4]? = some ("FFFFFFFE", .red) := by
  obtain ⟨labels, values, table, named, valued⟩ :=
    (tables_aligned atLastCell .zeroed 0 6).2 (by decide)
  refine ⟨labels, values, table, ?_, ?_⟩
  · rw [named]
    decide
  · rw [valued]
    decide

end Display

end ToyMachine
