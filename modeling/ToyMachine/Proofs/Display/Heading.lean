import ToyMachine.Proofs.Display.Table
import ToyMachine.Proofs.Text.Words

/-! The windows that the display shows. A window stands below a line with its name; the rows of the
tables cannot be taken for such a line, because they have a change of colour in them or nothing at
all. So the names among the lines of the display tell what windows it has: one for each mark of a
cell while the machine runs, and none after a halt. -/

namespace ToyMachine

namespace Display

def heading (name : String) : String :=
  "  Memory near " ++ name ++ ":"

def Heads (name text : String) : Prop :=
  (heading name).toList ∈ Text.splitAt (· == '\n') text.toList

def Plain (name : String) : Prop := '\n' ∉ name.toList ∧ '\x1b' ∉ name.toList

instance (name : String) : Decidable (Plain name) := instDecidableAnd

section Lines

variable {name : String}

theorem heading_toList (name : String) :
    (heading name).toList = "  Memory near ".toList ++ (name.toList ++ [':']) := by
  unfold heading
  rw [String.toList_append, String.toList_append, List.append_assoc]
  rfl

theorem heading_ne_empty (name : String) : heading name ≠ "" := by
  simp [heading_toList, ← String.toList_inj]

theorem heading_inj {other : String} : heading name = heading other ↔ name = other := by
  simp [heading_toList, ← String.toList_inj]

theorem Plain.heading (plain : Plain name) : Plain (heading name) := by
  simp [Plain, heading_toList, plain.1, plain.2]

theorem heads_line {line : String} (oneLine : '\n' ∉ line.toList) (rest : String) :
    Heads name (line ++ ("\n" ++ rest)) ↔ heading name = line ∨ Heads name rest := by
  have alone : Text.splitAt (· == '\n') line.toList = [line.toList] := by
    apply Text.splitAt_of_plain
    intro c member
    simp only [beq_eq_false_iff_ne]
    exact fun newline => oneLine (newline ▸ member)
  have cut : (line ++ ("\n" ++ rest)).toList = line.toList ++ '\n' :: rest.toList := by
    simp only [String.toList_append]
    rfl
  rw [Heads, cut, Text.splitAt_append_cons (by rfl), alone, List.singleton_append, List.mem_cons,
    String.toList_inj, Heads]

theorem heads_end {line : String} (oneLine : '\n' ∉ line.toList) :
    Heads name (line ++ "\n") ↔ heading name = line := by
  have nothing : ¬ Heads name "" := by simp [Heads, Text.splitAt, heading_toList]
  have behind : Heads name (line ++ ("\n" ++ "")) ↔ heading name = line ∨ Heads name "" :=
    heads_line oneLine ""
  rwa [String.append_empty, or_iff_left nothing] at behind

theorem heads_row (plain : Plain name) {row : Row} (printable : ∀ e ∈ row, e.Printable)
    (rest : String) : Heads name (row.line ++ rest) ↔ Heads name rest := by
  have other : heading name ≠ row.tinted := by
    intro same
    cases row with
    | nil => exact heading_ne_empty name same
    | cons e row =>
      have coloured : '\x1b' ∈ (Row.tinted (e :: row)).toList := by
        rw [Row.tinted_cons]
        cases e.colour <;> simp [Colour.code]
      rw [← same] at coloured
      exact plain.heading.2 coloured
  have parts : row.line ++ rest = row.tinted ++ ("\n" ++ rest) := String.append_assoc ..
  rw [parts, heads_line (Row.oneLine printable), or_iff_right other]

end Lines

section Windows

variable {name other : String} (cpu : Processor) (memory : Memory) (half : Nat)

theorem namedWindow_eq (centre : Address) : namedWindow name cpu memory half centre =
    "\n" ++ heading name ++ "\n" ++ window cpu memory centre half := by
  have opening : "\n  Memory near " = "\n" ++ "  Memory near " := by decide
  have closing : ":\n" = ":" ++ "\n" := by decide
  unfold namedWindow heading
  simp only [-String.reduceAppend, opening, closing, String.append_assoc]

theorem heads_namedWindow (plain : Plain name) (plain' : Plain other) (centre : Address)
    (rest : String) :
    Heads name (namedWindow other cpu memory half centre ++ rest) ↔
      name = other ∨ Heads name rest := by
  let shown := Window.around cpu.width centre half
  have parts : namedWindow other cpu memory half centre ++ rest =
      "" ++ ("\n" ++ (heading other ++ ("\n" ++
        ((windowLabels cpu shown).line ++ ((windowValues cpu memory shown).line ++ rest))))) := by
    rw [namedWindow_eq, window]
    simp only [shown, String.append_assoc, String.empty_append]
  rw [parts, heads_line (by simp), or_iff_right (heading_ne_empty name),
    heads_line plain'.heading.1, heading_inj, heads_row plain (printable_windowLabels cpu shown),
    heads_row plain (printable_windowValues cpu memory shown)]

def markedWindow (name : String) (mark : Option Address) : String :=
  match mark with
  | some address => namedWindow name cpu memory half address
  | none => ""

theorem heads_markedWindow (plain : Plain name) (plain' : Plain other) (mark : Option Address)
    (rest : String) :
    Heads name (markedWindow cpu memory half other mark ++ rest) ↔
      (name = other ∧ mark.isSome = true) ∨ Heads name rest := by
  cases mark with
  | none => simp [markedWindow]
  | some address => simp [markedWindow, heads_namedWindow cpu memory half plain plain']

def upperPart : String :=
  "Cpu state:\n  Registers:\n" ++ ((registerLabels cpu).line ++ ((registerValues cpu).line ++
    namedWindow "PC" cpu memory half cpu.pc))

theorem state_eq : state cpu memory half = upperPart cpu memory half ++
    (markedWindow cpu memory half "last read" cpu.access.memoryRead ++
      (markedWindow cpu memory half "last write" cpu.access.memoryWritten ++ "\n")) := by
  unfold state registers markedWindow upperPart
  cases cpu.access.memoryRead <;> cases cpu.access.memoryWritten <;>
    simp only [-String.reduceAppend, String.append_assoc]

theorem heads_upperPart (plain : Plain name) (rest : String) :
    Heads name (upperPart cpu memory half ++ rest) ↔ name = "PC" ∨ Heads name rest := by
  have first : heading name ≠ "Cpu state:" := by simp [heading_toList, ← String.toList_inj]
  have second : heading name ≠ "  Registers:" := by simp [heading_toList, ← String.toList_inj]
  have parts : upperPart cpu memory half ++ rest =
      "Cpu state:" ++ ("\n" ++ ("  Registers:" ++ ("\n" ++ ((registerLabels cpu).line ++
        ((registerValues cpu).line ++ (namedWindow "PC" cpu memory half cpu.pc ++ rest)))))) := by
    unfold upperPart
    simp only [← String.append_assoc, String.reduceAppend]
  rw [parts, heads_line (by decide), or_iff_right first, heads_line (by decide),
    or_iff_right second, heads_row plain (printable_registerLabels cpu),
    heads_row plain (printable_registerValues cpu),
    heads_namedWindow cpu memory half plain (by decide)]

theorem heads_state (plain : Plain name) : Heads name (state cpu memory half) ↔
    name = "PC" ∨ (name = "last read" ∧ cpu.access.memoryRead.isSome = true) ∨
      name = "last write" ∧ cpu.access.memoryWritten.isSome = true := by
  have last : ¬ Heads name ("" ++ "\n") := by
    rw [heads_end (by decide)]
    exact heading_ne_empty name
  rw [String.empty_append] at last
  rw [state_eq, heads_upperPart cpu memory half plain,
    heads_markedWindow cpu memory half plain (by decide),
    heads_markedWindow cpu memory half plain (by decide), or_iff_left last]

theorem not_heads_haltBanner : ¬ Heads name haltBanner := by
  unfold haltBanner
  rw [heads_end (by decide)]
  simp [heading_toList, ← String.toList_inj, Colour.code]

theorem heads_cycle (plain : Plain name) : Heads name (cycle cpu memory half) ↔
    cpu.halted = false ∧ (name = "PC" ∨
      (name = "last read" ∧ cpu.access.memoryRead.isSome = true) ∨
      name = "last write" ∧ cpu.access.memoryWritten.isSome = true) := by
  rw [cycle]
  split
  · next halted => simp [halted, not_heads_haltBanner]
  · next running =>
    rw [heads_state cpu memory half plain]
    simp [running]

/-- The text is two lines that show these cells: the address of each, and below it the word that
it holds. -/
def ShowsCells (text : String) (addresses : List Address) : Prop :=
  ∃ labels values, Table text labels values ∧
    (labels.map Mark.shown = addresses.map fun address =>
      ("M[" ++ String.ofList (Text.Hex.fixed cpu.width.addressDigits address.toNat) ++ "]",
        cpu.cellColour address)) ∧
    List.Forall₂ (fun address mark => ∃ v, memory.read cpu.width address = .ok v ∧
      mark.shown = (cpu.width.hex v, cpu.cellColour address)) addresses values

/-- There is a heading of this name if the machine runs and a cell has the mark, and only then;
and the lines below it show the window around that cell. -/
structure ShowsMark (name : String) (mark : Option Address) : Prop where
  shown : Heads name (cycle cpu memory half) ↔ cpu.halted = false ∧ mark.isSome = true
  around : cpu.halted = false → ∀ address ∈ mark, ∃ front table behind,
    cycle cpu memory half = front ++ ("\n" ++ heading name ++ "\n" ++ table ++ behind) ∧
      ShowsCells cpu memory table (Window.around cpu.width address half).addresses

theorem cycle_of_running (running : cpu.halted = false) :
    cycle cpu memory half = state cpu memory half :=
  if_neg (by simp [running])

theorem showsCells_window (centre : Address) : ShowsCells cpu memory
    (window cpu memory centre half) (Window.around cpu.width centre half).addresses :=
  ⟨_, _, table_window cpu memory _, shown_windowLabels cpu _ 0, shown_windowValues cpu memory _ 0⟩

theorem exists_cells {text : String} {centre : Address}
    (parts : ∃ front behind, text = front ++ (namedWindow name cpu memory half centre ++ behind)) :
    ∃ front table behind, text = front ++ ("\n" ++ heading name ++ "\n" ++ table ++ behind) ∧
      ShowsCells cpu memory table (Window.around cpu.width centre half).addresses := by
  obtain ⟨front, behind, rfl⟩ := parts
  refine ⟨front, window cpu memory centre half, behind, ?_,
    showsCells_window cpu memory half centre⟩
  rw [namedWindow_eq]

theorem showsMark_lastRead : ShowsMark cpu memory half "last read" cpu.access.memoryRead where
  shown := by
    rw [heads_cycle cpu memory half (by decide)]
    simp
  around running address marked := by
    apply exists_cells cpu memory half
    rw [cycle_of_running cpu memory half running, state_eq, Option.mem_def.mp marked]
    exact ⟨_, _, rfl⟩

theorem showsMark_lastWrite : ShowsMark cpu memory half "last write" cpu.access.memoryWritten where
  shown := by
    rw [heads_cycle cpu memory half (by decide)]
    simp
  around running address marked := by
    apply exists_cells cpu memory half
    rw [cycle_of_running cpu memory half running, state_eq, Option.mem_def.mp marked,
      ← String.append_assoc]
    exact ⟨_, _, rfl⟩

end Windows

end Display

end ToyMachine
