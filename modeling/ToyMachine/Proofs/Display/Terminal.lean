import Mathlib.Data.List.Forall2
import ToyMachine.Display.Table

/-! What a terminal shows of a row. An escape sequence takes no column and gives its colour to
the characters behind it. A row is read from left to right: in front of each entry is a gap of
blanks and commas, and an entry ends at the column that the gaps and texts so far fill. -/

namespace ToyMachine.Display

structure Glyph where
  char : Char
  colour : Colour

def numbered? : Char → Char → Option Colour
  | '3', '1' => some .red
  | '3', '3' => some .yellow
  | '3', '4' => some .blue
  | '9', '4' => some .brightBlue
  | '9', '7' => some .white
  | _, _ => none

/-- What a terminal that has a colour shows for a text. -/
def screen (colour : Colour) : List Char → List Glyph
  | '\x1b' :: '[' :: tens :: units :: 'm' :: rest =>
    screen ((numbered? tens units).getD colour) rest
  | c :: rest => ⟨c, colour⟩ :: screen colour rest
  | [] => []

/-- An entry of a line as it is shown: its text, its colour and the column where it ends. -/
structure Mark where
  text : String
  colour : Colour
  stop : Nat

def Mark.shown (m : Mark) : String × Colour :=
  (m.text, m.colour)

def Solid (text : String) : Prop :=
  ∀ c ∈ text.toList, ' ' < c ∧ c ≠ ','

instance (text : String) : Decidable (Solid text) :=
  List.decidableBAll (fun c => ' ' < c ∧ c ≠ ',') text.toList

/-- From a column on the line shows these entries, each behind a gap of blanks and commas. -/
inductive Ruled : Nat → List Glyph → List Mark → Prop where
  | done (column : Nat) : Ruled column [] []
  | entry {column : Nat} {gap : List Glyph} {text : String} {colour : Colour}
      {line : List Glyph} {marks : List Mark} (present : gap ≠ [])
      (blank : ∀ g ∈ gap, g.char = ' ' ∨ g.char = ',') (solid : Solid text) :
      Ruled (column + gap.length + text.length) line marks →
      Ruled column (gap ++ (text.toList.map (⟨·, colour⟩) ++ line))
        (⟨text, colour, column + gap.length + text.length⟩ :: marks)

theorem Ruled.length {column : Nat} {line : List Glyph} {marks : List Mark}
    (h : Ruled column line marks) :
    column + line.length = (marks.map Mark.stop).getLastD column := by
  induction h with
  | done => rfl
  | @entry column gap text colour line marks _ _ _ _ ih =>
    rw [List.map_cons, List.getLastD_cons, ← ih]
    simp only [List.length_append, List.length_map, String.length_toList]
    omega

section Screen

variable {ground : Colour}

theorem screen_code (c : Colour) (rest : List Char) :
    screen ground (c.code.toList ++ rest) = screen c rest := by
  cases c <;> rfl

theorem screen_cons {c : Char} (visible : c ≠ '\x1b') (rest : List Char) :
    screen ground (c :: rest) = ⟨c, ground⟩ :: screen ground rest := by
  rw [screen]
  intro tens units rest' escape
  exact absurd escape visible

theorem screen_append {cs : List Char} (visible : '\x1b' ∉ cs) (rest : List Char) :
    screen ground (cs ++ rest) = cs.map (⟨·, ground⟩) ++ screen ground rest := by
  induction cs with
  | nil => rfl
  | cons c cs ih =>
    rw [List.mem_cons, not_or] at visible
    rw [List.cons_append, screen_cons (Ne.symm visible.1), ih visible.2, List.map_cons,
      List.cons_append]

theorem Solid.notMem {text : String} (h : Solid text) {c : Char} (low : ¬ ' ' < c) :
    c ∉ text.toList := fun member =>
  low (h c member).1

end Screen

section Rows

/-- A text that keeps what is in front of it from what is behind. -/
def Separates (lead : String) : Prop :=
  lead.toList ≠ [] ∧ ∀ c ∈ lead.toList, c = ' ' ∨ c = ','

instance (lead : String) : Decidable (Separates lead) :=
  @instDecidableAnd _ _ _ (List.decidableBAll (fun c => c = ' ' ∨ c = ',') lead.toList)

structure Entry.Printable (e : Entry) : Prop where
  separates : Separates e.lead
  solid : Solid e.text

def Row.marks : Nat → Row → List Mark
  | _, [] => []
  | column, e :: row =>
    let stop := column + e.visible.length
    ⟨e.text, e.colour, stop⟩ :: Row.marks stop row

def Row.tinted (row : Row) : String :=
  String.join (row.map Entry.tinted)

variable {row : Row}

theorem Separates.notMem {lead : String} (h : Separates lead) {c : Char}
    (other : c ≠ ' ' ∧ c ≠ ',') : c ∉ lead.toList := by
  intro member
  rcases h.2 c member with blank | comma
  · exact other.1 blank
  · exact other.2 comma

theorem Row.tinted_cons (e : Entry) (row : Row) :
    (Row.tinted (e :: row)).toList = e.lead.toList ++ (e.colour.code.toList ++
      (e.text.toList ++ (Colour.white.code.toList ++ (Row.tinted row).toList))) := by
  rw [Row.tinted, List.map_cons, String.join_cons, ← Row.tinted, Entry.tinted]
  simp only [String.toList_append, List.append_assoc]

theorem Row.ruled (printable : ∀ e ∈ row, e.Printable) (ground : Colour) (column : Nat) :
    Ruled column (screen ground (Row.tinted row).toList) (row.marks column) := by
  induction row generalizing ground column with
  | nil => exact .done column
  | cons e row ih =>
    rw [List.forall_mem_cons] at printable
    obtain ⟨first, others⟩ := printable
    rw [Row.tinted_cons, screen_append (first.separates.notMem (by decide)), screen_code,
      screen_append (first.solid.notMem (by decide)), screen_code, Row.marks]
    have gap : column + e.visible.length =
        column + (e.lead.toList.map fun c => Glyph.mk c ground).length + e.text.length := by
      rw [Entry.visible, String.length_append, List.length_map, String.length_toList, Nat.add_assoc]
    have rest := ih others .white (column + e.visible.length)
    rw [gap] at rest ⊢
    refine .entry ?_ ?_ first.solid rest
    · simpa using first.separates.1
    · intro g member
      obtain ⟨c, among, rfl⟩ := List.mem_map.mp member
      exact first.separates.2 c among

theorem Row.oneLine (printable : ∀ e ∈ row, e.Printable) : '\n' ∉ (Row.tinted row).toList := by
  induction row with
  | nil => exact List.not_mem_nil
  | cons e row ih =>
    rw [List.forall_mem_cons] at printable
    obtain ⟨first, others⟩ := printable
    have lead : '\n' ∉ e.lead.toList := first.separates.notMem (by decide)
    have text : '\n' ∉ e.text.toList := first.solid.notMem (by decide)
    have code (c : Colour) : '\n' ∉ c.code.toList := by cases c <;> decide
    rw [Row.tinted_cons]
    simp only [List.mem_append, lead, code, text, ih others, or_self, not_false_eq_true]

theorem Row.shown_marks (row : Row) (column : Nat) :
    (row.marks column).map Mark.shown = row.map fun e => (e.text, e.colour) := by
  induction row generalizing column with
  | nil => rfl
  | cons e row ih =>
    rw [Row.marks, List.map_cons, List.map_cons, ih]
    rfl

theorem Row.forall₂_marks {α : Type} {R : α → Mark → Prop} {entry : α → Entry} {as : List α}
    (each : ∀ a ∈ as, ∀ stop, R a ⟨(entry a).text, (entry a).colour, stop⟩) (column : Nat) :
    List.Forall₂ R as (Row.marks column (as.map entry)) := by
  induction as generalizing column with
  | nil => exact .nil
  | cons a as ih =>
    rw [List.forall_mem_cons] at each
    exact .cons (each.1 _) (ih each.2 _)

theorem Row.stops_marks {row' : Row}
    (same : row.map (·.visible.length) = row'.map (·.visible.length)) (column : Nat) :
    (row.marks column).map Mark.stop = (row'.marks column).map Mark.stop := by
  induction row generalizing row' column with
  | nil =>
    obtain rfl : row' = [] := List.map_eq_nil_iff.mp same.symm
    rfl
  | cons e row ih =>
    cases row' with
    | nil => exact absurd same (by simp)
    | cons e' row' =>
      rw [List.map_cons, List.map_cons, List.cons.injEq] at same
      obtain ⟨first, others⟩ := same
      rw [Row.marks, Row.marks, first]
      simp only [List.map_cons, ih others]

end Rows

section Tables

/-- The text is two lines, which show these entries in columns: an entry of the upper line and
the one below it end together, and so do the lines. -/
structure Table (text : String) (labels values : List Mark) : Prop where
  lines : ∃ upper lower : String, text = upper ++ "\n" ++ (lower ++ "\n") ∧
    '\n' ∉ upper.toList ∧ '\n' ∉ lower.toList ∧
    ∀ ground, Ruled 0 (screen ground upper.toList) labels ∧
      Ruled 0 (screen ground lower.toList) values ∧
      (screen ground upper.toList).length = (screen ground lower.toList).length
  stops : labels.map Mark.stop = values.map Mark.stop

theorem table_of_rows {upper lower : Row} (printable : ∀ e ∈ upper, e.Printable)
    (printable' : ∀ e ∈ lower, e.Printable)
    (same : upper.map (·.visible.length) = lower.map (·.visible.length)) :
    Table (upper.line ++ lower.line) (upper.marks 0) (lower.marks 0) where
  lines := by
    refine ⟨upper.tinted, lower.tinted, rfl, Row.oneLine printable, Row.oneLine printable', ?_⟩
    intro ground
    have ruled := Row.ruled printable ground 0
    have ruled' := Row.ruled printable' ground 0
    have length := ruled.length
    have length' := ruled'.length
    rw [Row.stops_marks same, ← length', Nat.zero_add, Nat.zero_add] at length
    exact ⟨ruled, ruled', length⟩
  stops := Row.stops_marks same 0

end Tables

end ToyMachine.Display
