import ToyMachine.Image.Load
import ToyMachine.Proofs.Text.Lines
import ToyMachine.Proofs.Text.Numeral

/-! The grammar of memory images, as an automaton over lines. It says what a line may look
like and what it then does, and does not say how a line is taken apart. A cell line is

    A ':' blanks V remark

with two to four digits for `A`, four or eight for `V`, and nothing or a `//` behind a blank
for the remark; every other one is an error of exactly one kind. What a cell line stores is
said byte by byte, with the low end of the value first. -/

namespace ToyMachine.Image

namespace Assignment

def Covers (a : Assignment) (k : Nat) : Prop := k / a.width.cellBytes = a.cell.val

instance (a : Assignment) (k : Nat) : Decidable (a.Covers k) :=
  inferInstanceAs (Decidable (k / a.width.cellBytes = a.cell.val))

def byte (a : Assignment) (k : Nat) : BitVec 8 :=
  a.value.extractLsb' (8 * (k % a.width.cellBytes)) 8

def overlay (a : Assignment) (m : Memory) : Memory :=
  ⟨.ofFn fun k => if a.Covers k then a.byte k else m.bytes.get k⟩

theorem bytes_overlay (a : Assignment) (m : Memory) {k : Nat} (h : k < 0x40000) :
    (a.overlay m).bytes[k] = if a.Covers k then a.byte k else m.bytes[k] := by
  rw [overlay, Vector.getElem_ofFn]
  rfl

end Assignment

/-- What is wrong with a line, apart from the text that it was found in. -/
inductive Flaw.Kind where
  | missingSeparator
  | malformedAddress
  | malformedValue
  | noSuchCell (address : Nat)
  | commentLine
  | unterminatedComment
deriving DecidableEq, Repr

def Flaw.kind : Flaw → Flaw.Kind
  | missingSeparator _ => .missingSeparator
  | malformedAddress _ => .malformedAddress
  | trailingText _ | valueLength _ | valueDigits _ => .malformedValue
  | noSuchCell _ address => .noSuchCell address
  | commentLine _ => .commentLine
  | unterminatedComment => .unterminatedComment

namespace Grammar

open Text

def IsAddress (found : List Char) : Prop :=
  (∀ c ∈ found, Hex.IsDigit c) ∧ 2 ≤ found.length ∧ found.length ≤ 4

def IsValue (w : Width) (found : List Char) : Prop :=
  (∀ c ∈ found, Hex.IsDigit c) ∧ found.length = w.wordDigits

inductive IsRemark : List Char → Prop where
  | absent : IsRemark []
  | present {blank : Char} {blanks : List Char} (text : List Char)
      (first : isBlank blank = true) (more : ∀ c ∈ blanks, isBlank c = true) :
      IsRemark (blank :: (blanks ++ '/' :: '/' :: text))

inductive IsAssigned (w : Width) (value : List Char) : List Char → Prop where
  | intro {blanks remark : List Char} (blank : ∀ c ∈ blanks, isBlank c = true)
      (digits : IsValue w value) (tail : IsRemark remark) :
      IsAssigned w value (blanks ++ (value ++ remark))

inductive CellLine : List Char → Except Flaw.Kind Assignment → Prop where
  | missingSeparator {line : List Char} (absent : ':' ∉ line) :
      CellLine line (.error .missingSeparator)
  | malformedAddress {before behind : List Char} (first : ':' ∉ before)
      (bad : ¬ IsAddress before) :
      CellLine (before ++ ':' :: behind) (.error .malformedAddress)
  | malformedValue {before behind : List Char} (address : IsAddress before)
      (bad : ∀ w value, ¬ IsAssigned w value behind) :
      CellLine (before ++ ':' :: behind) (.error .malformedValue)
  | noSuchCell {before behind value : List Char} {w : Width} (address : IsAddress before)
      (assigned : IsAssigned w value behind) (beyond : w.cells ≤ Hex.numeralValue before) :
      CellLine (before ++ ':' :: behind) (.error (.noSuchCell (Hex.numeralValue before)))
  | stored {before behind value : List Char} {w : Width} (address : IsAddress before)
      (assigned : IsAssigned w value behind) (bound : Hex.numeralValue before < w.cells) :
      CellLine (before ++ ':' :: behind)
        (.ok ⟨w, ⟨Hex.numeralValue before, bound⟩, BitVec.ofNat 32 (Hex.numeralValue value)⟩)

def Opens (line : List Char) : Prop := ['/', '*'] <+: line

/-- An opening line that is a whole comment. -/
def ClosesAtOnce (line : List Char) : Prop :=
  4 ≤ (String.ofList line).utf8ByteSize ∧ ['*', '/'] <:+ line

def IsSkipped (line : List Char) : Prop :=
  line = [] ∨ ['/', '/'] <+: line ∨ "program".toList <+: line ∨ "function".toList <+: line

/-- The state before a line, the line, the state behind it, and what a cell line gives. -/
inductive Line : Bool → List Char → Bool → Option (Except Flaw.Kind Assignment) → Prop where
  | opening {line : List Char} (opens : Opens line) (unclosed : ¬ ClosesAtOnce line) :
      Line false line true none
  | comment {line : List Char} (opens : Opens line) (closed : ClosesAtOnce line) :
      Line false line false none
  | skipped {line : List Char} (plain : ¬ Opens line) (skip : IsSkipped line) :
      Line false line false none
  | cell {line : List Char} {result : Except Flaw.Kind Assignment} (plain : ¬ Opens line)
      (kept : ¬ IsSkipped line) (reads : CellLine line result) :
      Line false line false (some result)
  | closing {line : List Char} (starred : ['*'] <+: line) (closes : ['*', '/'] <:+ line) :
      Line true line false none
  | body {line : List Char} (inside : ¬ (['*'] <+: line ∧ ['*', '/'] <:+ line))
      (fits : line = [] ∨ ['*'] <+: line ∨ Opens line) : Line true line true none
  | stray {line : List Char} (unfit : ¬ (line = [] ∨ ['*'] <+: line ∨ Opens line)) :
      Line true line true (some (.error .commentLine))

structure Progress where
  memory : Memory
  line : Nat
  inComment : Bool
  errors : List (Nat × Flaw.Kind)

def Progress.start (memory : Memory) : Progress := ⟨memory, 0, false, []⟩

/-- One line: the bytes of a cell are written, or an error is added under the number of the
line. -/
inductive Step : Progress → List Char → Progress → Prop where
  | quiet {p : Progress} {line : List Char} {next : Bool}
      (reads : Line p.inComment line next none) :
      Step p line ⟨p.memory, p.line + 1, next, p.errors⟩
  | store {p : Progress} {line : List Char} {next : Bool} {a : Assignment}
      (reads : Line p.inComment line next (some (.ok a))) :
      Step p line ⟨a.overlay p.memory, p.line + 1, next, p.errors⟩
  | refuse {p : Progress} {line : List Char} {next : Bool} {kind : Flaw.Kind}
      (reads : Line p.inComment line next (some (.error kind))) :
      Step p line ⟨p.memory, p.line + 1, next, p.errors ++ [(p.line + 1, kind)]⟩

inductive Run : Progress → List (List Char) → Progress → Prop where
  | done (p : Progress) : Run p [] p
  | line {p q r : Progress} {line : List Char} {lines : List (List Char)}
      (first : Step p line q) (rest : Run q lines r) : Run p (line :: lines) r

/-- The errors of an image; a comment that is still open counts for its last line. -/
def Progress.allErrors (p : Progress) : List (Nat × Flaw.Kind) :=
  if p.inComment then p.errors ++ [(p.line, .unterminatedComment)] else p.errors

end Grammar

end ToyMachine.Image
