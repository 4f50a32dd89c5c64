import ToyMachine.Image.Defect
import ToyMachine.Memory
import ToyMachine.Text.Pieces

/-!
One line of a memory image. Outside a comment a line opens one, is skipped (it is
empty, a remark or a declaration), or assigns a value to a cell as `ADDRESS:VALUE`
with an optional remark behind it; four digits are a narrow value and eight are a
wide one. Inside a comment a line must start with a star, unless it is empty or
looks like another opening. Lines are read without the blanks at their ends.
-/

namespace ToyMachine.Image

open Text

/-- A value for one cell, in the width that its digits show. -/
structure Assignment where
  width : Width
  cell : width.Cell
  value : Word
deriving Repr

def Assignment.apply (a : Assignment) (m : Memory) : Memory :=
  m.set a.width a.cell a.value

/-- What a line stores, or why it is refused; and whether the next line stands in a
comment. -/
structure Reading where
  inComment : Bool
  effect : Option (Except Flaw Assignment)
deriving Repr

def startsWith (start : String) (line : List Char) : Bool :=
  start.toList.isPrefixOf line

def endsWith (ending : String) (line : List Char) : Bool :=
  ending.toList.isSuffixOf line

def readAddress (found : List Char) : Except Flaw Nat :=
  match Hex.read? found with
  | some address =>
    if 2 ≤ found.length ∧ found.length ≤ 4 then .ok address
    else .error (.malformedAddress (String.ofList found))
  | none => .error (.malformedAddress (String.ofList found))

def widthOfLength : Nat → Option Width
  | 4 => some .narrow
  | 8 => some .wide
  | _ => none

def readValue (found : List Char) : Except Flaw (Width × Word) :=
  match widthOfLength (utf8Length found) with
  | none => .error (.valueLength (String.ofList found))
  | some w =>
    match Hex.read? found with
    | none => .error (.valueDigits (String.ofList found))
    | some n => .ok (w, BitVec.ofNat 32 n)

def readRemark (found : List Char) : Except Flaw Unit :=
  if found.isEmpty || startsWith "//" found then .ok ()
  else .error (.trailingText (String.ofList found))

def readAssignment (line : List Char) : Except Flaw Assignment :=
  match line.span (· ≠ ':') with
  | (_, []) => .error (.missingSeparator (String.ofList line))
  | (before, _ :: after) => do
    let address ← readAddress before
    let (value, behind) := (trimStart after).span (fun c => !isBlank c)
    readRemark (trim behind)
    let (width, word) ← readValue value
    match width.cell? address with
    | .ok cell => .ok ⟨width, cell, word⟩
    | .error _ => .error (.noSuchCell width address)

def isSkipped (line : List Char) : Bool :=
  line.isEmpty || startsWith "//" line || startsWith "program" line ||
    startsWith "function" line

def readOutside (line : List Char) : Reading :=
  match line with
  | '/' :: '*' :: rest => ⟨!endsWith "*/" rest, none⟩
  | _ => if isSkipped line then ⟨false, none⟩ else ⟨false, some (readAssignment line)⟩

def readInside (line : List Char) : Reading :=
  if startsWith "*" line && endsWith "*/" line then ⟨false, none⟩
  else if line.isEmpty || startsWith "*" line || startsWith "/*" line then ⟨true, none⟩
  else ⟨true, some (.error (.commentLine (String.ofList line)))⟩

def readLine (inComment : Bool) (line : List Char) : Reading :=
  if inComment then readInside line else readOutside line

end ToyMachine.Image
