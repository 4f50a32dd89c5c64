import ToyMachine.Image.Line

/-!
Loading a memory image: its lines are read in order on top of a memory. Every
line that assigns a value stores it, whatever is wrong with the others, and every
defect is kept. The events of a load are its journal: what was stored on which
line, and what was refused.
-/

namespace ToyMachine.Image

inductive Event where
  | stored (line : Nat) (assignment : Assignment)
  | refused (defect : Defect)
deriving Repr

def Event.defect? : Event → Option Defect
  | stored .. => none
  | refused d => some d

structure Loader where
  memory : Memory
  line : Nat := 0
  inComment : Bool := false
  events : Array Event := #[]

namespace Loader

def feed : Loader → List Char → Loader
  | ⟨memory, line, inComment, events⟩, text =>
    match readLine inComment text with
    | ⟨next, none⟩ => ⟨memory, line + 1, next, events⟩
    | ⟨next, some (.ok a)⟩ =>
      ⟨a.apply memory, line + 1, next, events.push (.stored (line + 1) a)⟩
    | ⟨next, some (.error flaw)⟩ =>
      ⟨memory, line + 1, next, events.push (.refused ⟨line + 1, flaw⟩)⟩

/-- The end of the image, where a comment must not be open any more. -/
def finish : Loader → Loader
  | ⟨memory, line, inComment, events⟩ =>
    ⟨memory, line, inComment,
      if inComment then events.push (.refused ⟨line, .unterminatedComment⟩) else events⟩

def defects (l : Loader) : List Defect :=
  l.events.toList.filterMap Event.defect?

end Loader

def load (memory : Memory) (text : String) : Loader :=
  ((Text.lines text.toList).foldl Loader.feed ⟨memory, 0, false, #[]⟩).finish

inductive FileFailure where
  | missing
  | notText
  | defective (defects : List Defect)
deriving DecidableEq, Repr

/-- The messages of a failure, from what was attempted to its cause. -/
def FileFailure.chain (path : String) : FileFailure → List String
  | missing => ["failed to read `" ++ path ++ "`", "No such file or directory (os error 2)"]
  | notText =>
    ["failed to read `" ++ path ++ "`", "stream did not contain valid UTF-8"]
  | defective ds => ["failed to load `" ++ path ++ "`", report ds]

def fileText : Option ByteArray → Except FileFailure String
  | none => .error .missing
  | some content =>
    match String.fromUTF8? content with
    | none => .error .notText
    | some text => .ok text

def Loader.accepted (l : Loader) : Except FileFailure Memory :=
  match l.defects with
  | [] => .ok l.memory
  | d :: ds => .error (.defective (d :: ds))

def ofFile (content : Option ByteArray) : Except FileFailure Memory := do
  let text ← fileText content
  (load .zeroed text).accepted

end ToyMachine.Image
