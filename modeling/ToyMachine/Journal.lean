import ToyMachine.Image.Load
import ToyMachine.Instruction.Basic

/-!
The journal: what the loader, the console and the processor report while they
work. A notice says what happened as a value; its level, the part of the machine
that it comes from and its text are read off it. What is done does not depend on
what is reported: a verbosity only selects which notices are shown.
-/

namespace ToyMachine

inductive Level where
  | error
  | warn
  | info
  | debug
  | trace
deriving DecidableEq, Repr

namespace Level

def rank : Level → Nat
  | error => 1
  | warn => 2
  | info => 3
  | debug => 4
  | trace => 5

def name : Level → String
  | error => "ERROR"
  | warn => "WARN"
  | info => "INFO"
  | debug => "DEBUG"
  | trace => "TRACE"

end Level

/-- The least urgent level that is shown; `none` shows nothing. -/
abbrev Verbosity := Option Level

def Verbosity.shows (v : Verbosity) (l : Level) : Bool :=
  match v with
  | none => false
  | some least => l.rank ≤ least.rank

def Verbosity.all : List (String × Verbosity) :=
  [("OFF", none), ("ERROR", some .error), ("WARN", some .warn), ("INFO", some .info),
    ("DEBUG", some .debug), ("TRACE", some .trace)]

def Verbosity.ofName? (name : String) : Option Verbosity :=
  all.lookup (String.ofList (name.toList.map Char.toUpper))

inductive Notice where
  | loading (event : Image.Event)
  /-- The operator typed a word that is not a number of the width. -/
  | discarded (width : Width) (token : String)
  | received (width : Width) (value : Word)
  | fetched (width : Width) (pc : Address) (instruction : Instruction)
  | switched (width : Width) (pc : Address)
  | halted (pc : Address)
  /-- A run has come to its end. -/
  | terminated (pc : Address)
  | computed (first second result : Word)
  | addressTaken (register : Nat) (address : Address)
  | cellRead (register : Nat) (address : Address) (value : Word)
  | cellWritten (address : Address) (register : Nat) (value : Word)
  | zeroTested (register : Nat) (holds : Bool)
  | positiveTested (register : Nat) (holds : Bool)
deriving Repr

namespace Notice

def level : Notice → Level
  | loading (.stored ..) => .info
  | loading (.refused _) => .error
  | discarded .. => .warn
  | switched .. | halted _ | terminated _ => .info
  | received .. | fetched .. | computed .. | addressTaken .. | cellRead .. | cellWritten ..
  | zeroTested .. | positiveTested .. => .debug

def origin : Notice → String
  | loading _ => "xtoy::memory::parse"
  | discarded .. | received .. => "xtoy::console"
  | _ => "xtoy::processor"

def cellName (address : Address) : String :=
  "M[" ++ Width.narrow.addressHex address ++ "]"

def decimal (v : Word) : String :=
  toString v.toInt

def truth (b : Bool) : String :=
  if b then "true" else "false"

def text : Notice → String
  | loading (.stored line a) =>
    "[" ++ toString line ++ "] M[" ++
      String.ofList (Text.Hex.padded a.width.addressDigits a.cell.val) ++ "] <- " ++
      a.width.hex a.value
  | loading (.refused d) => d.message
  | discarded w token =>
    "Discarding input `" ++ token ++ "`, expected up to " ++ toString w.wordDigits ++
      " hex digits"
  | received w v => "Console input " ++ w.hex v
  | fetched w pc i => w.addressHex pc ++ ": " ++ i.text
  | switched w pc =>
    "Switched to " ++ w.name ++ " mode at PC 0x" ++ Text.Hex.number pc.toNat
  | halted pc => "Halted at PC 0x" ++ Text.Hex.number pc.toNat
  | terminated pc => "Program terminated at PC 0x" ++ Text.Hex.number pc.toNat
  | computed a b r => "  " ++ decimal a ++ " " ++ decimal b ++ ": " ++ decimal r
  | addressTaken r a => "  " ++ registerName r ++ " <- " ++ Width.narrow.addressHex a
  | cellRead r a v => "  " ++ registerName r ++ " <- " ++ cellName a ++ ": " ++ decimal v
  | cellWritten a r v => "  " ++ cellName a ++ " <- " ++ registerName r ++ ": " ++ decimal v
  | zeroTested r b => "  " ++ registerName r ++ " == 0: " ++ truth b
  | positiveTested r b => "  " ++ registerName r ++ " > 0: " ++ truth b

def located (n : Notice) : String :=
  "[" ++ n.origin ++ "] " ++ n.text

/-- The notice as a line of output, its level filled up to five columns. -/
def line (n : Notice) : String :=
  String.ofList (n.level.name.toList.rightpad 5 ' ') ++ " " ++ n.located ++ "\n"

end Notice

end ToyMachine
