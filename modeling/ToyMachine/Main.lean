import ToyMachine.CommandLine.Program

/-!
The command line. What the machine does is decided elsewhere; here files and
standard input are read, and the transcript is printed as it grows.

The operator's lines are read when the machine asks for them. A cycle that fails
for want of input has changed nothing but the console and the marks, so it is run
again with one line more. It then begins as a cycle without any input does, and
that beginning has been printed before.
-/

namespace ToyMachine.Main

open CommandLine

def printFrom (v : Verbosity) (start : Nat) (console : Console) : IO Unit := do
  let out ← IO.getStdout
  for e in console.transcript.toList.drop start do
    out.write (Program.shownEmission .standard v e)
  out.flush

def report (messages : List String) : IO Unit :=
  messages.forM IO.eprintln

def readLine : IO (Option (List UInt8)) := do
  let stdin ← IO.getStdin
  let mut line := ByteArray.empty
  let mut going := true
  while going do
    let byte ← stdin.read 1
    line := line ++ byte
    going := byte.size = 1 && byte != ByteArray.mk #[0x0A]
  return if line.isEmpty then none else some line.toList

def cleared : Machine → Machine
  | ⟨cpu, memory, console⟩ => ⟨cpu, memory, console.cleared⟩

def feed (line : List UInt8) : Machine → Machine
  | ⟨cpu, memory, console⟩ => ⟨cpu, memory, { console with input := console.input ++ [line] }⟩

def waitsForInput : RunFailure → Bool
  | .stopped ⟨.console .inputClosed, _, _⟩ => true
  | _ => false

/-- How much a cycle emits before it needs input that is not there. -/
def emittedBeforeInput (o : RunOptions) (m : Machine) : Nat :=
  match Machine.cycle o m with
  | .ok _ m => m.console.transcript.size
  | .error _ m => m.console.transcript.size

partial def cycle (v : Verbosity) (o : RunOptions) (m : Machine) (printed : Nat) :
    IO (Except (List String) Machine) := do
  match Machine.cycle { o with singleStep := false } m with
  | .ok _ m =>
    printFrom v printed m.console
    return .ok (cleared m)
  | .error e m =>
    printFrom v printed m.console
    if waitsForInput e then
      if let some line ← readLine then
        let m := cleared m
        return ← cycle v o (feed line m) (emittedBeforeInput o m)
    return .error e.chain

def pause (m : Machine) : IO (Except (List String) Machine) := do
  let line ← readLine
  let fed := match line with
    | some line => feed line m
    | none => m
  match Machine.onConsole Console.wait fed with
  | .ok _ m => return .ok m
  | .error e _ => return .error (RunFailure.waiting e).chain

partial def run (v : Verbosity) (o : RunOptions) (m : Machine) : IO UInt32 := do
  if m.cpu.halted then
    match Machine.runToHalt o 0 m with
    | .ok _ m => printFrom v 0 m.console
    | .error e _ => report e.chain
    return 0
  match ← cycle v o m 0 with
  | .error messages =>
    report messages
    return 1
  | .ok m =>
    match ← if o.singleStep then pause m else pure (.ok m) with
    | .error messages =>
      report messages
      return 1
    | .ok m => run v o m

def finish (e : Program.Ending) : IO UInt32 := do
  let out ← IO.getStdout
  out.write e.stdout
  out.flush
  report e.messages
  return UInt32.ofNat e.status

def readFile (path : String) : IO (Option ByteArray) := do
  try
    let content ← IO.FS.readBinFile path
    return some content
  catch _ => return none

end ToyMachine.Main

open ToyMachine in
def main (arguments : List String) : IO UInt32 := do
  match CommandLine.parse arguments with
  | .error stop => Main.finish (.ofStop stop)
  | .ok i =>
    match Program.start .standard i (← Main.readFile i.image) (.ofInput .empty none) with
    | .ended e => Main.finish e
    | .ready v o m =>
      Main.printFrom v 0 m.console
      Main.run v o (Main.cleared m)
