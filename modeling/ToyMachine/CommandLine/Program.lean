import ToyMachine.CommandLine.Arguments
import ToyMachine.Run

/-!
The program: arguments, the image file they name, and what the operator types, in;
a status and the bytes of the standard output out. The output is the transcript of
the machine's console, of whose notices those are shown that the log level admits.
How the arguments and the name of a level are read, and how a notice looks as a line,
is the business of its front end.

A run is given a number of cycles, since a program need not end.
-/

namespace ToyMachine.Program

open CommandLine

def versionText : String := "xtoy 0.1.0\n"

def helpText : String :=
  "\n".intercalate [
    "Runs a TOY machine memory image",
    "",
    "Usage: xtoy [OPTIONS] <IMAGE>",
    "",
    "Arguments:",
    "  <IMAGE>  Memory image, one `AA:DDDD` cell per line",
    "",
    "Options:",
    "  -s, --step                   Wait for Enter after every cycle",
    "  -q, --quiet                  Only show console input and output",
    "  -w, --window <WINDOW>        Cells shown on each side of a memory window [default: 6]",
    "      --log-level <LOG_LEVEL>  One of off, error, warn, info, debug, trace [default: info]",
    "  -h, --help                   Print help",
    "  -V, --version                Print version",
    ""]

/-- How the program ends: its status, what it has printed, and what it says of a
failure, from what was attempted to the cause. -/
structure Ending where
  status : Nat
  stdout : ByteArray
  messages : List String

def Ending.ofStop : Stop → Ending
  | .version => ⟨0, versionText.toUTF8, []⟩
  | .help => ⟨0, helpText.toUTF8, []⟩
  | .usage e => ⟨2, .empty, [e.message]⟩

structure Frontend where
  parse : List String → Except Stop Invocation
  level? : String → Option Verbosity
  line : Notice → String

def Frontend.standard : Frontend where
  parse := CommandLine.parse
  level? := Verbosity.ofName?
  line := Notice.line

variable (f : Frontend)

def shownEmission (v : Verbosity) : Console.Emission → ByteArray
  | .printed bytes => bytes
  | .noted n => if v.shows n.level then (f.line n).toUTF8 else .empty

def shown (v : Verbosity) (console : Console) : ByteArray :=
  console.transcript.foldl (fun bytes e => bytes ++ shownEmission f v e) .empty

inductive Start where
  | ended (ending : Ending)
  | ready (verbosity : Verbosity) (options : RunOptions) (machine : Machine)

def invalidLevel (name : String) : String :=
  "invalid log level `" ++ name ++
    "`: attempted to convert a string that doesn't match an existing log level"

def runOptions (i : Invocation) : RunOptions where
  trace := !i.quiet
  singleStep := i.step
  window := i.window

def firstDisplay (o : RunOptions) : Machine.Action Console.Failure Unit :=
  if o.trace then Machine.displayCycle o.window else pure ()

def noteEvents (console : Console) (events : Array Image.Event) : Console :=
  events.foldl (fun c e => c.emit (.noted (.loading e))) console

def startMachine (v : Verbosity) (i : Invocation) (memory : Memory) (console : Console) : Start :=
  match firstDisplay (runOptions i) (.starting memory console) with
  | .ok _ m => .ready v (runOptions i) m
  | .error e m => .ended ⟨1, shown f v m.console, [e.message]⟩

def start (i : Invocation) (content : Option ByteArray) (console : Console) : Start :=
  match f.level? i.logLevel with
  | none => .ended ⟨1, .empty, [invalidLevel i.logLevel]⟩
  | some v =>
    match Image.fileText content with
    | .error e => .ended ⟨1, .empty, e.chain i.image⟩
    | .ok text =>
      let load := Image.load .zeroed text
      let console := noteEvents console load.events
      match load.accepted with
      | .error e => .ended ⟨1, shown f v console, e.chain i.image⟩
      | .ok memory => startMachine f v i memory console

/-- What a run comes to, or `none` if it has not ended. -/
def conclude (v : Verbosity) : EStateM.Result RunFailure Machine Bool → Option Ending
  | .ok true m => some ⟨0, shown f v m.console, []⟩
  | .ok false _ => none
  | .error e m => some ⟨1, shown f v m.console, e.chain⟩

def Start.proceed (cycles : Nat) : Start → Option Ending
  | ended e => some e
  | ready v o m => conclude f v (Machine.runToHalt o cycles m)

/-- The whole program over the files that exist and all that the operator types. -/
def executeWith (arguments : List String) (files : String → Option ByteArray) (input : ByteArray)
    (cycles : Nat) : Option Ending :=
  match f.parse arguments with
  | .error stop => some (.ofStop stop)
  | .ok i => (start f i (files i.image) (.ofInput input none)).proceed f cycles

def execute : List String → (String → Option ByteArray) → ByteArray → Nat → Option Ending :=
  executeWith .standard

end ToyMachine.Program
