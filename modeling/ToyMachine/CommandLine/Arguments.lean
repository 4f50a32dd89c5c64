/-!
The arguments of the command line. They are read from left to right; the first one
that is wrong ends the reading, and so does a request for the version or for help,
whatever comes after it. Short flags may be joined, and a setting takes its value
from the same argument or from the next one, which then must not look like a flag.
After `--` every argument is an image.
-/

namespace ToyMachine.CommandLine

inductive Flag where
  | step
  | quiet
deriving DecidableEq, Repr

inductive Setting where
  | window
  | logLevel
deriving DecidableEq, Repr

def Flag.name : Flag → String
  | step => "--step"
  | quiet => "--quiet"

def Setting.name : Setting → String
  | window => "--window"
  | logLevel => "--log-level"

inductive UsageError where
  | unknown (argument : String)
  | repeated (name : String)
  | missingValue (name : String)
  | unwantedValue (name : String)
  | invalidNumber (value : String)
  | missingImage
  | emptyImage
  | secondImage (path : String)
deriving DecidableEq, Repr

def UsageError.message : UsageError → String
  | unknown argument => "error: unexpected argument '" ++ argument ++ "' found"
  | repeated name => "error: the argument '" ++ name ++ "' cannot be used multiple times"
  | missingValue name => "error: a value is required for '" ++ name ++ "' but none was supplied"
  | unwantedValue name => "error: unexpected value for '" ++ name ++ "' found"
  | invalidNumber value => "error: invalid value '" ++ value ++ "': not a number up to 65535"
  | missingImage => "error: the following required arguments were not provided: <IMAGE>"
  | emptyImage => "error: a value is required for '<IMAGE>' but none was supplied"
  | secondImage path => "error: unexpected argument '" ++ path ++ "' found"

inductive Stop where
  | version
  | help
  | usage (error : UsageError)
deriving DecidableEq, Repr

structure Invocation where
  image : String
  step : Bool
  quiet : Bool
  window : Nat
  logLevel : String
deriving DecidableEq, Repr

structure Draft where
  image : Option String := none
  step : Bool := false
  quiet : Bool := false
  window : Option Nat := none
  logLevel : Option String := none
  /-- A setting whose value is the next argument. -/
  awaiting : Option Setting := none
  /-- No flags any more. -/
  imagesOnly : Bool := false
deriving DecidableEq, Repr

def signedNumber? : List Char → Option Int
  | '+' :: digits => natural? digits
  | '-' :: digits => (natural? digits).map (- ·)
  | digits => natural? digits
where
  natural? (digits : List Char) : Option Int :=
    if digits.isEmpty || !digits.all Char.isDigit then none
    else some (digits.foldl (fun n c => 10 * n + (c.toNat - 0x30 : Nat)) (0 : Int))

def windowSize? (value : String) : Option Nat :=
  match signedNumber? value.toList with
  | some n => if 0 ≤ n ∧ n ≤ 0xFFFF then some n.toNat else none
  | none => none

namespace Draft

def raise (d : Draft) : Flag → Except Stop Draft
  | .step =>
    if d.step then .error (.usage (.repeated Flag.step.name)) else .ok { d with step := true }
  | .quiet =>
    if d.quiet then .error (.usage (.repeated Flag.quiet.name)) else .ok { d with quiet := true }

def assign (d : Draft) (s : Setting) (value : String) : Except Stop Draft :=
  match s with
  | .window =>
    match windowSize? value, d.window with
    | none, _ => .error (.usage (.invalidNumber value))
    | some _, some _ => .error (.usage (.repeated s.name))
    | some n, none => .ok { d with window := some n, awaiting := none }
  | .logLevel =>
    match d.logLevel with
    | some _ => .error (.usage (.repeated s.name))
    | none => .ok { d with logLevel := some value, awaiting := none }

def takeImage (d : Draft) (path : String) : Except Stop Draft :=
  match d.image with
  | some _ => .error (.usage (.secondImage path))
  | none =>
    if path.isEmpty then .error (.usage .emptyImage) else .ok { d with image := some path }

/-- Flags joined behind one dash. A setting ends them and takes the rest as its value. -/
def readJoined (d : Draft) : List Char → Except Stop Draft
  | [] => .ok d
  | 's' :: rest => do (← d.raise .step).readJoined rest
  | 'q' :: rest => do (← d.raise .quiet).readJoined rest
  | 'V' :: _ => .error .version
  | 'h' :: _ => .error .help
  | ['w'] => .ok { d with awaiting := some .window }
  | 'w' :: '=' :: value => d.assign .window (String.ofList value)
  | 'w' :: value => d.assign .window (String.ofList value)
  | c :: _ => .error (.usage (.unknown (String.ofList ['-', c])))

def raiseLong (d : Draft) (f : Flag) (value : Option String) : Except Stop Draft :=
  match value with
  | none => d.raise f
  | some _ => .error (.usage (.unwantedValue f.name))

def assignLong (d : Draft) (s : Setting) (value : Option String) : Except Stop Draft :=
  match value with
  | none => .ok { d with awaiting := some s }
  | some value => d.assign s value

def stopLong (stop : Stop) (name : String) (value : Option String) : Except Stop Draft :=
  match value with
  | none => .error stop
  | some _ => .error (.usage (.unwantedValue name))

def readLong (d : Draft) (name : String) (value : Option String) : Except Stop Draft :=
  match name with
  | "step" => d.raiseLong .step value
  | "quiet" => d.raiseLong .quiet value
  | "window" => d.assignLong .window value
  | "log-level" => d.assignLong .logLevel value
  | "version" => stopLong .version "--version" value
  | "help" => stopLong .help "--help" value
  | _ => .error (.usage (.unknown ("--" ++ name)))

def readArgument (d : Draft) (argument : String) : Except Stop Draft :=
  match argument.toList with
  | ['-', '-'] => .ok { d with imagesOnly := true }
  | '-' :: '-' :: long =>
    match long.span (· ≠ '=') with
    | (name, _ :: value) => d.readLong (String.ofList name) (some (String.ofList value))
    | (name, []) => d.readLong (String.ofList name) none
  | '-' :: c :: joined => d.readJoined (c :: joined)
  | _ => d.takeImage argument

/-- A dash alone is a value like another. -/
def looksLikeFlag (argument : String) : Bool :=
  match argument.toList with
  | '-' :: _ :: _ => true
  | _ => false

def feed (d : Draft) (argument : String) : Except Stop Draft :=
  if d.imagesOnly then d.takeImage argument
  else
    match d.awaiting with
    | none => d.readArgument argument
    | some s =>
      if looksLikeFlag argument then .error (.usage (.missingValue s.name))
      else d.assign s argument

def finish (d : Draft) : Except Stop Invocation :=
  match d.awaiting, d.image with
  | some s, _ => .error (.usage (.missingValue s.name))
  | none, none => .error (.usage .missingImage)
  | none, some image =>
    .ok ⟨image, d.step, d.quiet, d.window.getD 6, d.logLevel.getD "info"⟩

end Draft

def parse (arguments : List String) : Except Stop Invocation := do
  let d ← arguments.foldlM Draft.feed {}
  d.finish

end ToyMachine.CommandLine
