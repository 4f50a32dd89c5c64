import ToyMachine.Width

/-!
What can be wrong with a memory image. A flaw belongs to one line and keeps the
text it was found in; a defect is a flaw with the number of its line. Only the
comment that the image never closes has no line of its own and takes the last.
-/

namespace ToyMachine.Image

inductive Flaw where
  /-- A line that is neither skipped nor has a colon. -/
  | missingSeparator (line : String)
  | malformedAddress (found : String)
  /-- Something other than a comment after the value. -/
  | trailingText (found : String)
  | valueLength (found : String)
  | valueDigits (found : String)
  /-- An address that the width of the value does not have. -/
  | noSuchCell (width : Width) (address : Nat)
  /-- A line inside a comment that does not start with a star. -/
  | commentLine (line : String)
  | unterminatedComment
deriving DecidableEq, Repr

namespace Flaw

def kindText : Flaw → String
  | missingSeparator _ => "missing `:` separator"
  | malformedAddress _ => "invalid memory address"
  | trailingText _ | valueLength _ | valueDigits _ => "invalid memory value"
  | noSuchCell _ address => "memory has no address `0x" ++ Text.Hex.number address ++ "`"
  | commentLine _ => "invalid line in multi line comment"
  | unterminatedComment => "unterminated multi line comment"

def detail : Flaw → String
  | missingSeparator line => "expected `ADDRESS:VALUE`, found `" ++ line ++ "`"
  | malformedAddress found => "`" ++ found ++ "` is not a 2 to 4 digit hex address"
  | trailingText found => "unexpected `" ++ found ++ "` after value"
  | valueLength found => "`" ++ found ++ "` is neither 4 nor 8 hex digits"
  | valueDigits found => "`" ++ found ++ "` is not hex"
  | noSuchCell w _ =>
    "a " ++ w.name ++ " value needs an address up to 0x" ++ Text.Hex.number w.lastAddress
  | commentLine line => "`" ++ line ++ "` does not start with `*`"
  | unterminatedComment => "image ended inside `/*`"

end Flaw

structure Defect where
  line : Nat
  flaw : Flaw
deriving DecidableEq, Repr

def Defect.message (d : Defect) : String :=
  "error [ln: " ++ toString d.line ++ "]: " ++ d.flaw.kindText ++ " - " ++ d.flaw.detail

def report (defects : List Defect) : String :=
  "memory image has " ++ toString defects.length ++ " error(s):\n" ++
    "\n".intercalate (defects.map Defect.message)

end ToyMachine.Image
