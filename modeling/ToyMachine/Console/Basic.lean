import ToyMachine.Journal

/-!
The operator's console: lines that wait to be taken, words of the last line taken
that wait to be used, a sink for output, and a transcript of everything that was
printed or reported, in order. A line is raw bytes up to and including its line
feed. It is taken as a whole, by `nextToken` for its words or by `wait` for
nothing, and a line that is not text makes the call that took it fail.

The sink may have room for so many bytes only. A text that does not fit leaves
the bytes that do, and fails.

A token is a word of a width when it has at least one hexadecimal digit and no
more than the width has, perhaps behind `0x` or `0X`. The operator is asked until
a token is a word: the prompt is repeated before every token, also before one that
is then refused, and the end of the input ends the asking too.
-/

namespace ToyMachine

def tokenDigits : List Char → List Char
  | '0' :: 'x' :: digits => digits
  | '0' :: 'X' :: digits => digits
  | token => token

def Width.readToken (w : Width) (token : String) : Option Word :=
  let digits := tokenDigits token.toList
  if digits.length ≤ w.wordDigits then
    (Text.Hex.read? digits).map fun n => w.fit (BitVec.ofNat 32 n)
  else none

namespace Console

inductive Failure where
  | inputClosed
  /-- A line that is not valid UTF-8. -/
  | notText
  | sinkFull
deriving DecidableEq, Repr

def Failure.message : Failure → String
  | inputClosed => "operator input closed"
  | notText => "stream did not contain valid UTF-8"
  | sinkFull => "sink full"

inductive Emission where
  | printed (bytes : ByteArray)
  | noted (notice : Notice)

def Emission.bytes : Emission → ByteArray
  | printed bytes => bytes
  | noted _ => .empty

def Emission.notice? : Emission → Option Notice
  | printed _ => none
  | noted notice => some notice

end Console

structure Console where
  /-- Lines that have not been taken. -/
  input : List (List UInt8)
  /-- Words of lines that have been taken. -/
  pending : List String := []
  /-- Bytes that the sink still accepts; `none` is no limit. -/
  room : Option Nat := none
  transcript : Array Console.Emission := #[]

namespace Console

/-- What is done at a console; a failure keeps what was done before it. -/
abbrev Action := EStateM Failure Console

/-- Bytes as lines, each with its line feed. -/
def linesOf (bytes : List UInt8) : List (List UInt8) :=
  Text.cutAfter (· == 0x0A) bytes

def ofInput (bytes : ByteArray) (room : Option Nat) : Console where
  input := linesOf bytes.toList
  room := room

def decode? (line : List UInt8) : Option String :=
  String.fromUTF8? line.toByteArray

def wordsOf (text : String) : List String :=
  (Text.words text.toList).map String.ofList

/-- The words on a line, of which one that is not text has none. -/
def tokensOf (line : List UInt8) : List String :=
  match decode? line with
  | some text => wordsOf text
  | none => []

def remaining (c : Console) : List String :=
  c.pending ++ c.input.flatMap tokensOf

def unread (c : Console) : Nat :=
  c.input.flatten.length

def output (c : Console) : ByteArray :=
  c.transcript.foldl (fun bytes e => bytes ++ e.bytes) .empty

def journal (c : Console) : List Notice :=
  c.transcript.toList.filterMap Emission.notice?

def cleared : Console → Console
  | ⟨input, pending, room, _⟩ => ⟨input, pending, room, #[]⟩

def emit (e : Emission) : Console → Console
  | ⟨input, pending, room, transcript⟩ => ⟨input, pending, room, transcript.push e⟩

def note (n : Notice) : Action Unit := fun c =>
  .ok () (c.emit (.noted n))

def printBytes (bytes : ByteArray) : Action Unit
  | ⟨input, pending, none, transcript⟩ =>
    .ok () ⟨input, pending, none, transcript.push (.printed bytes)⟩
  | ⟨input, pending, some room, transcript⟩ =>
    if bytes.size ≤ room then
      .ok () ⟨input, pending, some (room - bytes.size), transcript.push (.printed bytes)⟩
    else
      .error .sinkFull
        ⟨input, pending, some 0, transcript.push (.printed (bytes.extract 0 room))⟩

def print (text : String) : Action Unit :=
  printBytes text.toUTF8

def takeToken (room : Option Nat) (transcript : Array Emission) :
    List (List UInt8) → EStateM.Result Failure Console (Option String)
  | [] => .ok none ⟨[], [], room, transcript⟩
  | line :: lines =>
    match decode? line with
    | none => .error .notText ⟨lines, [], room, transcript⟩
    | some text =>
      match wordsOf text with
      | [] => takeToken room transcript lines
      | token :: tokens => .ok (some token) ⟨lines, tokens, room, transcript⟩

def nextToken : Action (Option String)
  | ⟨input, token :: tokens, room, transcript⟩ =>
    .ok (some token) ⟨input, tokens, room, transcript⟩
  | ⟨input, [], room, transcript⟩ => takeToken room transcript input

/-- Takes one line, if there is one, and leaves the words that wait. -/
def wait : Action Unit
  | ⟨[], pending, room, transcript⟩ => .ok () ⟨[], pending, room, transcript⟩
  | ⟨line :: lines, pending, room, transcript⟩ =>
    match decode? line with
    | none => .error .notText ⟨lines, pending, room, transcript⟩
    | some _ => .ok () ⟨lines, pending, room, transcript⟩

@[simp] theorem remaining_emit (e : Emission) (c : Console) :
    (c.emit e).remaining = c.remaining := rfl

theorem remaining_printBytes {bytes : ByteArray} {c c' : Console}
    (h : printBytes bytes c = .ok () c') : c'.remaining = c.remaining := by
  obtain ⟨input, pending, _ | room, transcript⟩ := c
  · simp only [printBytes, EStateM.Result.ok.injEq, true_and] at h
    subst h
    rfl
  · simp only [printBytes] at h
    split at h
    · simp only [EStateM.Result.ok.injEq, true_and] at h
      subst h
      rfl
    · simp at h

theorem remaining_print {text : String} {c c' : Console}
    (h : print text c = .ok () c') : c'.remaining = c.remaining :=
  remaining_printBytes h

theorem remaining_takeToken {room : Option Nat} {transcript : Array Emission}
    {input : List (List UInt8)} {token : String} {c : Console}
    (h : takeToken room transcript input = .ok (some token) c) :
    input.flatMap tokensOf = token :: c.remaining := by
  fun_induction takeToken room transcript input with
  | case1 => simp at h
  | case2 => simp at h
  | case3 line lines text hText hWords ih =>
    simp [tokensOf, hText, hWords, ih h]
  | case4 line lines text hText first rest hWords =>
    simp only [EStateM.Result.ok.injEq, Option.some.injEq] at h
    obtain ⟨rfl, rfl⟩ := h
    simp [tokensOf, hText, hWords, remaining]

theorem remaining_nextToken {c c' : Console} {token : String}
    (h : nextToken c = .ok (some token) c') : c.remaining = token :: c'.remaining := by
  obtain ⟨input, pending, room, transcript⟩ := c
  cases pending with
  | nil => exact remaining_takeToken h
  | cons first rest =>
    simp only [nextToken, EStateM.Result.ok.injEq, Option.some.injEq] at h
    obtain ⟨rfl, rfl⟩ := h
    rfl

def promptText : String := "input: \n"

/-- Prompts and takes tokens until one of them is a word. Every token taken is one
fewer to come. -/
def askFrom (w : Width) (c : Console) : EStateM.Result Failure Console Word :=
  match hPrint : print promptText c with
  | .error e c => .error e c
  | .ok _ prompted =>
    match hTake : nextToken prompted with
    | .error e c => .error e c
    | .ok none c => .error .inputClosed c
    | .ok (some token) taken =>
      match w.readToken token with
      | some v => .ok v taken
      | none =>
        have fewer : taken.remaining.length < c.remaining.length := by
          simp [← remaining_print hPrint, remaining_nextToken hTake]
        askFrom w (taken.emit (.noted (.discarded w token)))
termination_by c.remaining.length
decreasing_by simpa using fewer

def ask (w : Width) : Action Word :=
  askFrom w

end Console

end ToyMachine
