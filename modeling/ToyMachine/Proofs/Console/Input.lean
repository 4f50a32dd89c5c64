import ToyMachine.Console.Basic
import ToyMachine.Proofs.Text.Lines
import ToyMachine.Proofs.Text.Words

/-! The operator's input through any calls at the console. Every line is taken by one call and
in order, every word on a line that a call for a word took is handed out or waits, and waiting
for the operator takes a line for nothing. What one call does is said first, the calls one
after another follow by induction. -/

namespace ToyMachine.Console

/-- The bytes are these lines: each has its line feed and no other, and only the last one may
lack it. -/
inductive CutInLines : List (List UInt8) → List UInt8 → Prop where
  | nil : CutInLines [] []
  | last {line : List UInt8} (present : line ≠ []) (plain : ∀ b ∈ line, (b == 0x0A) = false) :
      CutInLines [line] line
  | line (body : List UInt8) {bytes : List UInt8} {lines : List (List UInt8)}
      (plain : ∀ b ∈ body, (b == 0x0A) = false) :
      CutInLines lines bytes → CutInLines ((body ++ [0x0A]) :: lines) (body ++ 0x0A :: bytes)

theorem CutInLines.linesOf_eq {lines : List (List UInt8)} {bytes : List UInt8}
    (h : CutInLines lines bytes) : linesOf bytes = lines := by
  induction h with
  | nil => rfl
  | last present plain => exact Text.cutAfter_of_plain plain present
  | line body plain _ ih => rw [linesOf, Text.cutAfter_append_cons plain rfl, ← linesOf, ih]

theorem exists_cutInLines (bytes : List UInt8) : ∃ lines, CutInLines lines bytes := by
  induction bytes with
  | nil => exact ⟨[], .nil⟩
  | cons b bytes ih =>
    obtain ⟨lines, rest⟩ := ih
    cases feed : b == 0x0A with
    | true =>
      obtain rfl := eq_of_beq feed
      exact ⟨[0x0A] :: lines, .line [] (by simp) rest⟩
    | false =>
      -- The byte belongs to the first line of the rest.
      cases rest with
      | nil => exact ⟨[[b]], .last (List.cons_ne_nil b []) (by simpa using feed)⟩
      | last _ plain =>
        exact ⟨[b :: bytes], .last (List.cons_ne_nil b bytes)
          (List.forall_mem_cons.mpr ⟨feed, plain⟩)⟩
      | line body plain rest =>
        exact ⟨_, .line (b :: body) (List.forall_mem_cons.mpr ⟨feed, plain⟩) rest⟩

theorem cutInLines_linesOf (bytes : List UInt8) : CutInLines (linesOf bytes) bytes := by
  obtain ⟨lines, cut⟩ := exists_cutInLines bytes
  rwa [cut.linesOf_eq]

/-- Lines picked from those of some bytes, in their order, are the lines of what they make
together. -/
theorem CutInLines.linesOf_sublist {lines picked : List (List UInt8)} {bytes : List UInt8}
    (h : CutInLines lines bytes) (sublist : picked.Sublist lines) :
    linesOf picked.flatten = picked :=
  Text.cutAfter_of_sublist (h.linesOf_eq.symm ▸ sublist)

/-- These are the tokens on a line: its words where it is text, and none where it is not. -/
inductive Carries : List UInt8 → List String → Prop where
  | text {line : List UInt8} {text : String} {ws : List (List Char)}
      (decoded : decode? line = some text) (split : Text.HasWords ws text.toList) :
      Carries line (ws.map String.ofList)
  | garbage {line : List UInt8} (undecoded : decode? line = none) : Carries line []

theorem carries_tokensOf (line : List UInt8) : Carries line (tokensOf line) := by
  rw [tokensOf]
  split
  · next text decoded => exact .text decoded (Text.hasWords_iff.mpr rfl)
  · next undecoded => exact .garbage undecoded

def Wordless (line : List UInt8) : Prop :=
  (decode? line).isSome ∧ tokensOf line = []

/-- A call for a word: a word that waits is handed out, else lines are taken up to the first
that has words or is not text, or to the end. -/
inductive Fetch :
    Console → List (List UInt8) → Except Failure (Option String) → Console → Prop where
  | waiting (input : List (List UInt8)) (token : String) (tokens : List String)
      (room : Option Nat) (transcript : Array Emission) :
      Fetch ⟨input, token :: tokens, room, transcript⟩ [] (.ok (some token))
        ⟨input, tokens, room, transcript⟩
  | exhausted {blanks : List (List UInt8)} (room : Option Nat) (transcript : Array Emission)
      (wordless : ∀ line ∈ blanks, Wordless line) :
      Fetch ⟨blanks, [], room, transcript⟩ blanks (.ok none) ⟨[], [], room, transcript⟩
  | refused (blanks : List (List UInt8)) {line : List UInt8} (lines : List (List UInt8))
      (room : Option Nat) (transcript : Array Emission)
      (wordless : ∀ line ∈ blanks, Wordless line) (undecoded : decode? line = none) :
      Fetch ⟨blanks ++ line :: lines, [], room, transcript⟩ (blanks ++ [line])
        (.error .notText) ⟨lines, [], room, transcript⟩
  | typed (blanks : List (List UInt8)) {line : List UInt8} {token : String}
      {tokens : List String} (lines : List (List UInt8)) (room : Option Nat)
      (transcript : Array Emission) (wordless : ∀ line ∈ blanks, Wordless line)
      (decoded : (decode? line).isSome) (words : tokensOf line = token :: tokens) :
      Fetch ⟨blanks ++ line :: lines, [], room, transcript⟩ (blanks ++ [line])
        (.ok (some token)) ⟨lines, tokens, room, transcript⟩

theorem Fetch.skip {input lines : List (List UInt8)} {room : Option Nat}
    {transcript : Array Emission} {answer : Except Failure (Option String)} {c' : Console}
    {line : List UInt8} (blank : Wordless line)
    (h : Fetch ⟨input, [], room, transcript⟩ lines answer c') :
    Fetch ⟨line :: input, [], room, transcript⟩ (line :: lines) answer c' := by
  cases h with
  | exhausted _ _ wordless =>
    exact .exhausted room transcript (List.forall_mem_cons.mpr ⟨blank, wordless⟩)
  | refused blanks rest _ _ wordless undecoded =>
    exact .refused (line :: blanks) rest room transcript
      (List.forall_mem_cons.mpr ⟨blank, wordless⟩) undecoded
  | typed blanks rest _ _ wordless decoded words =>
    exact .typed (line :: blanks) rest room transcript
      (List.forall_mem_cons.mpr ⟨blank, wordless⟩) decoded words

inductive Request where
  /-- A call for a word. -/
  | token
  /-- A call that waits for the operator. -/
  | pause
deriving DecidableEq

structure Served where
  request : Request
  /-- The lines that the call took. -/
  lines : List (List UInt8)
  answer : Except Failure (Option String)

def Request.action : Request → Action (Option String)
  | token => nextToken
  | pause => do
    wait
    return none

def taken (c c' : Console) : List (List UInt8) :=
  c.input.take (c.input.length - c'.input.length)

theorem taken_eq {c c' : Console} {lines : List (List UInt8)}
    (h : lines ++ c'.input = c.input) : taken c c' = lines := by
  rw [taken, ← h, List.length_append, Nat.add_sub_cancel, List.take_left]

def result {α : Type} (answer : Except Failure α) (c : Console) :
    EStateM.Result Failure Console α :=
  match answer with
  | .ok a => .ok a c
  | .error failure => .error failure c

def serve (request : Request) (c : Console) : Served × Console :=
  match request.action c with
  | .ok answer c' => (⟨request, taken c c', .ok answer⟩, c')
  | .error failure c' => (⟨request, taken c c', .error failure⟩, c')

def serveAll : List Request → Console → List Served × Console
  | [], c => ([], c)
  | request :: requests, c =>
    let (call, c') := serve request c
    let (calls, c'') := serveAll requests c'
    (call :: calls, c'')

namespace Served

def token? (call : Served) : Option String :=
  match call.answer with
  | .ok token => token
  | .error _ => none

def typed (call : Served) : List String :=
  match call.request with
  | .token => call.lines.flatMap tokensOf
  | .pause => []

end Served

theorem fetch_takeToken (room : Option Nat) (transcript : Array Emission)
    (input : List (List UInt8)) :
    ∃ lines answer c', Fetch ⟨input, [], room, transcript⟩ lines answer c' ∧
      takeToken room transcript input = result answer c' := by
  fun_induction takeToken room transcript input with
  | case1 => exact ⟨[], .ok none, _, .exhausted room transcript (by simp), rfl⟩
  | case2 line lines undecoded =>
    exact ⟨[line], .error .notText, _,
      .refused [] lines room transcript (by simp) undecoded, rfl⟩
  | case3 line lines text decoded none ih =>
    obtain ⟨taken, answer, c', fetch, eq⟩ := ih
    have blank : Wordless line := ⟨by simp [decoded], by rw [tokensOf, decoded]; exact none⟩
    exact ⟨line :: taken, answer, c', fetch.skip blank, eq⟩
  | case4 line lines text decoded token tokens words =>
    have carried : tokensOf line = token :: tokens := by rw [tokensOf, decoded]; exact words
    exact ⟨[line], .ok (some token), _,
      .typed [] lines room transcript (by simp) (by simp [decoded]) carried, rfl⟩

theorem fetch_nextToken (c : Console) :
    ∃ lines answer c', Fetch c lines answer c' ∧ nextToken c = result answer c' := by
  obtain ⟨input, pending, room, transcript⟩ := c
  cases pending with
  | nil => exact fetch_takeToken room transcript input
  | cons token tokens =>
    exact ⟨[], .ok (some token), _, .waiting input token tokens room transcript, rfl⟩

section Calls

variable {c c' : Console} {lines : List (List UInt8)} {answer : Except Failure (Option String)}

theorem Fetch.input (h : Fetch c lines answer c') : lines ++ c'.input = c.input := by
  cases h with
  | waiting => rfl
  | exhausted => exact List.append_nil _
  | refused => exact List.append_assoc ..
  | typed => exact List.append_assoc ..

theorem serve_of_action {request : Request} (h : request.action c = result answer c')
    (rest : lines ++ c'.input = c.input) :
    serve request c = (⟨request, lines, answer⟩, c') := by
  rw [serve, h]
  cases answer with
  | ok token => simp only [result, taken_eq rest]
  | error failure => simp only [result, taken_eq rest]

theorem serve_token (c : Console) :
    ∃ lines answer c', Fetch c lines answer c' ∧
      serve .token c = (⟨.token, lines, answer⟩, c') := by
  obtain ⟨lines, answer, c', fetch, eq⟩ := fetch_nextToken c
  exact ⟨lines, answer, c', fetch, serve_of_action eq fetch.input⟩

def pauseAnswer (input : List (List UInt8)) : Except Failure (Option String) :=
  if ∀ line ∈ input.take 1, (decode? line).isSome then .ok none else .error .notText

theorem serve_pause (c : Console) :
    serve .pause c = (⟨.pause, c.input.take 1, pauseAnswer c.input⟩,
      ⟨c.input.drop 1, c.pending, c.room, c.transcript⟩) := by
  refine serve_of_action ?_ (List.take_append_drop 1 c.input)
  obtain ⟨input, pending, room, transcript⟩ := c
  cases input with
  | nil => rfl
  | cons line lines =>
    change (EStateM.bind wait fun _ => EStateM.pure none) _ = _
    rw [EStateM.bind, wait, pauseAnswer]
    cases decoded : decode? line with
    | none => simp [decoded, result]
    | some text => simp [decoded, result, EStateM.pure]

/-- What a call for a word does to the input and to the words that wait. -/
structure Fetched (c : Console) (call : Served) (c' : Console) : Prop where
  /-- No line is read while words wait; the first of them is the answer. -/
  waiting : c.pending ≠ [] →
    call.lines = [] ∧ call.answer = .ok c.pending.head? ∧ c'.pending = c.pending.tail
  reads : c.pending = [] → c.input ≠ [] → call.lines ≠ []
  /-- The call ends with the first line that has a word or is not text. -/
  wordless : ∀ line ∈ call.lines.dropLast, Wordless line
  garbage : call.answer = .error .notText ↔ ∃ line ∈ call.lines, decode? line = none
  failure : ∀ failure, call.answer = .error failure → failure = .notText ∧ c'.pending = []
  exhausted : call.answer = .ok none ↔ c.pending = [] ∧ ∀ line ∈ c.input, Wordless line
  ended : call.answer = .ok none → c'.pending = [] ∧ c'.input = []

/-- What waiting does: it takes one line if there is one, and leaves the words that wait. -/
structure Paused (c : Console) (call : Served) (c' : Console) : Prop where
  lines : call.lines = c.input.take 1
  pending : c'.pending = c.pending
  passes : call.answer = .ok none ↔ ∀ line ∈ call.lines, (decode? line).isSome
  garbage : call.answer = .error .notText ↔ ∃ line ∈ call.lines, decode? line = none

theorem Wordless.decodes {line : List UInt8} (h : Wordless line) : decode? line ≠ none :=
  Option.isSome_iff_ne_none.mp h.1

theorem Wordless.ne_of_words {line line' : List UInt8} {token : String} {tokens : List String}
    (h : Wordless line) (words : tokensOf line' = token :: tokens) : line ≠ line' := by
  rintro rfl
  exact absurd (h.2.symm.trans words) (by simp)

theorem Fetch.fetched (h : Fetch c lines answer c') :
    Fetched c ⟨.token, lines, answer⟩ c' := by
  cases h with
  | waiting => constructor <;> simp
  | exhausted _ _ wordless =>
    exact
      { waiting := fun queued => absurd rfl queued
        reads := fun _ present => present
        wordless := fun line member => wordless line (List.dropLast_subset _ member)
        garbage := iff_of_false nofun fun ⟨line, member, undecoded⟩ =>
          (wordless line member).decodes undecoded
        failure := nofun
        exhausted := iff_of_true rfl ⟨rfl, wordless⟩
        ended := fun _ => ⟨rfl, rfl⟩ }
  | @refused blanks line _ _ _ wordless undecoded =>
    exact
      { waiting := fun queued => absurd rfl queued
        reads := fun _ _ => by simp
        wordless := by simpa using wordless
        garbage := iff_of_true rfl ⟨line, by simp, undecoded⟩
        failure := fun failure eq => ⟨(Except.error.inj eq).symm, rfl⟩
        exhausted := iff_of_false nofun fun ⟨_, all⟩ => (all line (by simp)).decodes undecoded
        ended := nofun }
  | @typed blanks line _ _ _ _ _ wordless decoded words =>
    have readable : ∀ l ∈ blanks ++ [line], decode? l ≠ none := by
      intro l member
      rcases List.mem_append.mp member with blank | last
      · exact (wordless l blank).decodes
      · rw [List.mem_singleton.mp last]
        exact Option.isSome_iff_ne_none.mp decoded
    exact
      { waiting := fun queued => absurd rfl queued
        reads := fun _ _ => by simp
        wordless := by simpa using wordless
        garbage := iff_of_false nofun fun ⟨l, member, undecoded⟩ => readable l member undecoded
        failure := nofun
        exhausted := iff_of_false nofun fun ⟨_, all⟩ =>
          (all line (by simp)).ne_of_words words rfl
        ended := nofun }

theorem fetched_serve (c : Console) : Fetched c (serve .token c).1 (serve .token c).2 := by
  obtain ⟨lines, answer, c', fetch, eq⟩ := serve_token c
  rw [eq]
  exact fetch.fetched

theorem paused_serve (c : Console) : Paused c (serve .pause c).1 (serve .pause c).2 := by
  rw [serve_pause]
  constructor
  case lines => rfl
  case pending => rfl
  case passes => simp [pauseAnswer, Option.isSome_iff_ne_none]
  case garbage => simp [pauseAnswer, Option.isSome_iff_ne_none]

theorem serve_input (request : Request) (c : Console) :
    (serve request c).1.lines ++ (serve request c).2.input = c.input := by
  cases request with
  | token =>
    obtain ⟨lines, answer, c', fetch, eq⟩ := serve_token c
    rw [eq]
    exact fetch.input
  | pause =>
    rw [serve_pause]
    exact List.take_append_drop 1 c.input

theorem flatMap_tokensOf_of_wordless {blanks : List (List UInt8)}
    (wordless : ∀ line ∈ blanks, Wordless line) : blanks.flatMap tokensOf = [] :=
  List.flatMap_eq_nil_iff.mpr fun line member => (wordless line member).2

theorem tokensOf_of_undecoded {line : List UInt8} (undecoded : decode? line = none) :
    tokensOf line = [] := by
  rw [tokensOf, undecoded]

theorem Fetch.pending (h : Fetch c lines answer c') :
    (Served.token? ⟨.token, lines, answer⟩).toList ++ c'.pending =
      c.pending ++ lines.flatMap tokensOf := by
  cases h with
  | waiting => simp [Served.token?]
  | exhausted _ _ wordless => simp [Served.token?, flatMap_tokensOf_of_wordless wordless]
  | refused _ _ _ _ wordless undecoded =>
    simp [Served.token?, flatMap_tokensOf_of_wordless wordless, tokensOf_of_undecoded undecoded]
  | typed _ _ _ _ wordless _ words =>
    simp [Served.token?, flatMap_tokensOf_of_wordless wordless, words]

theorem serve_pending (request : Request) (c : Console) :
    (serve request c).1.token?.toList ++ (serve request c).2.pending =
      c.pending ++ (serve request c).1.typed := by
  cases request with
  | token =>
    obtain ⟨lines, answer, c', fetch, eq⟩ := serve_token c
    rw [eq]
    exact fetch.pending
  | pause =>
    rw [serve_pause, pauseAnswer]
    split <;> simp [Served.token?, Served.typed]

theorem serve_request (request : Request) (c : Console) :
    (serve request c).1.request = request := by
  rw [serve]
  split <;> rfl

end Calls

/-- What a list of calls leaves of the lines and words that were there. -/
structure Accounted (c : Console) (requests : List Request) (log : List Served)
    (c' : Console) : Prop where
  requests : log.map Served.request = requests
  lines : log.flatMap Served.lines ++ c'.input = c.input
  tokens : log.filterMap Served.token? ++ c'.pending = c.pending ++ log.flatMap Served.typed

theorem accounted_serveAll (requests : List Request) (c : Console) :
    Accounted c requests (serveAll requests c).1 (serveAll requests c).2 := by
  induction requests generalizing c with
  | nil => exact ⟨rfl, rfl, (List.append_nil _).symm⟩
  | cons request requests ih =>
    have rest := ih (serve request c).2
    rw [serveAll]
    exact
      { requests := by rw [List.map_cons, serve_request, rest.requests]
        lines := by rw [List.flatMap_cons, List.append_assoc, rest.lines, serve_input]
        tokens := by
          rw [List.flatMap_cons, ← List.append_assoc, ← serve_pending, List.append_assoc,
            ← rest.tokens]
          cases word : (serve request c).1.token? with
          | none => rw [List.filterMap_cons_none word]; rfl
          | some token => rw [List.filterMap_cons_some word]; rfl }

/-- For every input and every list of calls: the lines of the input are those that the calls
took, each by one call and in order, and those still there; the words handed out and those
that wait are those on the lines that calls for a word took; and whatever call is next, a call
for a word and a call that waits take what they should. -/
theorem input_accounted (bytes : ByteArray) (room : Option Nat) (requests : List Request) :
    let log := (serveAll requests (ofInput bytes room)).1
    let c := (serveAll requests (ofInput bytes room)).2
    log.map Served.request = requests ∧
    CutInLines (log.flatMap Served.lines ++ c.input) bytes.toList ∧
    log.filterMap Served.token? ++ c.pending = log.flatMap Served.typed ∧
    (∀ line ∈ log.flatMap Served.lines, Carries line (tokensOf line)) ∧
    (∀ request, (serve request c).1.lines ++ (serve request c).2.input = c.input) ∧
    Fetched c (serve .token c).1 (serve .token c).2 ∧
    Paused c (serve .pause c).1 (serve .pause c).2 := by
  intro log c
  have accounted := accounted_serveAll requests (ofInput bytes room)
  refine ⟨accounted.requests, ?_, ?_, fun line _ => carries_tokensOf line,
    fun request => serve_input request c, fetched_serve c, paused_serve c⟩
  · rw [accounted.lines]
    exact cutInLines_linesOf bytes.toList
  · exact accounted.tokens

end ToyMachine.Console
