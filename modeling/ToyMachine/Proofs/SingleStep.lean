import Mathlib.Data.List.Flatten
import ToyMachine.Proofs.RunLoop
import ToyMachine.Proofs.Unpaused
import ToyMachine.Proofs.Console.Reading

/-! Runs that pause. After every cycle that goes well such a run takes one line for nothing, and
between two pauses it is the run that does not pause. The lines taken for nothing are the only
difference: without them the other run finds the same words, and meets the end of the input in
the same cycle. -/

namespace ToyMachine

open Console (Asks Served serve)

namespace Machine

/-- The lines that calls for a word took, in their order. -/
def typedLines (history : List Served) : List (List UInt8) :=
  (history.filter (·.request = .token)).flatMap Served.lines

/-- The cycles of a run that pauses, with the calls that take lines in them. Each cycle that goes
well is followed by one pause, also the last one. -/
inductive Paced (o : RunOptions) :
    Nat → Machine → List Served → Except RunFailure Unit → Machine → Prop where
  | halted (m : Machine) (halted : m.cpu.halted = true) : Paced o 0 m [] (.ok ()) m
  | failed {m m' : Machine} {calls : List Served} {e : RunFailure}
      (running : m.cpu.halted = false) (failed : cycle o.unpaused m = .error e m')
      (asks : Asks m.console calls m'.console) : Paced o 0 m calls (.error e) m'
  | cycle {n : Nat} {m m₁ m' : Machine} {calls history : List Served} {pause : Served}
      {c₂ : Console} {outcome : Except RunFailure Unit}
      (running : m.cpu.halted = false) (ran : cycle o.unpaused m = .ok () m₁)
      (asks : Asks m.console calls m₁.console)
      (paused : serve .pause m₁.console = (pause, c₂)) (passed : pause.answer = .ok none) :
      Paced o n ⟨m₁.cpu, m₁.memory, c₂⟩ history outcome m' →
        Paced o (n + 1) m (calls ++ pause :: history) outcome m'

def concluded (outcome : Except RunFailure Unit) (m : Machine) :
    EStateM.Result RunFailure Machine Bool :=
  match outcome with
  | .ok _ => .ok true m.withEnd
  | .error e => .error e m

/-- The run has come to its end: the cycles that it was given were not too few. -/
def Concluded (r : EStateM.Result RunFailure Machine Bool) : Prop :=
  ∀ m, r ≠ .ok false m

instance : DecidablePred Concluded
  | .ok true _ => isTrue fun _ same => Bool.noConfusion (EStateM.Result.ok.inj same).1
  | .ok false m => isFalse fun h => h m rfl
  | .error _ _ => isTrue fun _ same => by cases same

section Calls

variable {o : RunOptions} {n : Nat} {m m' : Machine} {calls history : List Served}
  {outcome : Except RunFailure Unit}

theorem typedLines_append (calls history : List Served) :
    typedLines (calls ++ history) = typedLines calls ++ typedLines history := by
  rw [typedLines, List.filter_append, List.flatMap_append]
  rfl

theorem typedLines_of_asks {c c' : Console} (asks : Asks c calls c') :
    typedLines calls = calls.flatMap Served.lines := by
  have all : calls.filter (·.request = .token) = calls := by
    rw [List.filter_eq_self]
    intro call member
    exact decide_eq_true (asks.requests call member)
  rw [typedLines, all]

theorem typedLines_pause {pause : Served} (request : pause.request = .pause)
    (history : List Served) : typedLines (pause :: history) = typedLines history := by
  rw [typedLines, List.filter_cons_of_neg (by simp [request])]
  rfl

theorem typedLines_sublist (history : List Served) :
    (typedLines history).Sublist (history.flatMap Served.lines) :=
  List.filter_sublist.flatMap Served.lines

theorem serve_pause_request {c c₂ : Console} {pause : Served}
    (paused : serve .pause c = (pause, c₂)) : pause.request = .pause := by
  have request := Console.serve_request .pause c
  rwa [paused] at request

theorem Paced.pauses (h : Paced o n m history outcome m') :
    history.countP (·.request = .pause) = n := by
  have none {c c' : Console} {calls : List Served} (asks : Asks c calls c') :
      calls.countP (·.request = .pause) = 0 := by
    rw [List.countP_eq_zero]
    intro call member
    simp [asks.requests call member]
  induction h with
  | halted => rfl
  | failed _ _ asks => exact none asks
  | cycle _ _ asks paused _ _ ih =>
    rw [List.countP_append, none asks, Nat.zero_add,
      List.countP_cons_of_pos (by simp [serve_pause_request paused]), ih]

theorem Paced.input (h : Paced o n m history outcome m') :
    history.flatMap Served.lines ++ m'.console.input = m.console.input := by
  induction h with
  | halted => rfl
  | failed _ _ asks => exact asks.input
  | @cycle _ _ m₁ _ _ _ pause c₂ _ _ _ asks paused _ _ ih =>
    have taken := Console.serve_input .pause m₁.console
    rw [paused] at taken
    rw [List.flatMap_append, List.flatMap_cons, List.append_assoc, List.append_assoc, ih]
    exact (congrArg _ taken).trans asks.input

end Calls

section Runs

variable {o : RunOptions} {m m₁ : Machine}

def resumed (c : Console) : Console :=
  ⟨c.input.drop 1, c.pending, c.room, c.transcript⟩

theorem wait_of_texts {c : Console} (texts : ∀ line ∈ c.input, (Console.decode? line).isSome) :
    Console.wait c = .ok () (resumed c) := by
  obtain ⟨input, pending, room, transcript⟩ := c
  cases input with
  | nil => rfl
  | cons line lines =>
    obtain ⟨text, decoded⟩ := Option.isSome_iff_exists.mp (texts line (List.mem_cons_self ..))
    rw [Console.wait, decoded]
    rfl

theorem pauseAnswer_of_texts {input : List (List UInt8)}
    (texts : ∀ line ∈ input, (Console.decode? line).isSome) :
    Console.pauseAnswer input = .ok none := by
  rw [Console.pauseAnswer, if_pos]
  exact fun line member => texts line (List.mem_of_mem_take member)

theorem cycle_of_unpaused_error {e : RunFailure} (failed : cycle o.unpaused m = .error e m₁) :
    cycle o m = .error e m₁ := by
  rw [cycle_eq, bind_of_error failed]

theorem cycle_of_pause (stepping : o.singleStep = true) {c : Console}
    (ran : cycle o.unpaused m = .ok () m₁) (waited : Console.wait m₁.console = .ok () c) :
    cycle o m = .ok () ⟨m₁.cpu, m₁.memory, c⟩ := by
  rw [cycle_eq, bind_of_ok ran, stepping, if_pos rfl, mapFailure,
    onConsole_ok m₁.cpu m₁.memory waited]

/-- The run goes by cycles and pauses, and the run that does not pause and has the typed lines
alone comes to the same end. -/
def RunsPaced (o : RunOptions) (k : Nat) (m : Machine) : Prop :=
  ∃ n history outcome m', Paced o n m history outcome m' ∧
    runToHalt o k m = concluded outcome m' ∧
    runToHalt o.unpaused k (m.withInput (typedLines history)) =
      concluded outcome (m'.withInput [])

theorem runsPaced_of_halted (halted : m.cpu.halted = true) (k : Nat) : RunsPaced o k m := by
  have halted' : (m.withInput []).cpu.halted = true := halted
  exact ⟨0, [], .ok (), m, .halted m halted, runToHalt_of_halted halted k,
    runToHalt_of_halted halted' k⟩

theorem runsPaced_of_error {e : RunFailure} {calls : List Served}
    (running : m.cpu.halted = false) (failed : cycle o.unpaused m = .error e m₁)
    (asks : Asks m.console calls m₁.console)
    (alone : cycle o.unpaused (m.withInput (calls.flatMap Served.lines)) =
      .error e (m₁.withInput [])) (k : Nat) : RunsPaced o (k + 1) m := by
  have running' : (m.withInput (typedLines calls)).cpu.halted = false := running
  refine ⟨0, calls, .error e, m₁, .failed running failed asks, ?_, ?_⟩
  · rw [runToHalt_succ running, bind_of_error (cycle_of_unpaused_error failed)]
    rfl
  · rw [runToHalt_succ running', typedLines_of_asks asks, bind_of_error alone]
    rfl

/-- A pause takes its line from the one run, and nothing from the other. -/
theorem RunsPaced.cons {k : Nat} {calls : List Served}
    (rest : RunsPaced o k ⟨m₁.cpu, m₁.memory, resumed m₁.console⟩)
    (stepping : o.singleStep = true) (running : m.cpu.halted = false)
    (ran : cycle o.unpaused m = .ok () m₁) (asks : Asks m.console calls m₁.console)
    (before : ∀ lines, cycle o.unpaused (m.withInput (calls.flatMap Served.lines ++ lines)) =
      .ok () (m₁.withInput lines))
    (texts : ∀ line ∈ m₁.console.input, (Console.decode? line).isSome) :
    RunsPaced o (k + 1) m := by
  obtain ⟨n, history, outcome, m', paced, ended, other⟩ := rest
  have paused := Console.serve_pause m₁.console
  rw [pauseAnswer_of_texts texts] at paused
  have running' (lines : List (List UInt8)) : (m.withInput lines).cpu.halted = false := running
  have typed : typedLines (calls ++ ⟨.pause, m₁.console.input.take 1, .ok none⟩ :: history) =
      calls.flatMap Served.lines ++ typedLines history := by
    rw [typedLines_append, typedLines_of_asks asks, typedLines_pause rfl]
  refine ⟨n + 1, _, outcome, m', .cycle running ran asks paused rfl paced, ?_, ?_⟩
  · rw [runToHalt_succ running, bind_of_ok (cycle_of_pause stepping ran (wait_of_texts texts))]
    exact ended
  · rw [typed, runToHalt_succ (running' _), bind_of_ok (before _)]
    exact other

theorem runsPaced (stepping : o.singleStep = true) {k : Nat} (roomy : m.console.room = none)
    (texts : ∀ line ∈ m.console.input, (Console.decode? line).isSome)
    (ends : Concluded (runToHalt o k m)) : RunsPaced o k m := by
  induction k generalizing m with
  | zero =>
    cases halted : m.cpu.halted with
    | true => exact runsPaced_of_halted halted 0
    | false => exact absurd (runToHalt_zero halted) (ends m)
  | succ k ih =>
    cases halted : m.cpu.halted with
    | true => exact runsPaced_of_halted halted (k + 1)
    | false =>
      obtain ⟨calls, asks, replays⟩ := (cycle_speaks o).reads m.cpu m.memory roomy
      -- The cycle without its pause is what both runs do, and only the lines behind differ.
      change Asks m.console calls (finalState (cycle o.unpaused m)).console at asks
      change Console.Replays withInput _ _ _ (cycle o.unpaused m) at replays
      cases ran : cycle o.unpaused m with
      | error e m₁ =>
        rw [ran] at asks replays
        exact runsPaced_of_error halted ran asks replays k
      | ok u m₁ =>
        rw [ran] at asks replays
        have texts₁ : ∀ line ∈ m₁.console.input, (Console.decode? line).isSome := by
          intro line member
          apply texts
          rw [← asks.input]
          exact List.mem_append_right _ member
        have texts₂ : ∀ line ∈ (resumed m₁.console).input, (Console.decode? line).isSome :=
          fun line member => texts₁ line (List.mem_of_mem_drop member)
        have roomy₂ : (resumed m₁.console).room = none := asks.room.trans roomy
        rw [runToHalt_succ halted,
          bind_of_ok (cycle_of_pause stepping ran (wait_of_texts texts₁))] at ends
        have rest : RunsPaced o k ⟨m₁.cpu, m₁.memory, resumed m₁.console⟩ :=
          ih roomy₂ texts₂ ends
        exact rest.cons stepping halted ran asks replays texts₁

theorem ofInput_typedLines {bytes : ByteArray} {n : Nat} {m' : Machine} {history : List Served}
    {outcome : Except RunFailure Unit} (cpu : Processor) (memory : Memory)
    (paced : Paced o n ⟨cpu, memory, .ofInput bytes none⟩ history outcome m') :
    Console.ofInput (typedLines history).flatten.toByteArray none =
      (Console.ofInput bytes none).withInput (typedLines history) := by
  have picked : (typedLines history).Sublist (Console.linesOf bytes.toList) := by
    have taken := (typedLines_sublist history).trans (List.sublist_append_left _ m'.console.input)
    rwa [paced.input] at taken
  rw [Console.ofInput, Console.toList_toByteArray,
    (Console.cutInLines_linesOf bytes.toList).linesOf_sublist picked]
  rfl

theorem matches_concluded (outcome : Except RunFailure Unit) (m : Machine) :
    Matches (fun m m' => m' = m.withInput []) (concluded outcome m)
      (concluded outcome (m.withInput [])) := by
  cases outcome with
  | ok _ => exact .ok true rfl
  | error e => exact .error e rfl

/-- A run that pauses and comes to its end has paused once after every cycle that went well. The
run that does not pause and is given only the lines that calls for a word took comes to the same
end, with the same processor, memory, words that wait and transcript, and has used these lines
up. -/
theorem runToHalt_singleStep (stepping : o.singleStep = true) (cpu : Processor) (memory : Memory)
    (typed : String) {k : Nat}
    (ends : Concluded (runToHalt o k ⟨cpu, memory, .ofInput typed.toUTF8 none⟩)) :
    let start (bytes : ByteArray) : Machine := ⟨cpu, memory, .ofInput bytes none⟩
    ∃ n history outcome m', Paced o n (start typed.toUTF8) history outcome m' ∧
      history.countP (·.request = .pause) = n ∧
      runToHalt o k (start typed.toUTF8) = concluded outcome m' ∧
      Matches (fun m m' => m' = m.withInput []) (runToHalt o k (start typed.toUTF8))
        (runToHalt o.unpaused k (start (typedLines history).flatten.toByteArray)) := by
  intro start
  have texts : ∀ line ∈ (start typed.toUTF8).console.input, (Console.decode? line).isSome := by
    change ∀ line ∈ Console.linesOf typed.toUTF8.toList, (Console.decode? line).isSome
    rw [Console.toList_toUTF8]
    exact Console.decodes_of_mem_linesOf_encode typed.toList
  obtain ⟨n, history, outcome, m', paced, ended, other⟩ := runsPaced stepping rfl texts ends
  have other' : runToHalt o.unpaused k (start (typedLines history).flatten.toByteArray) =
      concluded outcome (m'.withInput []) := by
    rw [← other]
    exact congrArg (fun c => runToHalt o.unpaused k ⟨cpu, memory, c⟩)
      (ofInput_typedLines cpu memory paced)
  refine ⟨n, history, outcome, m', paced, paced.pauses, ended, ?_⟩
  rw [ended, other']
  exact matches_concluded outcome m'

/-- A program that asks for two words gets the second one from the third line, since a pause
takes the second line. -/
theorem runToHalt_singleStep_twoWords :
    let o : RunOptions := { trace := false, singleStep := true }
    let memory := (Memory.zeroed.set .narrow (0x10 : Fin 0x100) 0x8AFF).set .narrow
      (0x11 : Fin 0x100) 0x8BFF
    let start (bytes : ByteArray) : Machine :=
      ⟨Processor.startingAt 0x10, memory, .ofInput bytes none⟩
    let typed := "1F\nskipped\n2E\n"
    ∃ n history outcome m', Paced o n (start typed.toUTF8) history outcome m' ∧
      (finalState (runToHalt o.unpaused 3
        (start (typedLines history).flatten.toByteArray))).cpu.register 0xB = 0x2E := by
  intro o memory start typed
  have ends : Concluded (runToHalt o 3 (start typed.toUTF8)) := by decide +kernel
  have word : (finalState (runToHalt o 3 (start typed.toUTF8))).cpu.register 0xB = 0x2E := by
    decide +kernel
  obtain ⟨n, history, outcome, m', paced, -, -, same⟩ :=
    runToHalt_singleStep rfl (Processor.startingAt 0x10) memory typed ends
  refine ⟨n, history, outcome, m', paced, ?_⟩
  rw [same.final]
  exact word

end Runs

end Machine

end ToyMachine
