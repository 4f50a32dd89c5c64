import ToyMachine.CommandLine.Program
import ToyMachine.Proofs.Image.Loading
import ToyMachine.Proofs.Rounds

/-! How the program ends. A file that gives no memory ends it at once, with no more than the
journal of the loader on the output. Any other file gives a machine, and from then on only the
calls of `step`, and the pauses between them, decide about the status. What is displayed or
reported decides nothing; and where nothing is, the output is that of the calls. This holds
whatever the front end is: the arguments only have to be some that it reads. -/

namespace ToyMachine

namespace Image

/-- A file that gives no memory, with the reason and what is reported before that is known. -/
inductive Refused : Option ByteArray → FileFailure → List Event → Prop where
  | missing : Refused none .missing []
  | notText {bytes : ByteArray} (foreign : ∀ text : String, text.toUTF8 ≠ bytes) :
      Refused (some bytes) .notText []
  | defective {text : String} (present : (load .zeroed text).defects ≠ []) :
      Refused (some text.toUTF8) (.defective (load .zeroed text).defects)
        (load .zeroed text).events.toList

theorem fileText_toUTF8 (text : String) : fileText (some text.toUTF8) = .ok text := by
  have valid : text.toUTF8.IsValidUTF8 := text.isValidUTF8
  rw [fileText, String.fromUTF8?, dif_pos valid]
  rfl

theorem fileText_of_foreign {bytes : ByteArray} (foreign : ∀ text : String, text.toUTF8 ≠ bytes) :
    fileText (some bytes) = .error .notText := by
  have invalid : ¬ bytes.IsValidUTF8 := fun valid => foreign (String.fromUTF8 bytes valid) rfl
  rw [fileText, String.fromUTF8?, dif_neg invalid]

theorem refused_or_text (content : Option ByteArray) :
    (∃ failure events, Refused content failure events) ∨
      ∃ text : String, content = some text.toUTF8 ∧ (load .zeroed text).defects = [] := by
  cases content with
  | none => exact .inl ⟨_, _, .missing⟩
  | some bytes =>
    by_cases native : ∃ text : String, text.toUTF8 = bytes
    · obtain ⟨text, rfl⟩ := native
      by_cases clean : (load .zeroed text).defects = []
      · exact .inr ⟨text, rfl, clean⟩
      · exact .inl ⟨_, _, .defective clean⟩
    · exact .inl ⟨_, _, .notText fun text same => native ⟨text, same⟩⟩

end Image

namespace Program

open CommandLine
open Console (Abreast Follows Noted)
open Machine (Across round rounds runToHalt)

section Printing

variable (f : Frontend)

def loadingLog (v : Verbosity) (events : List Image.Event) : String :=
  String.join (((events.map Notice.loading).filter fun n => v.shows n.level).map f.line)

def launch (arguments : List String) (files : String → Option ByteArray) (input : ByteArray) :
    Start :=
  match f.parse arguments with
  | .error stop => .ended (.ofStop stop)
  | .ok i => start f i (files i.image) (.ofInput input none)

/-- What is on the output when so many cycles have been run, or as many as there are. -/
def Start.printed (cycles : Nat) : Start → ByteArray
  | ended e => e.stdout
  | ready v o m => shown f v (finalState (runToHalt o cycles m)).console

def printed (arguments : List String) (files : String → Option ByteArray) (input : ByteArray)
    (cycles : Nat) : ByteArray :=
  (launch f arguments files input).printed f cycles

end Printing

section Journal

variable (f : Frontend) (v : Verbosity) (c : Console)

theorem shown_emit (e : Console.Emission) :
    shown f v (c.emit e) = shown f v c ++ shownEmission f v e := by
  rw [shown, shown, Console.emit, Array.foldl_push]

theorem loadingLog_cons (e : Image.Event) (events : List Image.Event) :
    (loadingLog f v (e :: events)).toUTF8 =
      shownEmission f v (.noted (.loading e)) ++ (loadingLog f v events).toUTF8 := by
  rw [loadingLog, List.map_cons, shownEmission, List.filter_cons]
  split
  · rw [List.map_cons, String.join_cons]
    exact String.toByteArray_append
  · rw [ByteArray.empty_append]
    rfl

theorem shown_noteEvents (events : Array Image.Event) :
    shown f v (noteEvents c events) = shown f v c ++ (loadingLog f v events.toList).toUTF8 := by
  rw [noteEvents, ← Array.foldl_toList]
  induction events.toList generalizing c with
  | nil => exact ByteArray.append_empty.symm
  | cons e events ih =>
    rw [List.foldl_cons, ih, shown_emit, loadingLog_cons, ByteArray.append_assoc]

theorem shown_off : shown f none c = c.output := by
  have emitted : shownEmission f none = Console.Emission.bytes := by
    funext e
    cases e <;> rfl
  rw [shown, Console.output, emitted]

theorem noted_noteEvents (events : Array Image.Event) : Noted c (noteEvents c events) := by
  rw [noteEvents, ← Array.foldl_toList]
  induction events.toList generalizing c with
  | nil => exact .refl
  | cons e events ih => exact (Noted.single c _).trans (ih _)

theorem follows_noteEvents (roomy : c.room = none) (quiet : c.journal = [])
    (events : Array Image.Event) :
    Follows .empty (noteEvents c events).journal c (noteEvents c events) := by
  have noted := noted_noteEvents c events
  refine ⟨noted.input_eq, noted.pending_eq, roomy, noted.room_eq.trans roomy, ?_, ?_⟩
  · rw [noted.output_eq, ByteArray.empty_append]
  · rw [quiet, List.append_nil]

end Journal

section Starting

variable {f : Frontend} {i : Invocation} {v : Verbosity} (level : f.level? i.logLevel = some v)

include level

theorem start_of_refused {content : Option ByteArray} {failure : Image.FileFailure}
    {events : List Image.Event} (refused : Image.Refused content failure events)
    (input : ByteArray) :
    start f i content (.ofInput input none) =
      .ended ⟨1, (loadingLog f v events).toUTF8, failure.chain i.image⟩ := by
  rw [start, level]
  cases refused with
  | missing => rfl
  | notText foreign =>
    simp only [Image.fileText_of_foreign foreign]
    rfl
  | @defective text present =>
    have nothing : shown f v (.ofInput input none) = .empty := rfl
    simp only [Image.fileText_toUTF8, Image.Loader.accepted_of_ne_nil present, shown_noteEvents,
      nothing, ByteArray.empty_append]

theorem start_of_text {text : String} (clean : (Image.load .zeroed text).defects = [])
    (console : Console) :
    start f i (some text.toUTF8) console = startMachine f v i (Image.load .zeroed text).memory
      (noteEvents console (Image.load .zeroed text).events) := by
  rw [start, level]
  simp only [Image.fileText_toUTF8, Image.Loader.accepted_of_nil clean]

end Starting

section Ready

/-- The bare machine of an image: nothing has been displayed or reported. -/
def bare (text : String) (input : ByteArray) : Machine :=
  .starting (Image.load .zeroed text).memory (.ofInput input none)

theorem ready_of_text {f : Frontend} {i : Invocation} {v : Verbosity} {text : String}
    (level : f.level? i.logLevel = some v)
    (clean : (Image.load .zeroed text).defects = []) (input : ByteArray) :
    ∃ m, start f i (some text.toUTF8) (.ofInput input none) = .ready v (runOptions i) m ∧
      Across Abreast (bare text input) m ∧
      (i.quiet = true → ∃ notices, Across (Follows .empty notices) (bare text input) m) := by
  have follows := follows_noteEvents (.ofInput input none) rfl rfl (Image.load .zeroed text).events
  rw [start_of_text level clean]
  generalize noteEvents (.ofInput input none) (Image.load .zeroed text).events = console at follows
  let loaded := Machine.starting (Image.load .zeroed text).memory console
  have across : Across (Follows .empty console.journal) (bare text input) loaded :=
    ⟨rfl, rfl, follows⟩
  obtain ⟨m, shows, same, untraced⟩ :=
    Machine.displaying_roomy (m := loaded) (runOptions i) follows.roomy'
  have first : firstDisplay (runOptions i) loaded = .ok () m := shows
  refine ⟨m, ?_, ?_, ?_⟩
  · rw [startMachine, first]
  · exact Machine.across_abreast (same.trans across.cleared_eq) rfl
  · intro quiet
    obtain rfl : m = loaded := untraced (by rw [runOptions, quiet]; rfl)
    exact ⟨_, across⟩

end Ready

theorem execute_eq (f : Frontend) (arguments : List String) (files : String → Option ByteArray)
    (input : ByteArray) (cycles : Nat) :
    executeWith f arguments files input cycles =
      (launch f arguments files input).proceed f cycles := by
  rw [executeWith, launch]
  cases f.parse arguments <;> rfl

section Concluding

variable {f f' : Frontend} {v v' : Verbosity} {r r' : EStateM.Result RunFailure Machine Bool}

theorem conclude_inv {e : Ending} (ended : conclude f v r = some e) :
    (∃ m, r = .ok true m ∧ e = ⟨0, shown f v m.console, []⟩) ∨
      ∃ failure m, r = .error failure m ∧ e = ⟨1, shown f v m.console, failure.chain⟩ := by
  cases r with
  | ok halted m =>
    cases halted with
    | true =>
      cases ended
      exact .inl ⟨m, rfl, rfl⟩
    | false => exact absurd ended nofun
  | error failure m =>
    cases ended
    exact .inr ⟨failure, m, rfl, rfl⟩

theorem conclude_some {e : Ending} (ended : conclude f v r = some e) :
    (e.status = 0 ∨ e.status = 1) ∧ e.stdout = shown f v (finalState r).console ∧
      ∀ m, r ≠ .ok false m := by
  obtain ⟨m, rfl, rfl⟩ | ⟨failure, m, rfl, rfl⟩ := conclude_inv ended
  · exact ⟨.inl rfl, rfl, by simp⟩
  · exact ⟨.inr rfl, rfl, by simp⟩

theorem conclude_zero :
    (∃ e, conclude f v r = some e ∧ e.status = 0) ↔ ∃ m, r = .ok true m := by
  constructor
  · rintro ⟨e, ended, status⟩
    obtain ⟨m, rfl, -⟩ | ⟨failure, m, -, rfl⟩ := conclude_inv ended
    · exact ⟨m, rfl⟩
    · exact absurd status Nat.one_ne_zero
  · rintro ⟨m, rfl⟩
    exact ⟨_, rfl, rfl⟩

theorem conclude_one :
    (∃ e, conclude f v r = some e ∧ e.status = 1) ↔ ∃ failure m, r = .error failure m := by
  constructor
  · rintro ⟨e, ended, status⟩
    obtain ⟨m, -, rfl⟩ | ⟨failure, m, rfl, -⟩ := conclude_inv ended
    · exact absurd status Nat.zero_ne_one
    · exact ⟨failure, m, rfl⟩
  · rintro ⟨failure, m, rfl⟩
    exact ⟨_, rfl, rfl⟩

theorem conclude_status {S : Machine → Machine → Prop} (same : Matches S r r') :
    (conclude f v r).map Ending.status = (conclude f' v' r').map Ending.status := by
  cases same with
  | ok halted _ => cases halted <;> rfl
  | error failure _ => rfl

end Concluding

section Valid

structure Valid (f : Frontend) (arguments : List String) (i : Invocation) (v : Verbosity) :
    Prop where
  parsed : f.parse arguments = .ok i
  level : f.level? i.logLevel = some v

variable {f : Frontend} {arguments : List String} {i : Invocation} {v : Verbosity}
  (valid : Valid f arguments i v)
  {files : String → Option ByteArray} (input : ByteArray)

include valid

theorem Valid.launch_of_refused {failure : Image.FileFailure} {events : List Image.Event}
    (refused : Image.Refused (files i.image) failure events) :
    launch f arguments files input =
      .ended ⟨1, (loadingLog f v events).toUTF8, failure.chain i.image⟩ := by
  rw [launch, valid.parsed]
  exact start_of_refused valid.level refused input

theorem Valid.launch_of_text {text : String} (content : files i.image = some text.toUTF8)
    (clean : (Image.load .zeroed text).defects = []) :
    ∃ m, launch f arguments files input = .ready v (runOptions i) m ∧
      Across Abreast (bare text input) m ∧
      (i.quiet = true → ∃ notices, Across (Follows .empty notices) (bare text input) m) := by
  rw [launch, valid.parsed]
  dsimp only
  rw [content]
  exact ready_of_text valid.level clean input

end Valid

theorem Start.proceed_some {f : Frontend} {s : Start} {cycles : Nat} {e : Ending}
    (ended : s.proceed f cycles = some e) :
    e.stdout = s.printed f cycles ∧ ∀ more, s.proceed f (cycles + more) = some e := by
  cases s with
  | ended e' =>
    cases ended
    exact ⟨rfl, fun _ => rfl⟩
  | ready v o m =>
    obtain ⟨-, stdout, settled⟩ := conclude_some ended
    refine ⟨stdout, fun more => ?_⟩
    rw [proceed, Machine.runToHalt_mono settled]
    exact ended

section Statuses

variable {f : Frontend} {arguments : List String} {i : Invocation} {v : Verbosity}
  (valid : Valid f arguments i v)
  {files : String → Option ByteArray} (input : ByteArray)

include valid

theorem execute_of_refused {failure : Image.FileFailure} {events : List Image.Event}
    (refused : Image.Refused (files i.image) failure events) (cycles : Nat) :
    executeWith f arguments files input cycles =
      some ⟨1, (loadingLog f v events).toUTF8, failure.chain i.image⟩ := by
  rw [execute_eq, valid.launch_of_refused input refused]
  rfl

section Text

variable {text : String} (content : files i.image = some text.toUTF8)
  (clean : (Image.load .zeroed text).defects = [])

include content clean

theorem status_zero_iff :
    (∃ cycles e, executeWith f arguments files input cycles = some e ∧ e.status = 0) ↔
      ∃ n m, rounds i.step n (bare text input) = .ok () m ∧ m.cpu.halted = true := by
  obtain ⟨m, ready, abreast, -⟩ := valid.launch_of_text input content clean
  simp only [execute_eq, ready, Start.proceed, conclude_zero]
  exact Machine.halts_iff_rounds abreast

theorem status_one_iff :
    (∃ cycles e, executeWith f arguments files input cycles = some e ∧ e.status = 1) ↔
      ∃ n m failure m', rounds i.step n (bare text input) = .ok () m ∧ m.cpu.halted = false ∧
        round i.step m = .error failure m' := by
  obtain ⟨m, ready, abreast, -⟩ := valid.launch_of_text input content clean
  simp only [execute_eq, ready, Start.proceed, conclude_one]
  exact Machine.fails_iff_rounds abreast

theorem printed_of_quiet (quiet : i.quiet = true) (off : v = none) (cycles : Nat) :
    printed f arguments files input cycles =
      (finalState (rounds i.step cycles (bare text input))).console.output := by
  obtain ⟨m, ready, -, follows⟩ := valid.launch_of_text input content clean
  obtain ⟨notices, across⟩ := follows quiet
  have untraced : (runOptions i).trace = false := by rw [runOptions, quiet]; rfl
  have same := Machine.rounds_respects (Follows.link .empty notices) Follows.wait i.step cycles
    (bare text input) m across
  rw [printed, ready, Start.printed, off, shown_off, Machine.output_runToHalt untraced]
  exact same.final.console.output.trans ByteArray.empty_append

end Text

theorem execute_status {cycles : Nat} {e : Ending}
    (ended : executeWith f arguments files input cycles = some e) :
    e.status = 0 ∨ e.status = 1 := by
  obtain ⟨failure, events, refused⟩ | ⟨text, content, clean⟩ :=
    Image.refused_or_text (files i.image)
  · rw [execute_of_refused valid input refused] at ended
    cases ended
    exact .inr rfl
  · obtain ⟨m, ready, -⟩ := valid.launch_of_text input content clean
    rw [execute_eq, ready] at ended
    exact (conclude_some ended).1

theorem status_eq {arguments' : List String} {i' : Invocation} {v' : Verbosity}
    (valid' : Valid f arguments' i' v') (image : i'.image = i.image) (step : i'.step = i.step)
    (cycles : Nat) :
    (executeWith f arguments' files input cycles).map Ending.status =
      (executeWith f arguments files input cycles).map Ending.status := by
  obtain ⟨failure, events, refused⟩ | ⟨text, content, clean⟩ :=
    Image.refused_or_text (files i.image)
  · rw [execute_of_refused valid input refused,
      execute_of_refused valid' input (image ▸ refused)]
    rfl
  · obtain ⟨m, ready, abreast, -⟩ := valid.launch_of_text input content clean
    obtain ⟨m', ready', abreast', -⟩ := valid'.launch_of_text input (image ▸ content) clean
    have cleared : m.cleared = m'.cleared :=
      abreast.cleared_of_abreast.trans abreast'.cleared_of_abreast.symm
    rw [execute_eq, execute_eq, ready, ready']
    exact conclude_status (Machine.runToHalt_abreast step.symm cycles
      (Machine.across_abreast cleared abreast'.console.roomy'))

end Statuses

/-- How a run of the program ends. A file that gives no memory ends it with status 1 before any
cycle, with the journal of the loader on the output and nothing else. Any other file ends it with
status 0 if `step` and the pauses after it lead the machine from its start to a halt, with status
1 if one of them fails before that, and not at all otherwise; and where nothing is displayed or
reported, the output is that of the calls, for as long as they go on. There is one ending at
most, and its status does not depend on what is displayed or reported. -/
theorem exit_status {f : Frontend} {arguments : List String} {i : Invocation} {v : Verbosity}
    (valid : Valid f arguments i v) (files : String → Option ByteArray) (input : ByteArray) :
    (∀ failure events, Image.Refused (files i.image) failure events → ∀ cycles,
      executeWith f arguments files input cycles =
        some ⟨1, (loadingLog f v events).toUTF8, failure.chain i.image⟩) ∧
    (∀ text : String, files i.image = some text.toUTF8 →
      (Image.load .zeroed text).defects = [] →
      ((∃ cycles e, executeWith f arguments files input cycles = some e ∧ e.status = 0) ↔
        ∃ n m, rounds i.step n (bare text input) = .ok () m ∧ m.cpu.halted = true) ∧
      ((∃ cycles e, executeWith f arguments files input cycles = some e ∧ e.status = 1) ↔
        ∃ n m failure m', rounds i.step n (bare text input) = .ok () m ∧ m.cpu.halted = false ∧
          round i.step m = .error failure m') ∧
      (i.quiet = true → v = none → ∀ cycles, printed f arguments files input cycles =
        (finalState (rounds i.step cycles (bare text input))).console.output)) ∧
    (∀ cycles e, executeWith f arguments files input cycles = some e →
      (e.status = 0 ∨ e.status = 1) ∧ e.stdout = printed f arguments files input cycles ∧
        ∀ more, executeWith f arguments files input (cycles + more) = some e) ∧
    ∀ arguments' i' v', Valid f arguments' i' v' → i'.image = i.image → i'.step = i.step →
      ∀ cycles, (executeWith f arguments' files input cycles).map Ending.status =
        (executeWith f arguments files input cycles).map Ending.status := by
  refine ⟨?_, ?_, ?_, ?_⟩
  · intro failure events refused cycles
    exact execute_of_refused valid input refused cycles
  · intro text content clean
    exact ⟨status_zero_iff valid input content clean, status_one_iff valid input content clean,
      printed_of_quiet valid input content clean⟩
  · intro cycles e ended
    have status := execute_status valid input ended
    rw [execute_eq] at ended
    obtain ⟨stdout, lasts⟩ := Start.proceed_some ended
    refine ⟨status, stdout, fun more => ?_⟩
    rw [execute_eq, lasts]
  · intro arguments' i' v' valid' image step cycles
    exact status_eq valid input valid' image step cycles

/-- The image of a program that shows a word and halts. -/
theorem exit_status_shown :
    let arguments := ["-q", "--log-level", "off", "x"]
    let text := "10:9AFF\n11:0000\n"
    let files (_ : String) := some text.toUTF8
    (∃ cycles e, execute arguments files .empty cycles = some e ∧ e.status = 0) ∧
      printed .standard arguments files .empty 2 = "output: 0000(0)\n\n".toUTF8 := by
  intro arguments text files
  have valid : Valid .standard arguments ⟨"x", false, true, 6, "off"⟩ none :=
    ⟨by decide +kernel, by decide +kernel⟩
  have clean : (Image.load .zeroed text).defects = [] := by decide +kernel
  obtain ⟨zero, -, output⟩ := (exit_status valid files .empty).2.1 text rfl clean
  have ran : (rounds false 2 (bare text .empty) matches .ok ..) = true := by decide +kernel
  have halted : (finalState (rounds false 2 (bare text .empty))).cpu.halted = true := by
    decide +kernel
  have echo : (finalState (rounds false 2 (bare text .empty))).console.output =
      "output: 0000(0)\n\n".toUTF8 := by decide +kernel
  refine ⟨zero.mpr ?_, (output rfl rfl 2).trans echo⟩
  cases result : rounds false 2 (bare text .empty) with
  | ok _ m =>
    rw [result] at halted
    exact ⟨2, m, result, halted⟩
  | error f m =>
    rw [result] at ran
    exact absurd ran nofun

end Program

end ToyMachine
