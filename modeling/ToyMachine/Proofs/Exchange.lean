import ToyMachine.Proofs.Fault
import ToyMachine.Proofs.RunLoop
import ToyMachine.Proofs.Console.FirstWord
import ToyMachine.Proofs.Console.Typed

/-! What a run shows the operator and takes from the operator. A cycle that carries out a load
from the console cell asks, one that carries out a store to it shows the word, and every other
cycle, whatever it fetches and in whatever width, leaves the console alone but for notices. The
whole output is what those cycles show, and the tokens they use up are the first of the words
that were typed. -/

namespace ToyMachine

/-- What passes between the machine and its operator in one cycle. -/
inductive Exchange where
  /-- Some tokens are refused and one is taken. -/
  | asked (refused : List String) (token : String)
  | shown (v : Word)

namespace Exchange

/-- The four digits of a word's low half, in capitals. -/
def digits (v : Word) : List Char :=
  [v.extractLsb' 12 4, v.extractLsb' 8 4, v.extractLsb' 4 4, v.extractLsb' 0 4].map
    fun (d : BitVec 4) => "0123456789ABCDEF".toList.getD d.toNat '0'

/-- What the operator sees: a prompt before each token, or the word in both notations. -/
def text : Exchange → String
  | asked refused _ => String.join (List.replicate (refused.length + 1) "input: \n") ++ "\n"
  | shown v => "output: " ++ String.ofList (digits v) ++ "(" ++ toString v.toInt ++ ")\n\n"

def tokens : Exchange → List String
  | asked refused token => refused ++ [token]
  | shown _ => []

theorem digits_eq (v : Word) : digits v = Text.Hex.fixed 4 (v.toNat % 0x10000) := by
  have spelled (d : BitVec 4) :
      "0123456789ABCDEF".toList.getD d.toNat '0' = Text.Hex.digit d.toNat := by
    revert d
    decide
  have place (low : Nat) : (v.extractLsb' low 4).toNat = v.toNat / 2 ^ low % 16 := by
    rw [BitVec.extractLsb'_toNat, Nat.shiftRight_eq_div_pow]
  have first : v.toNat % 0x10000 / 16 / 16 / 16 % 16 = v.toNat / 2 ^ 12 % 16 := by omega
  have second : v.toNat % 0x10000 / 16 / 16 % 16 = v.toNat / 2 ^ 8 % 16 := by omega
  have third : v.toNat % 0x10000 / 16 % 16 = v.toNat / 2 ^ 4 % 16 := by omega
  have fourth : v.toNat % 0x10000 % 16 = v.toNat / 2 ^ 0 % 16 := by omega
  simp only [digits, List.map_cons, List.map_nil, spelled, place, Text.Hex.fixed, first, second,
    third, fourth, List.nil_append, List.cons_append]

theorem text_cons (e : Exchange) (log : List Exchange) :
    (String.join ((e :: log).map text)).toUTF8 =
      e.text.toUTF8 ++ (String.join (log.map text)).toUTF8 := by
  rw [List.map_cons, String.join_cons]
  exact String.toByteArray_append

end Exchange

namespace Machine

open Console (Noted)

/-- The next cycle carries out an instruction that reaches the console, by its address or
through a register. -/
def ReachesConsole (direct indirect : Opcode) (m : Machine) (i : Instruction) : Prop :=
  m.cpu.width = .narrow ∧ m.current? = some i ∧
    (i.opcode = direct ∧ i.address = 0xFF ∨ i.opcode = indirect ∧ m.cpu.pointed i.third = 0xFF)

def LoadsConsole : Machine → Instruction → Prop :=
  ReachesConsole .load .loadIndirect

def StoresConsole : Machine → Instruction → Prop :=
  ReachesConsole .store .storeIndirect

structure Quiet (m m' : Machine) : Prop where
  no_load : ∀ i, ¬ m.LoadsConsole i
  no_store : ∀ i, ¬ m.StoresConsole i
  input : m'.console.input = m.console.input
  pending : m'.console.pending = m.console.pending
  output : m'.console.output = m.console.output

/-- A cycle that loads the word the operator gives into a register. The tokens up to the first
that is a word are used up. -/
structure Asked (m : Machine) (refused : List String) (token : String) (m' : Machine) : Prop where
  tokens : m.console.remaining = refused ++ token :: m'.console.remaining
  useless : ∀ t ∈ refused, Width.narrow.readToken t = none
  output : m'.console.output =
    m.console.output ++ (Exchange.asked refused token).text.toUTF8
  loaded : ∃ i v, m.LoadsConsole i ∧ Width.narrow.readToken token = some v ∧
    (i.target ≠ 0 → m'.cpu.register i.target = v) ∧ m'.memory.read .narrow 0xFF = .ok v

structure Shown (m : Machine) (v : Word) (m' : Machine) : Prop where
  input : m'.console.input = m.console.input
  pending : m'.console.pending = m.console.pending
  output : m'.console.output = m.console.output ++ (Exchange.shown v).text.toUTF8
  stored : ∃ i, m.StoresConsole i ∧ m.cpu.register i.target = v

/-- So many cycles, each of which goes well, and what passes between the machine and the
operator in them. -/
inductive Session : Nat → Machine → List Exchange → Machine → Prop where
  | done (m : Machine) : Session 0 m [] m
  | quiet {n : Nat} {m m₁ m' : Machine} {log : List Exchange} (ran : step m = .ok () m₁)
      (quiet : Quiet m m₁) : Session n m₁ log m' → Session (n + 1) m log m'
  | asked {n : Nat} {m m₁ m' : Machine} {log : List Exchange} {refused : List String}
      {token : String} (ran : step m = .ok () m₁) (asked : Asked m refused token m₁) :
      Session n m₁ log m' → Session (n + 1) m (.asked refused token :: log) m'
  | shown {n : Nat} {m m₁ m' : Machine} {log : List Exchange} {v : Word}
      (ran : step m = .ok () m₁) (shown : Shown m v m₁) :
      Session n m₁ log m' → Session (n + 1) m (.shown v :: log) m'

section Access

variable {m : Machine} {i : Instruction}

theorem loadsConsole_iff (current : m.current? = some i) :
    m.LoadsConsole i ↔ m.cpu.transfer i = .load m.cpu.width.consoleAddress := by
  constructor
  · rintro ⟨width, -, ⟨code, address⟩ | ⟨code, address⟩⟩ <;>
      simp only [Processor.transfer, code, address, width, Width.consoleAddress]
  · intro passes
    have width := narrow_of_transfer current (by simp [passes])
    rw [width] at passes
    exact ⟨width, current, Processor.transfer_load passes⟩

theorem storesConsole_iff (current : m.current? = some i) :
    m.StoresConsole i ↔ ∃ v, m.cpu.transfer i = .store m.cpu.width.consoleAddress v := by
  constructor
  · rintro ⟨width, -, ⟨code, address⟩ | ⟨code, address⟩⟩ <;>
      exact ⟨m.cpu.register i.target,
        by simp only [Processor.transfer, code, address, width, Width.consoleAddress]⟩
  · rintro ⟨v, passes⟩
    have width := narrow_of_transfer current (by simp [passes])
    rw [width] at passes
    exact ⟨width, current, Processor.transfer_store passes⟩

theorem ReachesConsole.current {direct indirect : Opcode} (h : m.ReachesConsole direct indirect i) :
    m.current? = some i := h.2.1

end Access

section Cycles

variable {m : Machine} {i : Instruction} {start c : Console}

theorem quiet_of_noted {cpu : Processor} {memory : Memory}
    (elsewhere : ∀ i, m.current? = some i →
      m.cpu.transfer i ≠ .load m.cpu.width.consoleAddress ∧
        ∀ v, m.cpu.transfer i ≠ .store m.cpu.width.consoleAddress v)
    (noted : Noted m.console c) : Quiet m ⟨cpu, memory, c⟩ where
  no_load i loads := (elsewhere i loads.current).1 ((loadsConsole_iff loads.current).mp loads)
  no_store i stores := by
    obtain ⟨v, passes⟩ := (storesConsole_iff stores.current).mp stores
    exact (elsewhere i stores.current).2 v passes
  input := noted.input_eq
  pending := noted.pending_eq
  output := noted.output_eq

theorem quiet_of_transfer {passed : Transfer} {cpu : Processor} {memory : Memory}
    (current : m.current? = some i) (passes : m.cpu.transfer i = passed)
    (no_load : passed ≠ .load m.cpu.width.consoleAddress)
    (no_store : ∀ v, passed ≠ .store m.cpu.width.consoleAddress v)
    (noted : Noted m.console c) : Quiet m ⟨cpu, memory, c⟩ := by
  refine quiet_of_noted (fun i' current' => ?_) noted
  obtain rfl : i' = i := Option.some.inj (current'.symm.trans current)
  rw [passes]
  exact ⟨no_load, no_store⟩

theorem asked_of_answer {v : Word} {answered printed : Console} (current : m.current? = some i)
    (passes : m.cpu.transfer i = .load m.cpu.width.consoleAddress)
    (begun : Noted m.console start) (answer : Console.ask m.cpu.width start = .ok v answered)
    (newline : Console.print "\n" answered = .ok () printed) (noted : Noted printed c) :
    ∃ refused token, Asked m refused token
      ⟨(m.cpu.beginCycle.perform i v).endCycle,
        m.memory.set m.cpu.width m.cpu.width.consoleCell v, c⟩ := by
  have loads := (loadsConsole_iff current).mpr passes
  have width : m.cpu.width = .narrow := loads.1
  rw [width] at answer
  obtain ⟨refused, token, split, useless, taken, prompted⟩ := Console.askFrom_ok answer
  have fits : Width.narrow.fit v = v := Width.fit_readToken taken
  refine ⟨refused, token, ?_, useless, ?_, i, v, loads, taken, ?_, ?_⟩
  · rw [← begun.remaining_eq, split, noted.remaining_eq, Console.remaining_print newline]
  · rw [noted.output_eq, Console.output_print newline, prompted, begun.output_eq,
      ByteArray.append_assoc]
    exact congrArg (m.console.output ++ ·) String.toByteArray_append.symm
  · intro other
    have passes' : m.cpu.beginCycle.transfer i = .load m.cpu.width.consoleAddress := passes
    have width' : m.cpu.beginCycle.width = .narrow := width
    rw [Processor.register_endCycle, if_neg (Ne.symm other), Processor.perform_load passes',
      Processor.register_setRegister, if_pos rfl, Processor.width_markMemoryRead,
      Processor.readSources_width, width', fits]
  · have filled (memory : Memory) : (memory.set .narrow Width.narrow.consoleCell v).read .narrow
        Width.narrow.consoleAddress = .ok v := by
      rw [Memory.read_console, Memory.get_set_self, fits]
    rw [width]
    exact filled m.memory

theorem echoText_narrow (v : Word) : echoText .narrow v = (Exchange.shown v).text := by
  have low : (Width.narrow.pattern v).toNat = v.toNat % 0x10000 := by
    rw [Width.pattern, BitVec.toNat_setWidth, BitVec.toNat_setWidth]
    omega
  rw [echoText, Width.hex, low, Exchange.text, Exchange.digits_eq]
  rfl

theorem shown_of_echo {v : Word} {printed : Console} {cpu : Processor} {memory : Memory}
    (sound : m.cpu.Sound) (current : m.current? = some i)
    (passes : m.cpu.transfer i = .store m.cpu.width.consoleAddress v)
    (begun : Noted m.console start)
    (echo : Console.print (echoText m.cpu.width (m.cpu.width.fit v)) start = .ok () printed)
    (noted : Noted printed c) : Shown m v ⟨cpu, memory, c⟩ := by
  have stores := (storesConsole_iff current).mpr ⟨v, passes⟩
  have width : m.cpu.width = .narrow := stores.1
  have register : m.cpu.register i.target = v := Processor.register_of_transfer passes
  have fits : Width.narrow.fit v = v := register ▸ sound.fits i.target
  rw [width, fits, echoText_narrow] at echo
  obtain ⟨input, pending, output⟩ := Console.printBytes_ok echo
  exact
    { input := by rw [noted.input_eq, input, begun.input_eq]
      pending := by rw [noted.pending_eq, pending, begun.pending_eq]
      output := by rw [noted.output_eq, output, begun.output_eq]
      stored := ⟨i, stores, register⟩ }

theorem exchange_of_step {m m' : Machine} (sound : m.cpu.Sound) (ran : step m = .ok () m') :
    Quiet m m' ∨ (∃ refused token, Asked m refused token m') ∨ ∃ v, Shown m v m' := by
  have cycle := cycle_step m
  rw [ran] at cycle
  cases cycle with
  | idle halted =>
    refine .inl (quiet_of_noted ?_ .refl)
    intro i current
    exact absurd (current?_some current).1 (by simp [halted])
  | carried current begun effect =>
    cases effect with
    | register passes noted =>
      exact .inl (quiet_of_transfer current passes nofun nofun (begun.trans noted))
    | load passes cell found noted =>
      exact .inl (quiet_of_transfer current passes (fun same => cell (Transfer.load.inj same))
        nofun (begun.trans noted))
    | store passes cell kept noted =>
      exact .inl (quiet_of_transfer current passes nofun
        (fun _ same => cell (Transfer.store.inj same).1) (begun.trans noted))
    | asked passes answer newline noted =>
      exact .inr (.inl (asked_of_answer current passes begun answer newline noted))
    | shown passes echo noted =>
      exact .inr (.inr ⟨_, shown_of_echo sound current passes begun echo noted⟩)

end Cycles

section Runs

variable {n : Nat} {m m' : Machine} {log : List Exchange}

theorem sound_of_step (sound : m.cpu.Sound) (ran : step m = .ok () m') : m'.cpu.Sound := by
  have after := sound_attempt sound
  rwa [attempt_of_ok ran] at after

theorem exists_session (sound : m.cpu.Sound) (ran : steps n m = .ok () m') :
    ∃ log, Session n m log m' := by
  induction n generalizing m with
  | zero =>
    obtain rfl := steps_zero ran
    exact ⟨[], .done m'⟩
  | succ n ih =>
    obtain ⟨_, m₁, first, rest⟩ := bind_ok ran
    obtain ⟨log, session⟩ := ih (sound_of_step sound first) rest
    rcases exchange_of_step sound first with quiet | ⟨refused, token, asked⟩ | ⟨v, shown⟩
    · exact ⟨log, .quiet first quiet session⟩
    · exact ⟨.asked refused token :: log, .asked first asked session⟩
    · exact ⟨.shown v :: log, .shown first shown session⟩

theorem Session.output (h : Session n m log m') :
    m'.console.output = m.console.output ++ (String.join (log.map Exchange.text)).toUTF8 := by
  induction h with
  | done => exact ByteArray.append_empty.symm
  | quiet ran quiet _ ih => rw [ih, quiet.output]
  | asked ran asked _ ih => rw [ih, asked.output, Exchange.text_cons, ByteArray.append_assoc]
  | shown ran shown _ ih => rw [ih, shown.output, Exchange.text_cons, ByteArray.append_assoc]

theorem Session.tokens (h : Session n m log m') :
    m.console.remaining = log.flatMap Exchange.tokens ++ m'.console.remaining := by
  induction h with
  | done => rfl
  | quiet ran quiet _ ih =>
    rw [← ih, Console.remaining, Console.remaining, quiet.input, quiet.pending]
  | asked ran asked _ ih =>
    rw [asked.tokens, ih, List.flatMap_cons, Exchange.tokens, List.append_assoc,
      List.append_assoc, List.singleton_append]
  | shown ran shown _ ih =>
    rw [List.flatMap_cons, Exchange.tokens, List.nil_append, ← ih, Console.remaining,
      Console.remaining, shown.input, shown.pending]

end Runs

/-- Over any program and any text that is typed, the cycles of a run fall into those that ask,
those that show and those that do neither; the output of the run is what they show; and the
words of the text are those that they use up and then those still to come. -/
theorem run_exchanges {entry : Address} (bound : entry.toNat ≤ 0xFF) (memory : Memory)
    (typed : String) (room : Option Nat) {n : Nat} {m' : Machine}
    (ran : steps n ⟨Processor.startingAt entry, memory, .ofInput typed.toUTF8 room⟩ = .ok () m') :
    ∃ log ws, Session n ⟨Processor.startingAt entry, memory, .ofInput typed.toUTF8 room⟩ log m' ∧
      m'.console.output = (String.join (log.map Exchange.text)).toUTF8 ∧
      Text.HasWords ws typed.toList ∧
      ws.map String.ofList = log.flatMap Exchange.tokens ++ m'.console.remaining := by
  have sound : (Processor.startingAt entry).Sound := Processor.startingAt_sound (by omega)
  obtain ⟨log, session⟩ := exists_session sound ran
  refine ⟨log, Text.words typed.toList, session, ?_, Text.hasWords_iff.mpr rfl, ?_⟩
  · rw [session.output]
    exact ByteArray.empty_append
  · rw [← session.tokens, Console.remaining_ofInput]
    rfl

section Answered

/-- A machine that loads a word from the console and stores it there again. -/
def echoing : Machine :=
  ⟨.startingAt 0x10, .holding [(0x10, 0x8AFF), (0x11, 0x9AFF)], .ofInput "zz fffe\n".toUTF8 none⟩

theorem echoing_answer {c : Console} (noted : Noted echoing.console c) :
    ∃ c', Console.ask .narrow c = .ok 0xFFFFFFFE c' ∧ c'.room = none ∧
      c'.output = "input: \ninput: \n".toUTF8 := by
  have texts : ∀ line ∈ c.input, (Console.decode? line).isSome := by
    rw [noted.input_eq, echoing]
    exact (Console.readable_of_text "zz fffe\n" [] #[]).texts
  have split : c.remaining = ["zz"] ++ "fffe" :: [] := by
    rw [noted.remaining_eq, echoing, Console.remaining_ofInput]
    decide +kernel
  have useless : ∀ t ∈ ["zz"], Width.narrow.readToken t = none := by decide +kernel
  have word : Width.narrow.readToken "fffe" = some 0xFFFFFFFE := by decide +kernel
  obtain ⟨c', answer, -, readable, prompted⟩ :=
    Console.ask_of_first ⟨noted.room_eq, texts⟩ split useless word
  refine ⟨c', answer, readable.roomy, ?_⟩
  rw [prompted.output, noted.output_eq]
  decide +kernel

def echoingLoad : Instruction := ⟨.load, 0xA, 0xF, 0xF, 0x8AFF⟩

def echoed (c : Console) : Machine :=
  ⟨(echoing.cpu.beginCycle.perform echoingLoad 0xFFFFFFFE).endCycle,
    echoing.memory.set .narrow Width.narrow.consoleCell 0xFFFFFFFE, c⟩

theorem step_echoing : ∃ c, step echoing = .ok () (echoed c) ∧ c.room = none ∧
    c.output = "input: \ninput: \n\n".toUTF8 := by
  have current : echoing.current? = some echoingLoad := by decide +kernel
  have loads : echoing.cpu.beginCycle.transfer echoingLoad =
      .load Width.narrow.consoleAddress := rfl
  obtain ⟨c, noted, ⟨m₁, effect, ran⟩ | ⟨f, m₁, effect, -⟩⟩ := step_of_current current
  all_goals obtain ⟨answered, answer, roomy, prompts⟩ := echoing_answer noted
  · cases effect with
    | asked _ answer' newline quiet =>
      cases answer.symm.trans answer'
      rw [Console.print_roomy roomy] at newline
      cases newline
      refine ⟨_, ran, quiet.room_eq.trans roomy, ?_⟩
      rw [quiet.output_eq, Console.output_emit, prompts]
      decide +kernel
    | load passes elsewhere => exact absurd (Transfer.load.inj (passes.symm.trans loads)) elsewhere
    | register passes | store passes | shown passes => exact absurd (passes.symm.trans loads) nofun
  · -- The operator answers, and the sink takes everything.
    cases effect with
    | unanswered _ failed => exact absurd (answer.symm.trans failed) (by simp)
    | cutShort _ answer' failed =>
      cases answer.symm.trans answer'
      rw [Console.print_roomy roomy] at failed
      exact absurd failed (by simp)
    | unshown passes => exact absurd (passes.symm.trans loads) nofun

theorem step_echoed {c : Console} (roomy : c.room = none) : ∃ m', step (echoed c) = .ok () m' ∧
    m'.console.output = c.output ++ "output: FFFE(-2)\n\n".toUTF8 := by
  have current : (echoed c).current? = some ⟨.store, 0xA, 0xF, 0xF, 0x9AFF⟩ := by
    change (echoed (.ofInput .empty none)).current? = _
    decide +kernel
  have stores : (echoed c).cpu.beginCycle.transfer ⟨.store, 0xA, 0xF, 0xF, 0x9AFF⟩ =
      .store Width.narrow.consoleAddress 0xFFFFFFFE := rfl
  have text : echoText .narrow (Width.narrow.fit 0xFFFFFFFE) = "output: FFFE(-2)\n\n" := by
    decide +kernel
  obtain ⟨c₁, noted, ⟨m', effect, ran⟩ | ⟨f, m', effect, -⟩⟩ := step_of_current current
  all_goals have roomy' : c₁.room = none := noted.room_eq.trans roomy
  · cases effect with
    | shown passes echo quiet =>
      cases passes.symm.trans stores
      rw [Console.print_roomy roomy'] at echo
      cases echo
      refine ⟨_, ran, ?_⟩
      rw [quiet.output_eq, Console.output_emit, noted.output_eq]
      exact congrArg (c.output ++ ·) (congrArg String.toUTF8 text)
    | store passes elsewhere =>
      exact absurd (Transfer.store.inj (passes.symm.trans stores)).1 elsewhere
    | register passes | load passes | asked passes => exact absurd (passes.symm.trans stores) nofun
  · cases effect with
    | unshown passes echo =>
      rw [Console.print_roomy roomy'] at echo
      exact absurd echo (by simp)
    | unanswered passes | cutShort passes => exact absurd (passes.symm.trans stores) nofun

theorem steps_echoing : ∃ m', steps 2 echoing = .ok () m' ∧
    m'.console.output = "input: \ninput: \n\noutput: FFFE(-2)\n\n".toUTF8 := by
  obtain ⟨c, asked, roomy, prompts⟩ := step_echoing
  obtain ⟨m', shown, output⟩ := step_echoed roomy
  refine ⟨m', ?_, ?_⟩
  · rw [steps_of_step asked, steps_of_step shown]
    rfl
  · rw [output, prompts]
    decide +kernel

/-- A token that is refused, and a word that is loaded and shown. -/
theorem run_exchanges_echoed :
    ∃ m', steps 2 echoing = .ok () m' ∧
      (∃ log ws, Session 2 echoing log m' ∧
        m'.console.output = (String.join (log.map Exchange.text)).toUTF8 ∧
        Text.HasWords ws "zz fffe\n".toList ∧
        ws.map String.ofList = log.flatMap Exchange.tokens ++ m'.console.remaining) ∧
      m'.console.output = "input: \ninput: \n\noutput: FFFE(-2)\n\n".toUTF8 := by
  obtain ⟨m', ran, output⟩ := steps_echoing
  exact ⟨m', ran, run_exchanges (by decide) _ "zz fffe\n" none ran, output⟩

end Answered

end Machine

end ToyMachine
