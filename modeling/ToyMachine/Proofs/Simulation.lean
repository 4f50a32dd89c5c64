import ToyMachine.Proofs.Console.Offered
import ToyMachine.Proofs.Exchange
import ToyMachine.Proofs.Refinement

/-! What the reference machine does, the narrow machine does too. That a cycle which goes well is
one of the reference machine says nothing about a cycle that fails; here a cycle is shown to go
well if the operator has a word where one is asked for and the sink takes everything. So a run of
the reference machine up to its halt is one of the machine, with the same words typed and shown. -/

namespace ToyMachine

namespace Reference

inductive Event where
  | typed (v : BitVec 16)
  | shown (v : BitVec 16)

def Event.text : Event → String
  | typed _ => "input: \n\n"
  | shown v => Machine.echoText .narrow (v.signExtend 32)

/-- What an instruction passes, by its number and its three operands. `typed` is the next word at
the console. -/
def exchange (r : Reference) (typed : BitVec 16) (number : Nat) (d s t : Fin 16) : Option Event :=
  let address := BitVec.ofNat 8 (s.val * 16 + t.val)
  let pointed := (r.registers t).setWidth 8
  match number with
  | 0x8 => if address = 0xFF then some (.typed typed) else none
  | 0x9 => if address = 0xFF then some (.shown (r.registers d)) else none
  | 0xA => if pointed = 0xFF then some (.typed typed) else none
  | 0xB => if pointed = 0xFF then some (.shown (r.registers d)) else none
  | _ => none

def word (r : Reference) : BitVec 16 :=
  r.memory (r.pc.setWidth 8)

def event? (r : Reference) (typed : BitVec 16) : Option Event :=
  r.exchange typed (nibble r.word 3).val (nibble r.word 2) (nibble r.word 1) (nibble r.word 0)

/-- So many cycles of a narrow machine that has not halted, and what they pass. -/
inductive Runs : Nat → Reference → List Event → Reference → Prop where
  | done (r : Reference) : Runs 0 r [] r
  | cycle {n : Nat} {r r' : Reference} {log : List Event} (typed : BitVec 16)
      (narrow : r.width = .narrow) (running : r.halted = false)
      (rest : Runs n (r.step typed) log r') :
      Runs (n + 1) r ((r.event? typed).toList ++ log) r'

theorem Runs.trans {n k : Nat} {r r₁ r' : Reference} {log more : List Event}
    (first : Runs n r log r₁) (rest : Runs k r₁ more r') : Runs (n + k) r (log ++ more) r' := by
  induction first with
  | done => rwa [Nat.zero_add]
  | cycle typed narrow running _ ih =>
    rw [Nat.add_right_comm, List.append_assoc]
    exact .cycle typed narrow running (ih rest)

section Typed

variable (r : Reference) {typed : BitVec 16} {number : Nat} {d s t : Fin 16}

theorem execute_typed (silent : r.exchange typed number d s t ≠ some (.typed typed))
    (typed' : BitVec 16) (switches : Bool) :
    r.execute typed' number d s t switches = r.execute typed number d s t switches := by
  have elsewhere {address : BitVec 8}
      (other : (if address = 0xFF then some (Event.typed typed) else none) ≠ some (.typed typed)) :
      r.advance.load d address typed' = r.advance.load d address typed := by
    have ne : address ≠ 0xFF := fun same => other (if_pos same)
    rw [load_of_ne _ _ _ ne, load_of_ne _ _ _ ne]
  match number with
  | 0x8 => exact elsewhere silent
  | 0xA => exact elsewhere silent
  | 0x0 | 0x1 | 0x2 | 0x3 | 0x4 | 0x5 | 0x6 | 0x7 | 0x9 | 0xB | 0xC | 0xD | 0xE | 0xF | _ + 16 =>
    rfl

theorem step_typed (silent : r.event? typed ≠ some (.typed typed)) (typed' : BitVec 16) :
    r.step typed' = r.step typed := by
  rw [step, step]
  exact congrArg (put · 0 0) (r.execute_typed silent typed' _)

end Typed

section Passed

def passed (typed : BitVec 16) : Transfer → Option Event
  | .none => none
  | .load address => if address = 0xFF then some (.typed typed) else none
  | .store address v => if address = 0xFF then some (.shown (v.setWidth 16)) else none

theorem eq_console_iff {address : BitVec 8} :
    address.setWidth 16 = (0xFF : Address) ↔ address = 0xFF := by
  constructor
  · intro same
    have low := congrArg (BitVec.setWidth 8) same
    rwa [BitVec.setWidth_setWidth_of_le _ (by omega), BitVec.setWidth_eq] at low
  · rintro rfl
    rfl

variable {cpu : Processor} {memory : Memory} {i : Instruction} {w : BitVec 16}

theorem exchange_eq (typed : BitVec 16) (fresh : cpu.Fresh)
    (h : Instruction.decode .narrow (w.setWidth 32) = .ok i) :
    (of cpu memory).exchange typed i.opcode.code.toNat i.target i.second i.third =
      passed typed (cpu.transfer i) := by
  cases code : i.opcode with
  | load | store =>
    simp only [Processor.transfer, code, passed, address_eq h, eq_console_iff]
    rfl
  | loadIndirect | storeIndirect =>
    simp only [Processor.transfer, code, passed, fresh.pointed_eq, eq_console_iff]
    rfl
  | halt | add | sub | and | xor | shiftLeft | shiftRight | loadAddress | branchZero
  | branchPositive | jump | call =>
    simp only [Processor.transfer, code, passed]
    rfl

theorem event?_eq {m : Machine} (narrow : m.cpu.width = .narrow) (current : m.current? = some i)
    (typed : BitVec 16) :
    (of m.cpu m.memory).event? typed = passed typed (m.cpu.transfer i) := by
  obtain ⟨running, word, present, known⟩ := Machine.current?_some current
  obtain ⟨v, found, rfl⟩ := Machine.fetched?_some present
  rw [narrow] at found known
  have fetched : (of m.cpu m.memory).word = v.setWidth 16 := view_of_read found
  have fresh : m.cpu.beginCycle.Fresh := ⟨narrow, running, rfl⟩
  have passes : (of m.cpu.beginCycle m.memory).exchange typed i.opcode.code.toNat i.target
      i.second i.third = passed typed (m.cpu.beginCycle.transfer i) :=
    exchange_eq typed fresh known
  rw [code_eq known, target_eq known, second_eq known, third_eq known] at passes
  rw [event?, fetched]
  exact passes

end Passed

end Reference

open Reference (Event passed)

namespace Console

inductive Offers : List (Option String) → List Event → List (Option String) → Prop where
  | done (tokens : List (Option String)) : Offers tokens [] tokens
  | typed {token : String} {v : BitVec 16} {tokens rest : List (Option String)} {log : List Event}
      (word : Width.narrow.readToken token = some (v.signExtend 32)) :
      Offers tokens log rest → Offers (some token :: tokens) (.typed v :: log) rest
  | shown {v : BitVec 16} {tokens rest : List (Option String)} {log : List Event} :
      Offers tokens log rest → Offers tokens (.shown v :: log) rest

theorem Offers.eq_of_nil {tokens rest : List (Option String)} (h : Offers tokens [] rest) :
    rest = tokens := by
  cases h
  rfl

theorem Offers.eq_of_shown {tokens rest : List (Option String)} {v : BitVec 16}
    (h : Offers tokens [.shown v] rest) : rest = tokens := by
  cases h with
  | shown later => exact later.eq_of_nil

theorem Offers.split {tokens rest : List (Option String)} {log more : List Event}
    (h : Offers tokens (log ++ more) rest) :
    ∃ between, Offers tokens log between ∧ Offers between more rest := by
  induction log generalizing tokens with
  | nil => exact ⟨tokens, .done tokens, h⟩
  | cons event log ih =>
    cases h with
    | typed word later =>
      obtain ⟨between, first, second⟩ := ih later
      exact ⟨between, .typed word first, second⟩
    | shown later =>
      obtain ⟨between, first, second⟩ := ih later
      exact ⟨between, .shown first, second⟩

structure Attended (c : Console) (log : List Event) (rest : List (Option String))
    (c' : Console) : Prop where
  roomy : c'.room = none
  offered : c'.offered = rest
  output : c'.output = c.output ++ (String.join (log.map Event.text)).toUTF8

section Attended

variable {c c₁ c' : Console} {log more : List Event} {rest between : List (Option String)}

theorem attended_of_noted (roomy : c.room = none) (noted : Noted c c') :
    Attended c [] c.offered c' :=
  ⟨noted.room_eq.trans roomy, noted.offered_eq,
    noted.output_eq.trans ByteArray.append_empty.symm⟩

theorem Attended.trans (first : Attended c log between c₁) (second : Attended c₁ more rest c') :
    Attended c (log ++ more) rest c' := by
  refine ⟨second.roomy, second.offered, ?_⟩
  rw [second.output, first.output, List.map_append, String.join_append, ByteArray.append_assoc]
  exact congrArg (c.output ++ ·) String.toByteArray_append.symm

theorem attended_single {event : Event} (roomy : c'.room = none) (left : c'.offered = rest)
    (output : c'.output = c.output ++ event.text.toUTF8) : Attended c [event] rest c' := by
  refine ⟨roomy, left, ?_⟩
  rw [output, List.map_singleton, String.join_cons, String.join_nil, String.append_empty]

end Attended

end Console

namespace Machine

open Console (Attended Noted Offers)

section Steps

variable {m : Machine} {i : Instruction} {typed : BitVec 16} {rest : List (Option String)}

theorem ask_of_offers {start : Console} (begun : Noted m.console start)
    (roomy : m.console.room = none)
    (offers : Offers m.console.offered [.typed typed] rest) :
    ∃ answered, Console.ask .narrow start = .ok (typed.signExtend 32) answered ∧
      answered.room = none ∧ answered.offered = rest ∧
      answered.output = m.console.output ++ Console.promptText.toUTF8 := by
  generalize tokens : m.console.offered = offered at offers
  obtain _ | ⟨word, _ | _⟩ := offers
  obtain ⟨answered, answer, left, roomy', output⟩ :=
    Console.ask_of_offered (begun.room_eq.trans roomy) (begun.offered_eq.trans tokens) word
  exact ⟨answered, answer, roomy', left, begun.output_eq ▸ output⟩

theorem firstWord_of_offers (roomy : m.console.room = none)
    (offers : Offers m.console.offered [.typed typed] rest) :
    (m.console.firstWord .narrow).setWidth 16 = typed := by
  obtain ⟨answered, answer, -⟩ := ask_of_offers .refl roomy offers
  rw [Console.firstWord_of_ask answer]
  exact Width.setWidth_signExtend typed

theorem not_console {address : Address} (narrow : m.cpu.width = .narrow)
    (cell : address ≠ m.cpu.beginCycle.width.consoleAddress) : address ≠ 0xFF := by
  change address ≠ m.cpu.width.consoleAddress at cell
  rwa [narrow] at cell

theorem step_attended (narrow : m.cpu.width = .narrow) (roomy : m.console.room = none)
    (current : m.current? = some i)
    (offers : Offers m.console.offered (passed typed (m.cpu.transfer i)).toList rest) :
    ∃ m', step m = .ok () m' ∧
      Attended m.console (passed typed (m.cpu.transfer i)).toList rest m'.console := by
  have same : m.cpu.beginCycle.transfer i = m.cpu.transfer i := rfl
  have width : m.cpu.beginCycle.width = .narrow := narrow
  have address : Width.narrow.consoleAddress = 0xFF := rfl
  obtain ⟨start, begun, ⟨m', effect, ran⟩ | ⟨f, m', effect, failed⟩⟩ := step_of_current current
  · refine ⟨_, ran, ?_⟩
    cases effect with
    | register passes quiet =>
      rw [← same, passes] at offers ⊢
      obtain rfl := offers.eq_of_nil
      exact Console.attended_of_noted roomy (begun.trans quiet)
    | load passes cell found quiet =>
      rw [← same, passes, passed, if_neg (not_console narrow cell)] at offers ⊢
      obtain rfl := offers.eq_of_nil
      exact Console.attended_of_noted roomy (begun.trans quiet)
    | store passes cell kept quiet =>
      rw [← same, passes, passed, if_neg (not_console narrow cell)] at offers ⊢
      obtain rfl := offers.eq_of_nil
      exact Console.attended_of_noted roomy (begun.trans quiet)
    | asked passes answer newline quiet =>
      rw [width] at passes answer
      rw [← same, passes, passed, if_pos address] at offers ⊢
      obtain ⟨answered, answer', roomy', left, output⟩ := ask_of_offers begun roomy offers
      cases answer.symm.trans answer'
      rw [Console.print_roomy roomy'] at newline
      cases newline
      refine Console.attended_single (quiet.room_eq.trans roomy') (quiet.offered_eq.trans left) ?_
      rw [quiet.output_eq, Console.output_emit, output, ByteArray.append_assoc]
      exact congrArg (m.console.output ++ ·) String.toByteArray_append.symm
    | shown passes echo quiet =>
      rw [width] at passes echo
      rw [← same, passes, passed, if_pos address] at offers ⊢
      obtain rfl := offers.eq_of_shown
      rw [Console.print_roomy (begun.room_eq.trans roomy)] at echo
      cases echo
      refine Console.attended_single (quiet.room_eq.trans (begun.room_eq.trans roomy))
        (quiet.offered_eq.trans begun.offered_eq) ?_
      rw [quiet.output_eq, Console.output_emit, begun.output_eq]
      rfl
  · -- The operator answers, and the sink takes everything.
    cases effect with
    | unanswered passes answer =>
      rw [width] at passes answer
      rw [← same, passes, passed, if_pos address] at offers
      obtain ⟨answered, answer', -⟩ := ask_of_offers begun roomy offers
      exact absurd (answer.symm.trans answer') (by simp)
    | cutShort passes answer newline =>
      rw [width] at passes answer
      rw [← same, passes, passed, if_pos address] at offers
      obtain ⟨answered, answer', roomy', -⟩ := ask_of_offers begun roomy offers
      cases answer.symm.trans answer'
      rw [Console.print_roomy roomy'] at newline
      exact absurd newline (by simp)
    | unshown passes echo =>
      rw [Console.print_roomy (begun.room_eq.trans roomy)] at echo
      exact absurd echo (by simp)

theorem exists_current (sound : m.cpu.Sound) (narrow : m.cpu.width = .narrow)
    (running : m.cpu.halted = false) : ∃ i, m.current? = some i := by
  obtain ⟨word, present⟩ := sound.fetched?_isSome
  have known := Instruction.decode_narrow word
  rw [← narrow] at known
  exact ⟨_, current?_eq running present known⟩

theorem step_simulates (sound : m.cpu.Sound) (narrow : m.cpu.width = .narrow)
    (running : m.cpu.halted = false) (roomy : m.console.room = none)
    (offers : Offers m.console.offered
      ((Reference.of m.cpu m.memory).event? typed).toList rest) :
    ∃ m', step m = .ok () m' ∧ m'.cpu.Sound ∧
      Reference.of m'.cpu m'.memory = (Reference.of m.cpu m.memory).step typed ∧
      Attended m.console ((Reference.of m.cpu m.memory).event? typed).toList rest m'.console := by
  obtain ⟨i, current⟩ := exists_current sound narrow running
  have event := Reference.event?_eq narrow current typed
  rw [event] at offers
  obtain ⟨m', ran, attended⟩ := step_attended narrow roomy current offers
  have range (r : Fin 16) :
      -32768 ≤ (m.cpu.register r).toInt ∧ (m.cpu.register r).toInt ≤ 32767 :=
    (fit_narrow_eq_self_iff _).mp (sound.fits r)
  refine ⟨m', ran, sound_of_step sound ran, ?_, event ▸ attended⟩
  rw [(step_refines running narrow (Nat.le_of_lt_succ sound.pc_lt) range ran).1]
  by_cases asks : (Reference.of m.cpu m.memory).event? typed = some (.typed typed)
  · rw [event.symm.trans asks] at offers
    rw [firstWord_of_offers roomy offers]
  · exact Reference.step_typed _ asks _

end Steps

/-- A run of the reference machine up to its halt is one of a machine that shows it, at a console
that offers the words to be typed. -/
theorem haltsAfter_of_runs {n : Nat} {r r' : Reference} {log : List Event}
    (runs : Reference.Runs n r log r') (ended : r'.halted = true) {m : Machine}
    {rest : List (Option String)} (sound : m.cpu.Sound) (shows : Reference.of m.cpu m.memory = r)
    (roomy : m.console.room = none) (offers : Offers m.console.offered log rest) :
    ∃ m', HaltsAfter n m m' ∧ m'.cpu.Sound ∧ Reference.of m'.cpu m'.memory = r' ∧
      Attended m.console log rest m'.console := by
  induction runs generalizing m with
  | done r =>
    obtain rfl := offers.eq_of_nil
    subst shows
    exact ⟨m, haltsAfter_zero ended, sound, rfl, Console.attended_of_noted roomy .refl⟩
  | cycle typed narrow running _ ih =>
    subst shows
    obtain ⟨between, first, later⟩ := offers.split
    obtain ⟨m₁, ran, sound₁, shows₁, attended⟩ :=
      step_simulates sound narrow running roomy first
    rw [← attended.offered] at later
    obtain ⟨m', halts, sound', shows', attended'⟩ := ih ended sound₁ shows₁ attended.roomy later
    rw [← attended.offered] at attended
    exact ⟨m', halts.cons running ran, sound', shows', attended.trans attended'⟩

end Machine

end ToyMachine
