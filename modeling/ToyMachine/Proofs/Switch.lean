import ToyMachine.Proofs.Fault
import Mathlib.Algebra.Ring.Parity

/-! A switch of the width is final. The program counter keeps its number in the other
view and is never advanced there, and neither a halt nor a switch stores a word, so the two
cells that share the number of the counter decide the rest of the run: the wide one is
refused for ever, halts the machine, or is the switch word itself, and then the machine
turns from one width to the other without end. -/

namespace ToyMachine

namespace Processor

def switched (cpu : Processor) : Processor :=
  { cpu with width := cpu.width.other, oldPc := cpu.pc, pcModified := true, access := {} }

def stopped (cpu : Processor) : Processor :=
  { cpu with halted := true, pcModified := false, access := {} }

theorem endCycle_of_settled {cpu : Processor} (zero : cpu.register 0 = 0)
    (settled : cpu.halted = true ∨ cpu.pcModified = true) : cpu.endCycle = cpu := by
  have first : cpu.registers[0] = 0 := zero
  have kept : cpu.registers.set 0 0 = cpu.registers := by
    rw [← first]
    exact Vector.set_getElem_self _
  rw [endCycle]
  simp only [movePc_of_settled settled, kept]

theorem perform_switch {cpu : Processor} {i : Instruction} (sound : cpu.Sound)
    (running : cpu.halted = false) (code : i.opcode = .halt) (switches : i.switchesWidth = true) :
    (cpu.beginCycle.perform i 0).endCycle = cpu.switched := by
  have target := switchTarget_eq sound.beginCycle.pc_lt
  have performed : cpu.beginCycle.perform i 0 = cpu.switched := by
    simp only [perform, readSources, code, switches, if_true, switchWidth, target, movePc]
    simp only [beginCycle, switched, running, Bool.false_or, Bool.false_and, Bool.false_eq_true,
      if_false, Bool.not_false]
  rw [performed]
  exact endCycle_of_settled sound.zero (.inr rfl)

theorem perform_stop {cpu : Processor} {i : Instruction} (sound : cpu.Sound)
    (code : i.opcode = .halt) (stops : i.switchesWidth = false) :
    (cpu.beginCycle.perform i 0).endCycle = cpu.stopped := by
  have performed : cpu.beginCycle.perform i 0 = cpu.stopped := by
    simp only [perform, readSources, code, stops, Bool.false_eq_true, if_false]
    rfl
  rw [performed]
  exact endCycle_of_settled sound.zero (.inl rfl)

end Processor

namespace Machine

open Console (Noted)

section Halts

variable {m : Machine} {i : Instruction} (sound : m.cpu.Sound) (current : m.current? = some i)
  (code : i.opcode = .halt)

include sound current code

theorem step_of_switch (switches : i.switchesWidth = true) :
    ∃ console, Noted m.console console ∧ step m = .ok () ⟨m.cpu.switched, m.memory, console⟩ := by
  have running := (current?_some current).1
  have silent : m.cpu.transfer i = .none := by simp only [Processor.transfer, code]
  rw [← Processor.perform_switch sound running code switches]
  exact step_of_silent current silent

theorem step_of_stop (stops : i.switchesWidth = false) :
    ∃ console, Noted m.console console ∧ step m = .ok () ⟨m.cpu.stopped, m.memory, console⟩ := by
  have silent : m.cpu.transfer i = .none := by simp only [Processor.transfer, code]
  rw [← Processor.perform_stop sound code stops]
  exact step_of_silent current silent

end Halts

theorem switchesWidth_ofWord {word : Word} :
    (Instruction.ofWord .halt word).switchesWidth = true ↔ word = Instruction.switchWord := by
  simp [Instruction.switchesWidth, Instruction.ofWord]

/-- An address whose narrow cell is the switch word. The wide cell is there too, because
the wide width has every narrow address. -/
structure Site (memory : Memory) (p : Address) (w : Word) : Prop where
  narrow : ∃ v, memory.read .narrow p = .ok v ∧ Width.narrow.pattern v = Instruction.switchWord
  wide : memory.read .wide p = .ok w

/-- The states that calls lead to after a switch at `p`. The machine comes back to the
narrow width, or halts, only as the wide cell allows. -/
structure Held (memory : Memory) (p : Address) (w : Word) (cpu : Processor) : Prop where
  sound : cpu.Sound
  pc : cpu.pc = p
  returned : cpu.width = .narrow → w = Instruction.switchWord
  ended : cpu.halted = true → Instruction.selector .wide w = 0

section Held

variable {memory : Memory} {p : Address} {w : Word} {cpu : Processor} (site : Site memory p w)
  (held : Held memory p w cpu) (console : Console)

include site held

theorem Held.current {i : Instruction} (h : current? ⟨cpu, memory, console⟩ = some i) :
    i = .ofWord .halt w ∧ Instruction.selector .wide w = 0 := by
  obtain ⟨_, word, present, known⟩ := current?_some h
  obtain ⟨v, found, pattern⟩ := fetched?_some present
  rw [held.pc] at found
  cases width : cpu.width with
  | narrow =>
    obtain ⟨v', found', pattern'⟩ := site.narrow
    rw [width, found', Except.ok.injEq] at found
    rw [width, ← found, pattern'] at pattern
    rw [width, ← pattern, Instruction.decode_narrow, Except.ok.injEq] at known
    rw [held.returned width]
    exact ⟨known.symm, by decide⟩
  | wide =>
    rw [width, site.wide, Except.ok.injEq] at found
    rw [width, ← found] at pattern
    rw [width, ← pattern] at known
    exact Instruction.decode_wide_ok known

theorem Held.attempt : (attempt ⟨cpu, memory, console⟩).memory = memory ∧
    Held memory p w (attempt ⟨cpu, memory, console⟩).cpu := by
  have begun : Held memory p w cpu.beginCycle :=
    { held with sound := { held.sound.beginCycle with zero := held.sound.zero } }
  have sound : (Machine.attempt ⟨cpu, memory, console⟩).cpu.Sound := sound_attempt held.sound
  cases current : current? ⟨cpu, memory, console⟩ with
  | none =>
    -- An idle, a missing and a refused cycle move nothing.
    have cycle := cycle_step ⟨cpu, memory, console⟩
    generalize result : step _ = r at cycle
    cases cycle with
    | idle halted =>
      rw [attempt_of_ok result]
      exact ⟨rfl, held⟩
    | missing | refused =>
      rw [attempt_of_error result]
      exact ⟨rfl, begun⟩
    | carried other | failed other => exact absurd (current.symm.trans other) (by simp)
  | some i =>
    obtain ⟨rfl, halt⟩ := held.current site console current
    cases switches : (Instruction.ofWord .halt w).switchesWidth with
    | false =>
      obtain ⟨console', _, ran⟩ := step_of_stop held.sound current rfl switches
      rw [attempt_of_ok ran] at sound ⊢
      exact ⟨rfl, sound, held.pc, held.returned, fun _ => halt⟩
    | true =>
      obtain ⟨console', _, ran⟩ := step_of_switch held.sound current rfl switches
      rw [attempt_of_ok ran] at sound ⊢
      -- Only the switch word in the wide cell leads back to the narrow width.
      have word : w = Instruction.switchWord := switchesWidth_ofWord.mp switches
      exact ⟨rfl, sound, held.pc, fun _ => word, held.ended⟩

theorem Held.calls {s : Processor × Memory} (h : Calls (cpu, memory) s) :
    s.2 = memory ∧ Held memory p w s.1 := by
  induction h with
  | refl => exact ⟨rfl, held⟩
  | @tail s _ _ called ih =>
    obtain ⟨kept, held⟩ := ih
    cases called with
    | step console =>
      rw [kept]
      exact held.attempt site console

theorem Held.refused (unknown : Instruction.selector .wide w ≠ 0) :
    step ⟨cpu, memory, console⟩ =
      .error ⟨.invalidOpcode (Instruction.selector .wide w) w, .wide, p⟩
        ⟨cpu.beginCycle, memory, console⟩ := by
  have running : cpu.halted = false := by
    by_contra halted
    exact unknown (held.ended (by simpa using halted))
  have wide : cpu.width = .wide := by
    cases width : cpu.width with
    | wide => rfl
    | narrow =>
      rw [held.returned width] at unknown
      exact absurd unknown (by decide)
  have present : fetched? ⟨cpu, memory, console⟩ = some w := by
    have found : memory.read cpu.width cpu.pc = .ok w := by
      rw [wide, held.pc, site.wide]
    rw [fetched?_eq found, wide]
    rfl
  rw [step_of_unknown running wide present unknown, ← held.pc]

theorem Held.current_of_halt (halt : Instruction.selector .wide w = 0)
    (running : cpu.halted = false) : current? ⟨cpu, memory, console⟩ = some (.ofWord .halt w) := by
  cases width : cpu.width with
  | narrow =>
    obtain ⟨v, read, pattern⟩ := site.narrow
    have found : memory.read cpu.width cpu.pc = .ok v := by
      rw [width, held.pc, read]
    apply current?_eq running (fetched?_eq found)
    rw [width, pattern, Instruction.decode_narrow, held.returned width]
    rfl
  | wide =>
    have found : memory.read cpu.width cpu.pc = .ok w := by
      rw [width, held.pc, site.wide]
    apply current?_eq running (fetched?_eq found)
    rw [width]
    exact if_pos halt

end Held

/-- Nothing is different but the width, the old program counter, and what a cycle marks
and reports. -/
structure Unmoved (m m' : Machine) : Prop where
  running : m'.cpu.halted = false
  pc : m'.cpu.pc = m.cpu.pc
  registers : m'.cpu.registers = m.cpu.registers
  memory : m'.memory = m.memory
  input : m'.console.input = m.console.input
  pending : m'.console.pending = m.console.pending
  room : m'.console.room = m.console.room
  output : m'.console.output = m.console.output

namespace Unmoved

theorem switched {m m' : Machine} (same : Unmoved m m') {console : Console}
    (quiet : Noted m'.console console) : Unmoved m ⟨m'.cpu.switched, m'.memory, console⟩ :=
  { same with
    input := quiet.input_eq.trans same.input
    pending := quiet.pending_eq.trans same.pending
    room := quiet.room_eq.trans same.room
    output := quiet.output_eq.trans same.output }

variable {m m' : Machine} (site : Site m.memory m.cpu.pc Instruction.switchWord)

include site

theorem turn (held : Held m.memory m.cpu.pc Instruction.switchWord m'.cpu) (same : Unmoved m m') :
    ∃ next, step m' = .ok () next ∧ Held m.memory m.cpu.pc Instruction.switchWord next.cpu ∧
      Unmoved m next ∧ next.cpu.width = m'.cpu.width.other := by
  obtain ⟨cpu, memory, console⟩ := m'
  obtain rfl : memory = m.memory := same.memory
  have current := held.current_of_halt site console (by decide) same.running
  obtain ⟨console', quiet, ran⟩ :=
    step_of_switch held.sound current rfl (switchesWidth_ofWord.mpr rfl)
  have next := (held.attempt site console).2
  rw [attempt_of_ok ran] at next
  exact ⟨_, ran, next, same.switched quiet, rfl⟩

theorem turns (held : Held m.memory m.cpu.pc Instruction.switchWord m'.cpu) (same : Unmoved m m')
    (n : ℕ) :
    Held m.memory m.cpu.pc Instruction.switchWord (attempt^[n] m').cpu ∧
      Unmoved m (attempt^[n] m') ∧ (attempt^[n] m').cpu.width = Width.other^[n] m'.cpu.width := by
  -- A turn needs both cells to hold the switch word still, and they do, since the memory
  -- and the counter are those of the start.
  induction n with
  | zero => exact ⟨held, same, rfl⟩
  | succ n ih =>
    obtain ⟨held, same, width⟩ := ih
    obtain ⟨next, ran, held, same, turned⟩ := turn site held same
    rw [Function.iterate_succ_apply', attempt_of_ok ran, Function.iterate_succ_apply', ← width]
    exact ⟨held, same, turned⟩

end Unmoved

theorem width_turns (n : ℕ) : Width.other^[n] .wide = if n % 2 = 0 then .wide else .narrow := by
  have back : Function.Involutive Width.other := Width.other_other
  rcases Nat.even_or_odd n with even | odd
  · rw [back.iterate_even even, if_pos (Nat.even_iff.mp even)]
    rfl
  · rw [back.iterate_odd odd, if_neg (by simp [Nat.odd_iff.mp odd])]
    rfl

/-- Where a switch leads, from any state of a program. -/
theorem switch_final {entry : Address} (bound : entry.toNat ≤ 0xFF) {initial : Memory}
    {m : Machine} (reached : Reachable entry initial (m.cpu, m.memory))
    (running : m.cpu.halted = false) (narrow : m.cpu.width = .narrow)
    (sentinel : m.fetched? = some Instruction.switchWord) :
    ∃ (next : Machine) (w : Word), step m = .ok () next ∧ next.cpu.width = .wide ∧
      next.cpu.pc = m.cpu.pc ∧ m.memory.read .wide m.cpu.pc = .ok w ∧
      (Instruction.selector .wide w ≠ 0 →
        ∀ s, Calls (next.cpu, next.memory) s → ∀ console, ∃ m',
          step ⟨s.1, s.2, console⟩ =
            .error ⟨.invalidOpcode (Instruction.selector .wide w) w, .wide, m.cpu.pc⟩ m') ∧
      (Instruction.selector .wide w = 0 → w ≠ Instruction.switchWord →
        ∀ console, ∃ m', step ⟨next.cpu, next.memory, console⟩ = .ok () m' ∧
          m'.cpu.halted = true ∧ m'.cpu.pc = m.cpu.pc) ∧
      (w = Instruction.switchWord →
        ∀ n, Unmoved m (attempt^[n] next) ∧
          (attempt^[n] next).cpu.width = (if n % 2 = 0 then .wide else .narrow) ∧
          ∃ m', step (attempt^[n] next) = .ok () m') ∧
      ∀ s, Calls (next.cpu, next.memory) s → ∀ console i,
        current? ⟨s.1, s.2, console⟩ = some i → i = .ofWord .halt w := by
  have sound : m.cpu.Sound := reached.sound (by omega)
  obtain ⟨v, found, pattern⟩ := fetched?_some sentinel
  rw [narrow] at found pattern
  have low : m.cpu.pc.toNat < Width.wide.cells := Nat.lt_trans sound.pc_lt (by decide)
  obtain ⟨w, cell⟩ : ∃ w, m.memory.read .wide m.cpu.pc = .ok w := ⟨_, m.memory.read_eq low⟩
  have site : Site m.memory m.cpu.pc w := ⟨⟨v, found, pattern⟩, cell⟩
  have current : m.current? = some (.ofWord .halt Instruction.switchWord) := by
    apply current?_eq running sentinel
    rw [narrow]
    rfl
  obtain ⟨console, quiet, ran⟩ :=
    step_of_switch sound current rfl (switchesWidth_ofWord.mpr rfl)
  have wide : m.cpu.switched.width = .wide := by
    rw [Processor.switched, narrow]
    rfl
  have held : Held m.memory m.cpu.pc w m.cpu.switched := by
    have sound' := sound_attempt sound
    rw [attempt_of_ok ran] at sound'
    refine ⟨sound', rfl, fun back => ?_, fun halted => ?_⟩
    · exact absurd (wide.symm.trans back) (by simp)
    · exact absurd (running.symm.trans halted) (by simp)
  refine ⟨_, w, ran, wide, rfl, cell, ?_, ?_, ?_, ?_⟩
  · intro unknown s calls console
    obtain ⟨kept, held⟩ := held.calls site calls
    rw [kept]
    exact ⟨_, held.refused site console unknown⟩
  · intro halt other console
    have stops : (Instruction.ofWord .halt w).switchesWidth = false := by
      rw [Bool.eq_false_iff]
      exact fun switches => other (switchesWidth_ofWord.mp switches)
    have current := held.current_of_halt site console halt running
    obtain ⟨_, _, stopped⟩ := step_of_stop held.sound current rfl stops
    exact ⟨_, stopped, rfl, rfl⟩
  · rintro rfl n
    have same : Unmoved m m := ⟨running, rfl, rfl, rfl, rfl, rfl, rfl, rfl⟩
    obtain ⟨held, same, turned⟩ := Unmoved.turns site held (same.switched quiet) n
    obtain ⟨m', ran, _⟩ := Unmoved.turn site held same
    refine ⟨same, ?_, m', ran⟩
    rw [turned, wide, width_turns]
  · intro s calls console i current
    obtain ⟨kept, held⟩ := held.calls site calls
    rw [kept] at current
    exact (held.current site console current).1

/-- With the switch word in both cells no run ends. -/
theorem switch_final_forever :
    let memory := (Memory.zeroed.set .narrow (0x10 : Fin 0x100) 0x0FFF).set .wide
      (0x10 : Fin 0x10000) 0x0FFF
    let m : Machine := ⟨Processor.startingAt 0x10, memory, ⟨[], [], none, #[]⟩⟩
    m.fetched? = some Instruction.switchWord ∧
      ∃ next, step m = .ok () next ∧ ∀ n, Unmoved m (attempt^[n] next) := by
  intro memory m
  have reached : Reachable 0x10 memory (m.cpu, m.memory) := .refl
  have sentinel : m.fetched? = some Instruction.switchWord := by decide +kernel
  have cell : m.memory.read .wide m.cpu.pc = .ok Instruction.switchWord := by decide +kernel
  obtain ⟨next, w, ran, _, _, cell', _, _, forever, _⟩ :=
    switch_final (by decide) reached rfl rfl sentinel
  rw [cell, Except.ok.injEq] at cell'
  exact ⟨sentinel, next, ran, fun n => (forever cell'.symm n).1⟩

end Machine

end ToyMachine
