import ToyMachine.Proofs.Invariant

/-! Runs of calls. A call takes the processor and the memory that the calls before it have
left, whether those went well or not, and a console of its own. A console can hold any
words and lines and any room, so it gives every answer and fails at every place that a
console can; nothing is asked of the memory either. What holds after every run of calls
so holds of any program and any operator. -/

namespace ToyMachine

namespace Machine

open Processor (Sound)

inductive Call (s : Processor × Memory) : Processor × Memory → Prop where
  | step (console : Console) :
    Call s ((attempt ⟨s.1, s.2, console⟩).cpu, (attempt ⟨s.1, s.2, console⟩).memory)

abbrev Calls : Processor × Memory → Processor × Memory → Prop :=
  Relation.ReflTransGen Call

def Reachable (entry : Address) (initial : Memory) : Processor × Memory → Prop :=
  Calls (Processor.startingAt entry, initial)

theorem current?_wide {m : Machine} {i : Instruction} (h : m.current? = some i)
    (wide : m.cpu.width = .wide) : i.opcode = .halt := by
  obtain ⟨_, word, _, known⟩ := current?_some h
  rw [wide] at known
  obtain ⟨rfl, _⟩ := Instruction.decode_wide_ok known
  rfl

theorem current?_narrow {m : Machine} {i : Instruction} (h : m.current? = some i)
    (other : i.opcode ≠ .halt) : m.cpu.width = .narrow := by
  cases width : m.cpu.width with
  | narrow => rfl
  | wide => exact absurd (current?_wide h width) other

theorem current?_decoded {m : Machine} {i : Instruction} (h : m.current? = some i) :
    i.Decoded := by
  obtain ⟨_, _, _, known⟩ := current?_some h
  exact (Instruction.decode_ok known).1

theorem sound_attempt {m : Machine} (sound : m.cpu.Sound) : m.attempt.cpu.Sound := by
  have begun : m.cpu.beginCycle.Sound := { sound.beginCycle with zero := sound.zero }
  have cycle := cycle_step m
  generalize result : step m = r at cycle
  cases cycle with
  | idle halted =>
    rw [attempt_of_ok result]
    exact sound
  | missing running absent =>
    rw [attempt_of_error result]
    exact begun
  | refused running present unknown =>
    rw [attempt_of_error result]
    exact begun
  | @failed i _ _ _ current quiet effect =>
    -- No register is written before the fault, so register 0 has the zero of the last cycle.
    have zero : (m.cpu.beginCycle.readSources i).register 0 = 0 := by
      rw [Processor.readSources_register]
      exact begun.zero
    rw [attempt_of_error result, effect.error_cpu]
    exact { begun.readSources _ with zero := zero }
  | carried current quiet effect =>
    obtain ⟨running, _⟩ := current?_some current
    -- Register 0 may hold anything now; the end of the cycle resets it.
    have begun_running : m.cpu.beginCycle.halted = false := running
    have known := current?_wide current
    obtain ⟨v, performed⟩ := effect.ok_cpu
    rw [attempt_of_ok result, performed]
    refine (begun.perform (current?_decoded current) rfl known v).endCycle ?_
    exact Processor.perform_settled begun_running known

theorem Call.sound {s s' : Processor × Memory} (sound : s.1.Sound) (h : Call s s') :
    s'.1.Sound := by
  cases h with
  | step console => exact sound_attempt sound

theorem Calls.sound {s s' : Processor × Memory} (sound : s.1.Sound) (h : Calls s s') :
    s'.1.Sound := by
  induction h with
  | refl => exact sound
  | tail _ called ih => exact called.sound ih

theorem Reachable.sound {entry : Address} {initial : Memory} {s : Processor × Memory}
    (bound : entry.toNat < 0x100) (h : Reachable entry initial s) : s.1.Sound :=
  Calls.sound (Processor.startingAt_sound bound) h

theorem attempt_of_halted {m : Machine} (h : m.cpu.halted = true) : m.attempt = m :=
  attempt_of_ok (step_of_halted h)

theorem Calls.eq_of_halted {s s' : Processor × Memory} (halted : s.1.halted = true)
    (h : Calls s s') : s' = s := by
  induction h with
  | refl => rfl
  | tail _ called ih =>
    subst ih
    cases called with
    | step console => rw [attempt_of_halted halted]

/-- What every run of calls keeps, in either width and after failed calls too. -/
theorem reachable_invariant {entry : Address} (bound : entry.toNat ≤ 0xFF) {initial : Memory}
    {cpu : Processor} {memory : Memory} (h : Reachable entry initial (cpu, memory)) :
    cpu.pc.toNat ≤ 0xFF ∧ cpu.oldPc.toNat ≤ 0xFF ∧ cpu.register 0 = 0 ∧
      (∀ r : Fin 16, -32768 ≤ (cpu.register r).toInt ∧ (cpu.register r).toInt ≤ 32767) ∧
      cpu.access.written ≠ some 0 ∧
      (∀ r, cpu.access.firstRead = some r ∨ cpu.access.secondRead = some r ∨
        cpu.access.written = some r → r < 16) ∧
      cpu.access.memoryWritten ≠ some cpu.width.consoleAddress ∧
      (cpu.halted = true →
        (∀ s, Calls (cpu, memory) s → s = (cpu, memory)) ∧
        ∀ console, step ⟨cpu, memory, console⟩ = .ok () ⟨cpu, memory, console⟩) := by
  have sound : cpu.Sound := h.sound (by omega)
  have pc := sound.pc_lt
  have oldPc := sound.oldPc_lt
  have access := sound.access
  refine ⟨by omega, by omega, sound.zero, ?_, access.written_ne, ?_, access.memoryWritten_ne, ?_⟩
  · intro r
    exact (fit_narrow_eq_self_iff _).mp (sound.fits r)
  · rintro r (first | second | target)
    · exact access.firstRead_lt r first
    · exact access.secondRead_lt r second
    · exact access.written_lt r target
  · intro halted
    refine ⟨fun s calls => calls.eq_of_halted halted, ?_⟩
    intro console
    exact step_of_halted halted

section Halted

def called (s : Processor × Memory) (console : Console) : Processor × Memory :=
  ((attempt ⟨s.1, s.2, console⟩).cpu, (attempt ⟨s.1, s.2, console⟩).memory)

theorem calls_foldl (s : Processor × Memory) (consoles : List Console) :
    Calls s (consoles.foldl called s) := by
  induction consoles generalizing s with
  | nil => exact .refl
  | cons console consoles ih => exact .head (.step console) (ih (called s console))

/-- A program that stores a word in a cell and in the console, and changes the width. -/
def storing : Memory :=
  .holding [(0x10, 0x7B05), (0x11, 0x9B30), (0x12, 0x9BFF), (0x13, 0x0FFF)]

/-- The store to the console fails over a full sink and is called again over one with room; the
wide cell behind the change of the width halts the machine. -/
theorem reachable_invariant_halted :
    let free : Console := ⟨[], [], none, #[]⟩
    let full : Console := ⟨[], [], some 0, #[]⟩
    let two := [free, free].foldl called (Processor.startingAt 0x10, storing)
    let s := [full, free, free, free].foldl called two
    fault? ⟨two.1, two.2, full⟩ = some ⟨.console .sinkFull, .narrow, 0x12⟩ ∧
      Reachable 0x10 storing s ∧ s.1.halted = true ∧ s.1.width = .wide ∧
      s.1.register 0xB = 5 ∧ s.2.get .narrow (0x30 : Fin 0x100) = 5 ∧
      s.1.pc.toNat ≤ 0xFF ∧ s.1.register 0 = 0 ∧
      (∀ r, -32768 ≤ (s.1.register r).toInt ∧ (s.1.register r).toInt ≤ 32767) ∧
      ∀ s', Calls s s' → s' = s := by
  intro free full two s
  have reached : Reachable 0x10 storing (s.1, s.2) :=
    (calls_foldl _ [free, free]).trans (calls_foldl two _)
  have halted : s.1.halted = true := by decide +kernel
  obtain ⟨pc, -, zero, range, -, -, -, after⟩ := reachable_invariant (by decide) reached
  exact ⟨by decide +kernel, reached, halted, by decide +kernel, by decide +kernel,
    by decide +kernel, pc, zero, range, (after halted).1⟩

end Halted

end Machine

end ToyMachine
