import ToyMachine.Proofs.Destination
import ToyMachine.Proofs.Reachable

/-! Calls return. A call leaves the next address in a register, and cycles whose instructions have
other destinations leave it there, so that a jump through the register goes on behind the call.
A call from the last narrow cell leaves 0x100, which is no narrow address; the jump wraps it to
the first cell. -/

namespace ToyMachine

theorem Width.wrap_fit (w : Width) (v : Word) : w.wrap (w.fit v) = w.wrap v := by
  cases w with
  | narrow =>
    have low (v : Word) : v.setWidth 8 = (v.setWidth 16).setWidth 8 :=
      (BitVec.setWidth_setWidth_of_le v (by omega)).symm
    rw [wrap, low, setWidth_fit, ← low, wrap]
  | wide => rfl

namespace Processor

section Cycle

variable {cpu : Processor} {i : Instruction} (v : Word)

theorem register_cycle (zero : cpu.register 0 = 0) {r : Fin 16}
    (other : i.destination? ≠ some r) :
    (cpu.beginCycle.perform i v).endCycle.register r = cpu.register r := by
  rw [register_endCycle]
  split
  · next first =>
    rw [← first]
    exact zero.symm
  · exact register_perform _ other v

theorem register_call (code : i.opcode = .call) (other : i.target ≠ 0) :
    (cpu.beginCycle.perform i v).endCycle.register i.target = cpu.width.fit cpu.link := by
  simp only [perform, readSources, code]
  rw [register_endCycle, if_neg (Ne.symm other), register_movePc, register_setRegister, if_pos rfl]
  rfl

theorem pc_jump (running : cpu.halted = false) (code : i.opcode = .jump) :
    (cpu.beginCycle.perform i v).endCycle.pc = cpu.pointed i.target := by
  have moved : cpu.beginCycle.perform i v =
      { cpu.beginCycle.markRegisterRead i.target.val false with
        oldPc := cpu.pc, pc := cpu.pointed i.target, pcModified := true } := by
    simp only [perform, readSources, code]
    simp [movePc, markRegisterRead, beginCycle, running, pointed, register]
  rw [moved, endCycle, movePc_of_settled (.inr rfl)]

end Cycle

end Processor

namespace Machine

/-- A successful step, at a console of its own, with the instruction that it carries out. A halted
machine carries none out. -/
inductive Carries (s : Processor × Memory) (carried : Option Instruction) :
    Processor × Memory → Prop where
  | step {console : Console} {m : Machine} (current : current? ⟨s.1, s.2, console⟩ = carried)
      (ran : step ⟨s.1, s.2, console⟩ = .ok () m) : Carries s carried (m.cpu, m.memory)

inductive Runs : Processor × Memory → List (Option Instruction) → Processor × Memory → Prop where
  | done (s) : Runs s [] s
  | cycle {s s₁ s₂ carried between} (first : Carries s carried s₁) (rest : Runs s₁ between s₂) :
      Runs s (carried :: between) s₂

section Steps

variable {s s' : Processor × Memory} {carried : Option Instruction} {i : Instruction}
  {between : List (Option Instruction)} {r : Fin 16}

theorem Carries.call (carries : Carries s carried s') : Call s s' := by
  obtain @⟨console, m, _, ran⟩ := carries
  have called := Call.step (s := s) console
  rwa [attempt_of_ok ran] at called

theorem Runs.calls (runs : Runs s between s') : Calls s s' := by
  induction runs with
  | done => exact .refl
  | cycle first _ ih => exact .head first.call ih

theorem Carries.idle (carries : Carries s none s') : s' = s := by
  obtain @⟨console, m, current, ran⟩ := carries
  have cycle := cycle_step ⟨s.1, s.2, console⟩
  rw [ran] at cycle
  cases cycle with
  | idle => rfl
  | carried current' => simp [current] at current'

theorem Carries.running (carries : Carries s (some i) s') : s.1.halted = false := by
  obtain ⟨current, _⟩ := carries
  exact (current?_some current).1

theorem Carries.performs (carries : Carries s (some i) s') :
    ∃ v, s'.1 = (s.1.beginCycle.perform i v).endCycle := by
  have running := carries.running
  obtain @⟨console, m, current, ran⟩ := carries
  obtain ⟨i', v, current', performed⟩ := step_performs running ran
  rw [current, Option.some.injEq] at current'
  subst current'
  exact ⟨v, performed⟩

theorem Carries.narrow (carries : Carries s (some i) s') (other : i.opcode ≠ .halt) :
    s.1.width = .narrow := by
  obtain ⟨current, _⟩ := carries
  exact current?_narrow current other

theorem Carries.register (sound : s.1.Sound) (carries : Carries s carried s')
    (other : ∀ i ∈ carried, i.destination? ≠ some r) : s'.1.register r = s.1.register r := by
  cases carried with
  | none => rw [carries.idle]
  | some i =>
    obtain ⟨v, performed⟩ := carries.performs
    rw [performed]
    exact Processor.register_cycle v sound.zero (other i rfl)

theorem Runs.register (sound : s.1.Sound) (runs : Runs s between s')
    (other : ∀ i, some i ∈ between → i.destination? ≠ some r) :
    s'.1.register r = s.1.register r := by
  induction runs with
  | done => rfl
  | @cycle s s₁ s₂ carried between first rest ih =>
    have kept : s₁.1.register r = s.1.register r := by
      refine first.register sound fun i named => other i ?_
      rw [← Option.mem_def.mp named]
      exact List.mem_cons_self
    rw [ih (first.call.sound sound) fun i later => other i (List.mem_cons_of_mem _ later), kept]

theorem carries_of_silent {cpu : Processor} {memory : Memory}
    (current : current? ⟨cpu, memory, ⟨[], [], none, #[]⟩⟩ = some i)
    (silent : cpu.transfer i = .none) :
    Carries (cpu, memory) (some i) ((cpu.beginCycle.perform i 0).endCycle, memory) := by
  obtain ⟨console, _, ran⟩ := step_of_silent current silent
  exact .step (s := (cpu, memory)) current ran

end Steps

/-- What a register holds is the work of the instruction that has it as its destination; so a
jump through the register of a call goes on behind the call. -/
theorem call_returns {entry : Address} (bound : entry.toNat ≤ 0xFF) {initial : Memory}
    {before : List (Option Instruction)} {s : Processor × Memory}
    (runs : Runs (Processor.startingAt entry, initial) before s) :
    (∀ carried s' r, Carries s carried s' → s'.1.register r ≠ s.1.register r →
      ∃ i ∈ carried, i.destination? = some r) ∧
    ∀ call between jump s₁ s₂ s₃, call.opcode = .call → call.target ≠ 0 →
      jump.opcode = .jump → jump.target = call.target →
      (∀ i, some i ∈ between → i.destination? ≠ some call.target) →
      Carries s (some call) s₁ → Runs s₁ between s₂ → Carries s₂ (some jump) s₃ →
      s₃.1.pc.toNat = (s.1.pc.toNat + 1) % 0x100 ∧
        ∀ r, (∀ i, some i ∈ between → i.destination? ≠ some r) →
          s₃.1.register r = s₁.1.register r ∧
            (r ≠ call.target → s₃.1.register r = s.1.register r) := by
  have sound : s.1.Sound := Reachable.sound (by omega) runs.calls
  refine ⟨?_, ?_⟩
  · intro carried s' r carries changed
    refine Decidable.byContradiction fun unnamed => changed (carries.register sound ?_)
    exact fun i named writes => unnamed ⟨i, named, writes⟩
  · intro call between jump s₁ s₂ s₃ calls other jumps back kept first later last
    have sound₁ : s₁.1.Sound := first.call.sound sound
    have sound₂ : s₂.1.Sound := later.calls.sound sound₁
    have narrow : s.1.width = .narrow := first.narrow (by simp [calls])
    have narrow₂ : s₂.1.width = .narrow := last.narrow (by simp [jumps])
    obtain ⟨v, called⟩ := first.performs
    obtain ⟨u, returned⟩ := last.performs
    have link : s₂.1.register call.target = s.1.width.fit s.1.link := by
      rw [later.register sound₁ kept, called, Processor.register_call v calls other]
    refine ⟨?_, ?_⟩
    · -- The register has the link unwrapped; the wrap of the jump makes an address of it.
      calc s₃.1.pc.toNat
        _ = (s₂.1.pointed call.target).toNat := by
          rw [returned, Processor.pc_jump u last.running jumps, back]
        _ = (s.1.width.wrap s.1.link).toNat := by
          rw [Processor.pointed, link, narrow, narrow₂, Width.wrap_fit]
        _ = (s.1.pc.toNat + 1) % 0x100 := Processor.advance_toNat narrow
    · intro r unnamed
      have since : s₃.1.register r = s₁.1.register r := by
        rw [last.register sound₂ (by simp [Instruction.destination?, jumps]),
          later.register sound₁ unnamed]
      refine ⟨since, fun distinct => ?_⟩
      rw [since, first.register sound]
      simpa [Instruction.destination?, calls] using distinct.symm

/-- A call from the last cell keeps 0x100 and comes back at the first one. -/
theorem call_returns_wrapped :
    let call := Instruction.ofWord .call 0xFB20
    let sets := Instruction.ofWord .loadAddress 0x7C05
    let jump := Instruction.ofWord .jump 0xEB00
    let memory := ((Memory.zeroed.set .narrow (0xFF : Fin 0x100) call.word).set .narrow
      (0x20 : Fin 0x100) sets.word).set .narrow (0x21 : Fin 0x100) jump.word
    ∃ s₁ s₂ s₃, Carries (Processor.startingAt 0xFF, memory) (some call) s₁ ∧
      Runs s₁ [some sets] s₂ ∧ Carries s₂ (some jump) s₃ ∧
      s₃.1.pc.toNat = 0 ∧ s₃.1.register 0xB = 0x100 := by
  intro call sets jump memory
  let cpu₁ := ((Processor.startingAt 0xFF).beginCycle.perform call 0).endCycle
  let cpu₂ := (cpu₁.beginCycle.perform sets 0).endCycle
  have first : Carries (Processor.startingAt 0xFF, memory) (some call) (cpu₁, memory) :=
    carries_of_silent (by decide +kernel) rfl
  have second : Carries (cpu₁, memory) (some sets) (cpu₂, memory) :=
    carries_of_silent (by decide +kernel) rfl
  have third : Carries (cpu₂, memory) (some jump)
      ((cpu₂.beginCycle.perform jump 0).endCycle, memory) :=
    carries_of_silent (by decide +kernel) rfl
  have between : Runs (cpu₁, memory) [some sets] (cpu₂, memory) := .cycle second (.done _)
  have unnamed : ∀ i, some i ∈ [some sets] → i.destination? ≠ some call.target := by
    intro i named
    obtain rfl : i = sets := by simpa using named
    decide
  have alone := Runs.done (Processor.startingAt 0xFF, memory)
  obtain ⟨back, kept⟩ := (call_returns (by decide) alone).2 call _ jump _ _ _ rfl (by decide) rfl
    (by decide) unnamed first between third
  have wrapped : ((Processor.startingAt 0xFF).pc.toNat + 1) % 0x100 = 0 := by decide
  have link : cpu₁.register 0xB = 0x100 := by decide +kernel
  exact ⟨_, _, _, first, between, third, back.trans wrapped, (kept 0xB unnamed).1.trans link⟩

end Machine

end ToyMachine
