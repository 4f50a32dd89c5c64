import ToyMachine.Proofs.Composed
import Mathlib.Tactic.Choose

/-! Actions as dialogues. A machine comes to its console in three ways only: it reports, prints
and asks for a word. From a processor and a memory a cycle is therefore a tree: what it reports,
prints and asks for, what it goes on with for each reply, and how it ends. The console decides
the branch and is not looked at otherwise. So what holds of each call at the console holds of a
cycle, by induction on the tree. -/

namespace ToyMachine

namespace Console

inductive Call where
  | print (text : String)
  | ask (w : Width)

namespace Call

def Reply : Call → Type
  | print _ => Unit
  | ask _ => Word

def action : (call : Call) → Action call.Reply
  | print text => Console.print text
  | ask w => Console.ask w

end Call

end Console

variable {ε ε' α β : Type}

/-- What is said at a console up to an outcome. A call that fails ends it with an error that
has the failure of the call as its cause. -/
inductive Dialogue (cause : ε → Option Console.Failure) (α : Type) where
  | ended (outcome : Except ε α) (cpu : Processor) (memory : Memory)
  | noted (n : Notice) (next : Dialogue cause α)
  | called (call : Console.Call) (cpu : Processor) (memory : Memory)
      (fault : Console.Failure → ε) (blames : ∀ failure, cause (fault failure) = some failure)
      (next : call.Reply → Dialogue cause α)

def Fault.failure? (f : Fault) : Option Console.Failure :=
  match f.cause with
  | .console failure => some failure
  | _ => none

open Machine

namespace Dialogue

variable {cause : ε → Option Console.Failure}

def run : Dialogue cause α → Console → EStateM.Result ε Machine α
  | ended (.ok a) cpu memory, console => .ok a ⟨cpu, memory, console⟩
  | ended (.error e) cpu memory, console => .error e ⟨cpu, memory, console⟩
  | noted n next, console => next.run (console.emit (.noted n))
  | called call cpu memory fault _ next, console =>
    match call.action console with
    | .ok reply console => (next reply).run console
    | .error failure console => .error (fault failure) ⟨cpu, memory, console⟩

end Dialogue

/-- From every processor and memory the action is a dialogue. -/
def Speaks (cause : ε → Option Console.Failure) (act : Action ε α) : Prop :=
  ∀ cpu memory, ∃ d : Dialogue cause α, ∀ console, act ⟨cpu, memory, console⟩ = d.run console

namespace Dialogue

variable {cause : ε → Option Console.Failure}

theorem exists_bind (d : Dialogue cause α) {next : α → Action ε β}
    (speaks : ∀ a, Speaks cause (next a)) :
    ∃ d' : Dialogue cause β, ∀ console, d'.run console =
      match d.run console with
      | .ok a m => next a m
      | .error e m => .error e m := by
  induction d with
  | ended outcome cpu memory =>
    cases outcome with
    | ok a =>
      obtain ⟨d', same⟩ := speaks a cpu memory
      exact ⟨d', fun console => (same console).symm⟩
    | error e => exact ⟨.ended (.error e) cpu memory, fun _ => rfl⟩
  | noted n d ih =>
    obtain ⟨d', same⟩ := ih
    exact ⟨.noted n d', fun console => same _⟩
  | called call cpu memory fault blames d ih =>
    choose d' same using ih
    refine ⟨.called call cpu memory fault blames d', fun console => ?_⟩
    simp only [run]
    cases call.action console with
    | ok reply console => exact same reply console
    | error failure console => rfl

theorem exists_recast (d : Dialogue cause α) (cause' : ε' → Option Console.Failure)
    (f : ε → Processor → ε')
    (keeps : ∀ e cpu failure, cause e = some failure → cause' (f e cpu) = some failure) :
    ∃ d' : Dialogue cause' α, ∀ console, d'.run console =
      match d.run console with
      | .ok a m => .ok a m
      | .error e m => .error (f e m.cpu) m := by
  induction d with
  | ended outcome cpu memory =>
    cases outcome with
    | ok a => exact ⟨.ended (.ok a) cpu memory, fun _ => rfl⟩
    | error e => exact ⟨.ended (.error (f e cpu)) cpu memory, fun _ => rfl⟩
  | noted n d ih =>
    obtain ⟨d', same⟩ := ih
    exact ⟨.noted n d', fun console => same _⟩
  | called call cpu memory fault blames d ih =>
    choose d' same using ih
    have blames' (failure : Console.Failure) : cause' (f (fault failure) cpu) = some failure :=
      keeps _ _ _ (blames failure)
    refine ⟨.called call cpu memory (fun failure => f (fault failure) cpu) blames' d',
      fun console => ?_⟩
    simp only [run]
    cases call.action console with
    | ok reply console => exact same reply console
    | error failure console => rfl

end Dialogue

section Parts

variable {cause : ε → Option Console.Failure}

theorem speaks_pure (a : α) : Speaks cause (pure a : Action ε α) :=
  fun cpu memory => ⟨.ended (.ok a) cpu memory, fun _ => rfl⟩

theorem Speaks.bind {act : Action ε α} {next : α → Action ε β} (first : Speaks cause act)
    (rest : ∀ a, Speaks cause (next a)) : Speaks cause (act >>= next) := by
  intro cpu memory
  obtain ⟨d, same⟩ := first cpu memory
  obtain ⟨d', bound⟩ := d.exists_bind rest
  refine ⟨d', fun console => ?_⟩
  change EStateM.bind act next _ = _
  rw [EStateM.bind, bound, ← same console]
  cases act ⟨cpu, memory, console⟩ <;> rfl

theorem speaks_cpuHas (f : Processor → α) : Speaks cause (cpuHas f) :=
  fun cpu memory => ⟨.ended (.ok (f cpu)) cpu memory, fun _ => rfl⟩

theorem speaks_onCpu (f : Processor → Processor) : Speaks cause (onCpu f) :=
  fun cpu memory => ⟨.ended (.ok ()) (f cpu) memory, fun _ => rfl⟩

theorem speaks_onMemory (f : Memory → Memory) : Speaks cause (onMemory f) :=
  fun cpu memory => ⟨.ended (.ok ()) cpu (f memory), fun _ => rfl⟩

theorem speaks_note (n : Notice) : Speaks cause (note n) :=
  fun cpu memory => ⟨.noted n (.ended (.ok ()) cpu memory), fun _ => rfl⟩

theorem speaks_fail (cause : Fault.Cause) : Speaks Fault.failure? (fail cause : Action Fault α) :=
  fun cpu memory => ⟨.ended (.error ⟨cause, cpu.width, cpu.pc⟩) cpu memory, fun _ => rfl⟩

theorem speaks_call (call : Console.Call) : Speaks some (onConsole call.action) := by
  intro cpu memory
  refine ⟨.called call cpu memory id (fun _ => rfl) fun reply => .ended (.ok reply) cpu memory,
    fun console => ?_⟩
  rw [onConsole, Dialogue.run]
  cases call.action console <;> rfl

theorem Speaks.faulting {act : Action Console.Failure α} (speaks : Speaks some act) :
    Speaks Fault.failure? (faulting act) := by
  intro cpu memory
  obtain ⟨d, same⟩ := speaks cpu memory
  obtain ⟨d', recast⟩ := d.exists_recast Fault.failure?
    (fun failure cpu => ⟨.console failure, cpu.width, cpu.pc⟩) fun _ _ _ blamed => blamed
  refine ⟨d', fun console => ?_⟩
  rw [recast, ← same console, Machine.faulting]
  cases act ⟨cpu, memory, console⟩ <;> rfl

end Parts

section Accesses

theorem beforeRead_speaks (w : Width) (address : Address) : Speaks some (beforeRead w address) := by
  rw [beforeRead]
  split
  · refine (speaks_call (.ask w)).bind fun v => ?_
    refine (speaks_onMemory _).bind fun _ => ?_
    exact (speaks_call (.print _)).bind fun _ => speaks_note _
  · exact speaks_pure ()

theorem afterWrite_speaks (w : Width) (address : Address) : Speaks some (afterWrite w address) := by
  intro cpu memory
  by_cases console : address = w.consoleAddress
  · obtain ⟨d, same⟩ :=
      speaks_call (.print (echoText w (memory.get w w.consoleCell))) cpu memory
    refine ⟨d, fun c => ?_⟩
    rw [afterWrite, if_pos console]
    exact same c
  · refine ⟨.ended (.ok ()) cpu memory, fun c => ?_⟩
    rw [afterWrite, if_neg console]
    rfl

theorem fetch_speaks (w : Width) (address : Address) :
    Speaks Fault.failure? (fetch w address) := by
  intro cpu memory
  cases found : memory.read w address with
  | ok v =>
    refine ⟨.ended (.ok v) cpu memory, fun c => ?_⟩
    simp only [fetch, found]
    rfl
  | error e =>
    refine ⟨.ended (.error ⟨.noSuchCell e.address, cpu.width, cpu.pc⟩) cpu memory, fun c => ?_⟩
    simp only [fetch, found]
    rfl

theorem store_speaks (w : Width) (address : Address) (v : Word) :
    Speaks Fault.failure? (store w address v) := by
  rw [store]
  split
  · exact speaks_onMemory _
  · exact speaks_fail _

theorem readMemory_speaks (address : Address) : Speaks Fault.failure? (readMemory address) := by
  refine (speaks_cpuHas _).bind fun w => ?_
  refine (beforeRead_speaks w address).faulting.bind fun _ => ?_
  refine (fetch_speaks w address).bind fun v => ?_
  exact (speaks_onCpu _).bind fun _ => speaks_pure v

theorem writeMemory_speaks (address : Address) (v : Word) :
    Speaks Fault.failure? (writeMemory address v) := by
  refine (speaks_cpuHas _).bind fun w => ?_
  refine (store_speaks w address v).bind fun _ => ?_
  refine (speaks_onCpu _).bind fun _ => ?_
  exact (afterWrite_speaks w address).faulting

end Accesses

section Cycle

theorem speaks_composes : Composes fun _ act => Speaks Fault.failure? act where
  pure := speaks_pure
  bind := Speaks.bind
  cpuHas := speaks_cpuHas
  fail := speaks_fail
  note := speaks_note

theorem execute_speaks (i : Instruction) : Speaks Fault.failure? (execute i) := by
  by_cases code : i.opcode = .halt
  · have halts : ComposesHalts fun _ act => Speaks Fault.failure? act :=
      { speaks_composes with update := speaks_onCpu }
    exact halts.execute code
  · have others : ComposesOthers fun _ act => Speaks Fault.failure? act :=
      { speaks_composes with
        update := fun f _ => speaks_onCpu f
        readMemory := readMemory_speaks
        writeMemory := writeMemory_speaks }
    exact others.execute code

theorem fetchInstruction_speaks : Speaks Fault.failure? fetchInstruction := by
  refine (speaks_cpuHas _).bind fun w => ?_
  refine (speaks_cpuHas _).bind fun pc => ?_
  refine (fetch_speaks w pc).bind fun v => ?_
  cases Instruction.decode w (w.pattern v) with
  | ok i => exact (speaks_note _).bind fun _ => speaks_pure i
  | error code => exact speaks_fail _

theorem step_speaks : Speaks Fault.failure? step := by
  refine (speaks_cpuHas _).bind fun halted => ?_
  cases halted with
  | true => exact speaks_pure ()
  | false =>
    refine (speaks_onCpu _).bind fun _ => ?_
    refine fetchInstruction_speaks.bind fun i => ?_
    exact (execute_speaks i).bind fun _ => speaks_onCpu _

end Cycle

end ToyMachine
