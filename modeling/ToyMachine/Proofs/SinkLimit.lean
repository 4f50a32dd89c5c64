import ToyMachine.Proofs.Piecewise
import ToyMachine.Proofs.Unpaused
import ToyMachine.Proofs.Console.Room

/-! Runs over a sink of limited room. A run whose output fits is the run over a sink without
limit. Any other goes like that one up to the cycle in which the output becomes too long, and
fails in this cycle with the failure of the sink; what was printed is as much of the whole output
as fits. So no text is left out, printed twice or printed after one that failed, nor any piece
of a text. -/

namespace ToyMachine

open Console (Fits Exceeds Grows)

namespace Machine

abbrev LimitedTo {ε α : Type} (n : Nat) (cause : ε → Option Console.Failure) :
    EStateM.Result ε Machine α → EStateM.Result ε Machine α → Prop :=
  Limited (Across (Fits n)) (fun m m' => Exceeds n m.console m'.console)
    fun e => cause e = some .sinkFull

/-- Over a sink without limit the action adds to the output, and over a limited one it does the
same or fails for it. -/
structure Curbed {ε α : Type} (cause : ε → Option Console.Failure) (act : Action ε α) : Prop where
  grows : ∀ m, m.console.room = none → Grows m.console (finalState (act m)).console
  limited : ∀ n m m', Across (Fits n) m m' → LimitedTo n cause (act m) (act m')

end Machine

open Machine

section Dialogues

variable {ε α β : Type} {cause : ε → Option Console.Failure} {n : Nat}

theorem Dialogue.grows_called {call : Console.Call} {cpu : Processor} {memory : Memory}
    {fault : Console.Failure → ε} {blames : ∀ failure, cause (fault failure) = some failure}
    {next : call.Reply → Dialogue cause α} {c : Console} (roomy : c.room = none)
    (rest : ∀ reply c₁, c₁.room = none → Grows c₁ (finalState ((next reply).run c₁)).console) :
    Grows (finalState (call.action c))
      (finalState ((called call cpu memory fault blames next).run c)).console := by
  have replied := call.grows roomy
  rw [run]
  generalize call.action c = r at replied
  cases r with
  | ok reply c₁ => exact rest reply c₁ replied.roomy
  | error failure c₁ => exact Console.grows_of_same replied.roomy rfl rfl

theorem Dialogue.grows (d : Dialogue cause α) {c : Console} (roomy : c.room = none) :
    Grows c (finalState (d.run c)).console := by
  induction d generalizing c with
  | ended outcome cpu memory => cases outcome <;> exact Console.grows_of_same roomy rfl rfl
  | noted n d ih => exact (Console.grows_emit roomy _).trans (ih roomy)
  | called call cpu memory fault blames d ih =>
    exact (call.grows roomy).trans (grows_called roomy fun reply _ => ih reply)

theorem Dialogue.limited (d : Dialogue cause α) {c c' : Console} (fits : Fits n c c') :
    LimitedTo n cause (d.run c) (d.run c') := by
  induction d generalizing c c' with
  | ended outcome cpu memory =>
    cases outcome with
    | ok a => exact .same (.ok a ⟨rfl, rfl, fits⟩)
    | error e => exact .same (.error e ⟨rfl, rfl, fits⟩)
  | noted n d ih => exact ih (fits.note n)
  | called call cpu memory fault blames d ih =>
    have replied := call.limited fits
    have after : Grows (finalState (call.action c))
        (finalState ((called call cpu memory fault blames d).run c)).console :=
      grows_called fits.roomy fun reply _ => (d reply).grows
    rw [run] at after ⊢
    rw [run]
    generalize call.action c = r at replied after
    generalize call.action c' = r' at replied
    cases replied with
    | same lockstep =>
      cases lockstep with
      | ok reply fits => exact ih reply fits
      | error failure fits => exact .same (.error _ ⟨rfl, rfl, fits⟩)
    | cut blamed exceeds =>
      rw [blamed]
      exact .cut (blames _) (exceeds.grows after)

theorem Speaks.curbed {act : Action ε α} (speaks : Speaks cause act) : Curbed cause act where
  grows := by
    rintro ⟨cpu, memory, c⟩ roomy
    obtain ⟨d, same⟩ := speaks cpu memory
    rw [same]
    exact d.grows roomy
  limited := by
    rintro n ⟨_, _, c⟩ ⟨cpu, memory, c'⟩ ⟨rfl, rfl, fits⟩
    obtain ⟨d, same⟩ := speaks cpu memory
    rw [same, same]
    exact d.limited fits

theorem Machine.Curbed.grows_after {act : Action ε α} {next : α → Action ε β}
    (first : Curbed cause act) (rest : ∀ a, Curbed cause (next a)) {m : Machine}
    (roomy : m.console.room = none) :
    Grows (finalState (act m)).console (finalState ((act >>= next) m)).console := by
  have began := first.grows m roomy
  change Grows _ (finalState (EStateM.bind act next m)).console
  rw [EStateM.bind]
  generalize act m = r at began
  cases r with
  | ok a m₁ => exact (rest a).grows m₁ began.roomy
  | error e m₁ => exact Console.grows_of_same began.roomy rfl rfl

theorem Machine.Curbed.bind {act : Action ε α} {next : α → Action ε β} (first : Curbed cause act)
    (rest : ∀ a, Curbed cause (next a)) : Curbed cause (act >>= next) := by
  refine ⟨fun m roomy => (first.grows m roomy).trans (first.grows_after rest roomy), ?_⟩
  intro n m m' fits
  have began := first.limited n m m' fits
  have later := first.grows_after rest fits.console.roomy
  change LimitedTo n cause (EStateM.bind act next m) (EStateM.bind act next m')
  change Grows _ (finalState (EStateM.bind act next m)).console at later
  rw [EStateM.bind] at later ⊢
  rw [EStateM.bind]
  generalize act m = r at began later
  generalize act m' = r' at began
  cases began with
  | same lockstep =>
    cases lockstep with
    | ok a fits => exact (rest a).limited n _ _ fits
    | error e fits => exact .same (.error e fits)
  | cut blamed exceeds => exact .cut blamed (exceeds.grows later)

end Dialogues

namespace Machine

variable {o : RunOptions} {n : Nat} {m m' : Machine}

theorem curbed_wait :
    Curbed RunFailure.failure? (mapFailure .waiting (onConsole Console.wait)) where
  grows := by
    rintro ⟨cpu, memory, c⟩ roomy
    have waited := Console.grows_wait roomy
    rw [mapFailure, onConsole]
    generalize Console.wait c = r at waited
    cases r <;> exact waited
  limited := by
    rintro n ⟨_, _, c⟩ ⟨cpu, memory, c'⟩ ⟨rfl, rfl, fits⟩
    have waited := fits.wait
    rw [mapFailure, mapFailure, onConsole, onConsole]
    generalize Console.wait c = r at waited
    generalize Console.wait c' = r' at waited
    cases waited with
    | ok u fits => exact .same (.ok u ⟨rfl, rfl, fits⟩)
    | error e fits => exact .same (.error _ ⟨rfl, rfl, fits⟩)

theorem curbed_cycle (o : RunOptions) : Curbed RunFailure.failure? (cycle o) := by
  rw [cycle_eq]
  refine (cycle_speaks o).curbed.bind fun _ => ?_
  split
  · exact curbed_wait
  · exact (speaks_pure ()).curbed

theorem curbed_run (o : RunOptions) (k : Nat) : Curbed RunFailure.failure? (run o k) := by
  induction k with
  | zero => exact (speaks_cpuHas _).curbed
  | succ k ih =>
    rw [run]
    refine (speaks_cpuHas _).curbed.bind fun halted => ?_
    split
    · exact (speaks_pure true).curbed
    · exact (curbed_cycle o).bind fun _ => ih

theorem curbed_runToHalt (o : RunOptions) (k : Nat) :
    Curbed RunFailure.failure? (runToHalt o k) := by
  refine (curbed_run o k).bind fun halted => ?_
  cases halted with
  | true =>
    refine (speaks_cpuHas _).curbed.bind fun pc => ?_
    exact (speaks_note _).curbed.bind fun _ => (speaks_pure true).curbed
  | false => exact (speaks_pure false).curbed

def cycles (o : RunOptions) : Nat → Action RunFailure Unit
  | 0 => pure ()
  | j + 1 => do
    cycle o
    cycles o j

/-- Some cycles go alike over both sinks, and in the next one the output becomes too long; over
the limited sink it is the last. -/
def CutOff (o : RunOptions) (n : Nat) (m m' : Machine) (e : RunFailure) (s' : Machine) : Prop :=
  ∃ j u u', cycles o j m = .ok () u ∧ cycles o j m' = .ok () u' ∧ Across (Fits n) u u' ∧
    u'.cpu.halted = false ∧ cycle o u' = .error e s' ∧
    n < (finalState (cycle o u)).console.output.size

theorem CutOff.cons {e : RunFailure} {u u' s' : Machine} (ran : cycle o m = .ok () u)
    (ran' : cycle o m' = .ok () u') (cut : CutOff o n u u' e s') : CutOff o n m m' e s' := by
  obtain ⟨j, v, v', calls, calls', rest⟩ := cut
  exact ⟨j + 1, v, v', (bind_of_ok ran).trans calls, (bind_of_ok ran').trans calls', rest⟩

theorem Across.withEnd (fits : Across (Fits n) m m') : Across (Fits n) m.withEnd m'.withEnd := by
  obtain ⟨cpu, memory, console⟩ := fits
  refine ⟨cpu, memory, ?_⟩
  rw [Machine.withEnd, Machine.withEnd, cpu]
  exact console.note _

theorem runToHalt_limited_of_halted (k : Nat) (fits : Across (Fits n) m m')
    (halted : m.cpu.halted = true) :
    Matches (Across (Fits n)) (runToHalt o k m) (runToHalt o k m') := by
  rw [runToHalt_of_halted halted, runToHalt_of_halted (fits.cpu ▸ halted)]
  exact .ok true fits.withEnd

theorem runToHalt_limited (k : Nat) (fits : Across (Fits n) m m') :
    Matches (Across (Fits n)) (runToHalt o k m) (runToHalt o k m') ∨
      ∃ e s', runToHalt o k m' = .error e s' ∧ e.failure? = some .sinkFull ∧
        Exceeds n (finalState (runToHalt o k m)).console s'.console ∧ CutOff o n m m' e s' := by
  induction k generalizing m m' with
  | zero =>
    cases halted : m.cpu.halted with
    | true => exact .inl (runToHalt_limited_of_halted _ fits halted)
    | false =>
      rw [runToHalt_zero halted, runToHalt_zero (fits.cpu ▸ halted)]
      exact .inl (.ok false fits)
  | succ k ih =>
    cases halted : m.cpu.halted with
    | true => exact .inl (runToHalt_limited_of_halted _ fits halted)
    | false =>
      have halted' : m'.cpu.halted = false := fits.cpu ▸ halted
      have cycled := (curbed_cycle o).limited n m m' fits
      have grown := (curbed_cycle o).grows_after (fun _ => curbed_runToHalt o k) fits.console.roomy
      rw [runToHalt_succ halted, runToHalt_succ halted']
      cases ran' : cycle o m' with
      | ok u s' =>
        rw [ran'] at cycled
        obtain ⟨s, ran, fits⟩ := cycled.of_ok
        rw [bind_of_ok ran, bind_of_ok ran']
        rcases ih fits with same | ⟨e, s', failed, blamed, exceeds, cut⟩
        · exact .inl same
        · exact .inr ⟨e, s', failed, blamed, exceeds, cut.cons ran ran'⟩
      | error e s' =>
        rw [bind_of_error ran']
        rw [ran'] at cycled
        generalize ran : cycle o m = r at cycled
        cases cycled with
        | same lockstep =>
          cases lockstep with
          | error e fits =>
            rw [bind_of_error ran]
            exact .inl (.error e fits)
        | cut blamed exceeds =>
          rw [← ran] at exceeds
          exact .inr ⟨e, s', rfl, blamed, exceeds.grows grown,
            0, m, m', rfl, rfl, fits, halted', ran', exceeds.size⟩

/-- Over a sink that accepts `n` bytes in all a run is the run over a sink without limit, if
the output of that one fits. Otherwise it fails, for the sink in the end, with the first `n`
bytes of that output, and in the cycle in which the output gets longer than that. None of this
depends on the pieces that a display is printed in, each of which may be the one that fails. -/
theorem runToHalt_over_limit (o : RunOptions) (cpu : Processor) (memory : Memory)
    (stdin : ByteArray) (n k : Nat) :
    let start (room : Option Nat) : Machine := ⟨cpu, memory, .ofInput stdin room⟩
    let whole := runToHalt o k (start none)
    let limited := runToHalt o k (start (some n))
    let printed := (finalState whole).console.output
    (if printed.size ≤ n then
      Matches (fun m m' => m'.cpu = m.cpu ∧ m'.memory = m.memory ∧
        m'.console = m.console.withRoom (some (n - printed.size))) whole limited
    else
      ∃ e m', limited = .error e m' ∧ e.failure? = some .sinkFull ∧
        e.chain.getLast? = some "sink full" ∧ m'.console.output = printed.extract 0 n ∧
        CutOff o n (start none) (start (some n)) e m') ∧
      ∀ pieces : Display.Pieces o.window, Matches (Across Console.Agrees) limited
        (runToHaltVia (displayAll pieces) o k (start (some n))) := by
  intro start whole limited printed
  have fits : Across (Fits n) (start none) (start (some n)) :=
    ⟨rfl, rfl, rfl, Nat.zero_le n, rfl⟩
  have compared := runToHalt_limited (o := o) k fits
  refine ⟨?_, fun pieces => runToHalt_pieces o pieces k _⟩
  split
  · next short =>
    rcases compared with same | ⟨e, m', -, -, exceeds, -⟩
    · exact same.of_final fun m' fits => ⟨fits.cpu, fits.memory, fits.console.same⟩
    · exact absurd exceeds.size (Nat.not_lt.mpr short)
  · next long =>
    rcases compared with same | ⟨e, m', failed, blamed, exceeds, cut⟩
    · exact absurd same.final.console.size long
    · exact ⟨e, m', failed, blamed, e.chain_of_failure blamed, exceeds.output, cut⟩

/-- A machine that halts at once, over a sink that is full in the second piece of the banner. -/
theorem runToHalt_over_limit_banner :
    let start : Machine :=
      ⟨.startingAt Processor.defaultEntry, .zeroed, .ofInput .empty (some 7)⟩
    ∃ e m', runToHaltVia (displayAll (Display.entries 6)) {} 1 start = .error e m' ∧
      e.chain.getLast? = some "sink full" ∧ m'.console.output = "\x1b[31mCp".toUTF8 := by
  intro start
  obtain ⟨cut, piecewise⟩ := runToHalt_over_limit {} (.startingAt Processor.defaultEntry) .zeroed
    .empty 7 1
  have long : ¬ (finalState (runToHalt {} 1 ⟨.startingAt Processor.defaultEntry, .zeroed,
      .ofInput .empty none⟩)).console.output.size ≤ 7 := by decide +kernel
  rw [if_neg long] at cut
  obtain ⟨e, m', failed, -, last, output, -⟩ := cut
  obtain ⟨m'', failed', agrees⟩ := (piecewise (Display.entries 6)).of_error failed
  refine ⟨e, m'', failed', last, agrees.console.output.trans (output.trans ?_)⟩
  decide +kernel

end Machine

end ToyMachine
