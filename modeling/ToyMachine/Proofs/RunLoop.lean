import Mathlib.Logic.Function.Iterate
import ToyMachine.Proofs.Cycle
import ToyMachine.Proofs.Console.Transcript
import ToyMachine.Run

/-! The run loop is `step` again and again. Over a sink without limit a run that does not wait
for the operator ends where the bare calls of `step` end, halted or with the fault of the one
that failed, whatever it displays in between; the display goes to the output alone, behind what
the call before it has printed. -/

namespace ToyMachine

namespace Machine

def cleared (m : Machine) : Machine :=
  ⟨m.cpu, m.memory, m.console.cleared⟩

def steps : Nat → Action Fault Unit
  | 0 => pure ()
  | n + 1 => do
    step
    steps n

/-- The least number of calls that leave the machine halted. -/
structure HaltsAfter (n : Nat) (m m' : Machine) : Prop where
  calls : steps n m = .ok () m'
  halted : m'.cpu.halted = true
  first : ∀ k < n, ∀ m₁, steps k m = .ok () m₁ → m₁.cpu.halted = false

def FailsAfter (n : Nat) (m : Machine) (f : Fault) (m' : Machine) : Prop :=
  ∃ m₁, steps n m = .ok () m₁ ∧ step m₁ = .error f m'

def displayed (o : RunOptions) (m : Machine) : ByteArray :=
  if o.trace then (Display.cycle m.cpu m.memory o.window).toUTF8 else .empty

/-- What so many cycles show: each what its call of `step` prints by itself, and then, if that
went well, the display. -/
def shown (o : RunOptions) : Nat → Machine → ByteArray
  | 0, _ => .empty
  | n + 1, m =>
    match step m.cleared with
    | .ok _ next => next.console.output ++ displayed o next ++ shown o n next
    | .error _ failed => failed.console.output

section Calls

variable {n : Nat} {m m' : Machine} {f : Fault}

theorem steps_zero (h : steps 0 m = .ok () m') : m' = m := by
  cases h
  rfl

theorem steps_of_step {m₁ : Machine} (ran : step m = .ok () m₁) : steps (n + 1) m = steps n m₁ :=
  bind_of_ok ran

theorem HaltsAfter.running (h : HaltsAfter (n + 1) m m') : m.cpu.halted = false :=
  h.first 0 (Nat.succ_pos n) m rfl

theorem HaltsAfter.tail (h : HaltsAfter (n + 1) m m') :
    ∃ m₁, step m = .ok () m₁ ∧ HaltsAfter n m₁ m' := by
  obtain ⟨_, m₁, ran, calls⟩ := bind_ok h.calls
  refine ⟨m₁, ran, calls, h.halted, ?_⟩
  intro k less m₂ more
  refine h.first (k + 1) (Nat.succ_lt_succ less) m₂ ?_
  rw [steps_of_step ran, more]

theorem HaltsAfter.cons {m₁ : Machine} (running : m.cpu.halted = false) (ran : step m = .ok () m₁)
    (h : HaltsAfter n m₁ m') : HaltsAfter (n + 1) m m' := by
  refine ⟨(steps_of_step ran).trans h.calls, h.halted, ?_⟩
  intro k less m₂ more
  cases k with
  | zero =>
    obtain rfl := steps_zero more
    exact running
  | succ k =>
    rw [steps_of_step ran] at more
    exact h.first k (Nat.lt_of_succ_lt_succ less) m₂ more

theorem haltsAfter_zero (halted : m.cpu.halted = true) : HaltsAfter 0 m m :=
  ⟨rfl, halted, fun _ less => absurd less (Nat.not_lt_zero _)⟩

theorem FailsAfter.tail (h : FailsAfter (n + 1) m f m') :
    ∃ m₁, step m = .ok () m₁ ∧ FailsAfter n m₁ f m' := by
  obtain ⟨m₂, calls, failed⟩ := h
  obtain ⟨_, m₁, ran, more⟩ := bind_ok calls
  exact ⟨m₁, ran, m₂, more, failed⟩

theorem FailsAfter.cons {m₁ : Machine} (ran : step m = .ok () m₁) (h : FailsAfter n m₁ f m') :
    FailsAfter (n + 1) m f m' := by
  obtain ⟨m₂, calls, failed⟩ := h
  exact ⟨m₂, (steps_of_step ran).trans calls, failed⟩

theorem FailsAfter.running (h : FailsAfter n m f m') : m.cpu.halted = false := by
  cases halted : m.cpu.halted with
  | false => rfl
  | true =>
    -- A halted machine would stay as it is and never fail.
    have idle := step_of_halted halted
    induction n with
    | zero =>
      obtain ⟨m₁, calls, failed⟩ := h
      obtain rfl := steps_zero calls
      exact absurd (idle.symm.trans failed) (by simp)
    | succ n ih =>
      obtain ⟨m₁, ran, rest⟩ := h.tail
      obtain rfl : m₁ = m := by simpa using ran.symm.trans idle
      exact ih rest

end Calls

section Display

variable {o : RunOptions} {m r r' : Machine}

def withDisplay (half : Nat) (m : Machine) : Machine :=
  ⟨m.cpu, m.memory, m.console.emit (.printed (Display.cycle m.cpu m.memory half).toUTF8)⟩

theorem displayCycle_roomy (half : Nat) (m : Machine) (roomy : m.console.room = none) :
    displayCycle half m = .ok () (m.withDisplay half) :=
  onConsole_ok m.cpu m.memory (Console.print_roomy roomy _)

/-- The addresses of a window can all be read. -/
theorem read_window (memory : Memory) (w : Width) (centre : Address) (half : Nat)
    {address : Address} (below : address.toNat ≤ (Window.around w centre half).last) :
    ∃ v, memory.read w address = .ok v :=
  ⟨_, memory.read_eq (Nat.lt_of_le_of_lt below (Window.around w centre half).last_lt)⟩

theorem cycle_of_ok (unpaused : o.singleStep = false) (ran : step r = .ok () r')
    (roomy : r'.console.room = none) :
    ∃ r₁, cycle o r = .ok () r₁ ∧ r₁.cleared = r'.cleared ∧
      r₁.console.journal = r'.console.journal ∧
      r₁.console.output = r'.console.output ++ displayed o r' := by
  have stepped : mapFailure RunFailure.stopped step r = .ok () r' := by rw [mapFailure, ran]
  cases traced : o.trace with
  | false =>
    have ran' : cycle o r = .ok () r' := by
      rw [cycle, bind_of_ok stepped, traced, unpaused]
      rfl
    refine ⟨r', ran', rfl, rfl, ?_⟩
    rw [displayed, traced]
    exact ByteArray.append_empty.symm
  | true =>
    have shows : mapFailure RunFailure.display (displayCycle o.window) r' =
        .ok () (r'.withDisplay o.window) := by
      rw [mapFailure, displayCycle_roomy o.window r' roomy]
    have ran' : cycle o r = .ok () (r'.withDisplay o.window) := by
      rw [cycle, bind_of_ok stepped, traced, unpaused]
      exact bind_of_ok shows
    refine ⟨_, ran', rfl, ?_, ?_⟩
    · rw [withDisplay, Console.journal_emit]
      exact List.append_nil _
    · rw [withDisplay, Console.output_emit, displayed, traced]
      rfl

theorem cycle_of_error {f : Fault} (failed : step r = .error f r') :
    cycle o r = .error (.stopped f) r' := by
  have stepped : mapFailure RunFailure.stopped step r = .error (.stopped f) r' := by
    rw [mapFailure, failed]
  exact bind_of_error stepped

end Display

section Alike

/-- Machines that differ in what was printed only, and not even in that without the display. -/
structure Alike (o : RunOptions) (m r : Machine) : Prop where
  cleared : r.cleared = m.cleared
  journal : r.console.journal = m.console.journal
  roomy : m.console.room = none
  quiet : o.trace = false → r.console.output = m.console.output

variable {o : RunOptions} {m m₁ r : Machine}

theorem Alike.refl (o : RunOptions) (roomy : m.console.room = none) : Alike o m m :=
  ⟨rfl, rfl, roomy, fun _ => rfl⟩

theorem Alike.cpu (h : Alike o m r) : r.cpu = m.cpu := by
  have same := congrArg Machine.cpu h.cleared
  exact same

theorem Alike.roomy' (h : Alike o m r) : r.console.room = none := by
  have same := congrArg (fun m => m.console.room) h.cleared
  exact same.trans h.roomy

theorem step_cleared (roomy : m.console.room = none) :
    Matches (Across (Console.Follows m.console.output m.console.journal)) (step m.cleared)
      (step m) :=
  step_respects (Console.Follows.link _ _) m.cleared m ⟨rfl, rfl, Console.follows_cleared roomy⟩

theorem Across.cleared_eq {bytes : ByteArray} {notices : List Notice}
    (h : Across (Console.Follows bytes notices) m m₁) : m₁.cleared = m.cleared := by
  have room : m₁.console.room = m.console.room := h.console.roomy'.trans h.console.roomy.symm
  have console : m₁.console.cleared = m.console.cleared := by
    change Console.mk _ _ _ _ = Console.mk _ _ _ _
    rw [h.console.input, h.console.pending, room]
  rw [Machine.cleared, Machine.cleared, h.cpu, h.memory, console]

theorem Alike.of_across {next r₁ : Machine} (alike : Alike o m r)
    (h : Across (Console.Follows m.console.output m.console.journal) next m₁)
    (h' : Across (Console.Follows r.console.output r.console.journal) next r₁) :
    Alike o m₁ r₁ where
  cleared := h'.cleared_eq.trans h.cleared_eq.symm
  journal := by rw [h'.console.journal, h.console.journal, alike.journal]
  roomy := h.console.roomy'
  quiet off := by rw [h'.console.output, h.console.output, alike.quiet off]

theorem Alike.step_ok (alike : Alike o m r) (ran : step m = .ok () m₁) :
    ∃ next r₁, step m.cleared = .ok () next ∧ step r = .ok () r₁ ∧ Alike o m₁ r₁ ∧
      next.cleared = m₁.cleared ∧
      r₁.console.output = r.console.output ++ next.console.output := by
  obtain ⟨next, base, across⟩ := (step_cleared alike.roomy).flip.of_ok ran
  have other := step_cleared alike.roomy'
  rw [alike.cleared] at other
  obtain ⟨r₁, ran', across'⟩ := other.of_ok base
  exact ⟨next, r₁, base, ran', alike.of_across across across', across.cleared_eq.symm,
    across'.console.output⟩

theorem Alike.step_error {f : Fault} (alike : Alike o m r) (failed : step m = .error f m₁) :
    ∃ next r₁, step m.cleared = .error f next ∧ step r = .error f r₁ ∧ Alike o m₁ r₁ ∧
      r₁.console.output = r.console.output ++ next.console.output := by
  obtain ⟨next, base, across⟩ := (step_cleared alike.roomy).flip.of_error failed
  have other := step_cleared alike.roomy'
  rw [alike.cleared] at other
  obtain ⟨r₁, failed', across'⟩ := other.of_error base
  exact ⟨next, r₁, base, failed', alike.of_across across across', across'.console.output⟩

theorem displayed_congr {m' : Machine} (same : m.cleared = m'.cleared) :
    displayed o m = displayed o m' := by
  have cpu := congrArg Machine.cpu same
  have memory := congrArg Machine.memory same
  change m.cpu = m'.cpu at cpu
  change m.memory = m'.memory at memory
  rw [displayed, displayed, cpu, memory]

theorem shown_congr {m' : Machine} (same : m.cleared = m'.cleared) (n : Nat) :
    shown o n m = shown o n m' := by
  cases n with
  | zero => rfl
  | succ n => rw [shown, shown, same]

theorem Alike.cycle_ok (unpaused : o.singleStep = false) (alike : Alike o m r)
    (ran : step m = .ok () m₁) :
    ∃ r₁, cycle o r = .ok () r₁ ∧ Alike o m₁ r₁ ∧
      ∀ n, r₁.console.output ++ shown o n m₁ = r.console.output ++ shown o (n + 1) m := by
  obtain ⟨next, r', base, ran', alike', same, output⟩ := alike.step_ok ran
  obtain ⟨r₁, cycled, cleared, journal, displays⟩ := cycle_of_ok unpaused ran' alike'.roomy'
  refine ⟨r₁, cycled, ?_, ?_⟩
  · refine ⟨cleared.trans alike'.cleared, journal.trans alike'.journal, alike'.roomy, ?_⟩
    intro off
    have nothing : displayed o r' = .empty := by
      rw [displayed, off]
      rfl
    rw [displays, nothing, ByteArray.append_empty, alike'.quiet off]
  · intro n
    have display : displayed o r' = displayed o next :=
      displayed_congr (alike'.cleared.trans same.symm)
    rw [displays, output, display, shown, base, ← shown_congr same]
    simp only [ByteArray.append_assoc]

theorem Alike.cycle_error {f : Fault} (alike : Alike o m r) (failed : step m = .error f m₁) :
    ∃ r₁, cycle o r = .error (.stopped f) r₁ ∧ Alike o m₁ r₁ ∧
      ∀ n, r₁.console.output = r.console.output ++ shown o (n + 1) m := by
  obtain ⟨next, r₁, base, failed', alike', output⟩ := alike.step_error failed
  refine ⟨r₁, cycle_of_error failed', alike', ?_⟩
  intro n
  rw [output, shown, base]

end Alike

section Run

variable {o : RunOptions} {m m' r r' : Machine} {k : Nat}

theorem run_of_halted (halted : r.cpu.halted = true) (k : Nat) : run o k r = .ok true r := by
  cases k with
  | zero => rw [run, cpuHas_eq, halted]
  | succ k =>
    rw [run, bind_of_ok (cpuHas_eq _ _), halted]
    rfl

theorem run_zero (running : r.cpu.halted = false) : run o 0 r = .ok false r := by
  rw [run, cpuHas_eq, running]

theorem run_succ (running : r.cpu.halted = false) (k : Nat) :
    run o (k + 1) r = (cycle o >>= fun _ => run o k) r := by
  rw [run, bind_of_ok (cpuHas_eq _ _), running]
  rfl

theorem run_mono {result : EStateM.Result RunFailure Machine Bool} (ended : run o k r = result)
    (settled : ∀ r', result ≠ .ok false r') (more : Nat) : run o (k + more) r = result := by
  induction k generalizing r with
  | zero =>
    cases halted : r.cpu.halted with
    | true => rw [← ended, run_of_halted halted, run_of_halted halted]
    | false => exact absurd ((run_zero halted).symm.trans ended) (settled r).symm
  | succ k ih =>
    cases halted : r.cpu.halted with
    | true => rw [← ended, run_of_halted halted, run_of_halted halted]
    | false =>
      rw [run_succ halted] at ended
      rw [Nat.add_right_comm, run_succ halted]
      cases cycled : cycle o r with
      | ok u r₁ =>
        rw [bind_of_ok cycled] at ended ⊢
        exact ih ended
      | error e r₁ =>
        rw [bind_of_error cycled] at ended ⊢
        exact ended

theorem run_of_haltsAfter (unpaused : o.singleStep = false) {n : Nat} (alike : Alike o m r)
    (halts : HaltsAfter n m m') :
    ∃ r', run o n r = .ok true r' ∧ Alike o m' r' ∧
      r'.console.output = r.console.output ++ shown o n m := by
  induction n generalizing m r with
  | zero =>
    obtain rfl := steps_zero halts.calls
    refine ⟨r, run_of_halted (alike.cpu ▸ halts.halted) 0, alike, ?_⟩
    exact ByteArray.append_empty.symm
  | succ n ih =>
    obtain ⟨m₁, ran, rest⟩ := halts.tail
    obtain ⟨r₁, cycled, alike₁, output⟩ := alike.cycle_ok unpaused ran
    obtain ⟨r', ended, alike', output'⟩ := ih alike₁ rest
    refine ⟨r', ?_, alike', ?_⟩
    · rw [run_succ (alike.cpu ▸ halts.running), bind_of_ok cycled, ended]
    · rw [output', output]

theorem run_of_failsAfter (unpaused : o.singleStep = false) {n : Nat} {f : Fault}
    (alike : Alike o m r) (fails : FailsAfter n m f m') :
    ∃ r', run o (n + 1) r = .error (.stopped f) r' ∧ Alike o m' r' ∧
      r'.console.output = r.console.output ++ shown o (n + 1) m := by
  induction n generalizing m r with
  | zero =>
    have running := fails.running
    obtain ⟨m₁, calls, failed⟩ := fails
    obtain rfl := steps_zero calls
    obtain ⟨r', cycled, alike', output⟩ := alike.cycle_error failed
    refine ⟨r', ?_, alike', output 0⟩
    rw [run_succ (alike.cpu ▸ running), bind_of_error cycled]
  | succ n ih =>
    obtain ⟨m₁, ran, rest⟩ := fails.tail
    obtain ⟨r₁, cycled, alike₁, output⟩ := alike.cycle_ok unpaused ran
    obtain ⟨r', ended, alike', output'⟩ := ih alike₁ rest
    refine ⟨r', ?_, alike', ?_⟩
    · rw [run_succ (alike.cpu ▸ fails.running), bind_of_ok cycled, ended]
    · rw [output', output]

theorem run_sound (unpaused : o.singleStep = false) (alike : Alike o m r) :
    (run o k r = .ok true r' → ∃ n m', HaltsAfter n m m') ∧
      ∀ e, run o k r = .error e r' → ∃ n f m', FailsAfter n m f m' := by
  induction k generalizing m r with
  | zero =>
    cases halted : r.cpu.halted with
    | true =>
      rw [run_of_halted halted]
      exact ⟨fun _ => ⟨0, m, haltsAfter_zero (alike.cpu ▸ halted)⟩, by simp⟩
    | false => simp [run_zero halted]
  | succ k ih =>
    cases halted : r.cpu.halted with
    | true =>
      rw [run_of_halted halted]
      exact ⟨fun _ => ⟨0, m, haltsAfter_zero (alike.cpu ▸ halted)⟩, by simp⟩
    | false =>
      rw [run_succ halted]
      cases ran : step m with
      | ok u m₁ =>
        obtain ⟨r₁, cycled, alike₁, -⟩ := alike.cycle_ok unpaused ran
        rw [bind_of_ok cycled]
        obtain ⟨halts, fails⟩ := ih alike₁
        constructor
        · intro ended
          obtain ⟨n, m', rest⟩ := halts ended
          exact ⟨n + 1, m', rest.cons (alike.cpu ▸ halted) ran⟩
        · intro e ended
          obtain ⟨n, f, m', rest⟩ := fails e ended
          exact ⟨n + 1, f, m', rest.cons ran⟩
      | error f m₁ =>
        obtain ⟨r₁, cycled, -⟩ := alike.cycle_error ran
        rw [bind_of_error cycled]
        exact ⟨by simp, fun _ _ => ⟨0, f, m₁, m, rfl, ran⟩⟩

def withEnd (m : Machine) : Machine :=
  ⟨m.cpu, m.memory, m.console.emit (.noted (.terminated m.cpu.pc))⟩

theorem output_withEnd (m : Machine) : m.withEnd.console.output = m.console.output := by
  rw [withEnd, Console.output_emit]
  exact ByteArray.append_empty

theorem runToHalt_ok (ended : run o k m = .ok true r) : runToHalt o k m = .ok true r.withEnd := by
  rw [runToHalt, bind_of_ok ended]
  rfl

theorem runToHalt_error {e : RunFailure} (ended : run o k m = .error e r) :
    runToHalt o k m = .error e r :=
  bind_of_error ended

theorem runToHalt_of_halted (halted : r.cpu.halted = true) (k : Nat) :
    runToHalt o k r = .ok true r.withEnd :=
  runToHalt_ok (run_of_halted halted k)

theorem runToHalt_zero (running : r.cpu.halted = false) : runToHalt o 0 r = .ok false r := by
  rw [runToHalt, bind_of_ok (run_zero running)]
  rfl

theorem runToHalt_succ (running : r.cpu.halted = false) (k : Nat) :
    runToHalt o (k + 1) r = (cycle o >>= fun _ => runToHalt o k) r := by
  have first := run_succ (o := o) running k
  have rest (next : Bool → Action RunFailure Bool) :
      (run o (k + 1) >>= next) r = (cycle o >>= fun _ => run o k >>= next) r := by
    rw [← bind_assoc]
    simp only [bind, EStateM.bind] at first ⊢
    rw [first]
  exact rest _

theorem run_of_runToHalt :
    (runToHalt o k m = .ok true r → ∃ r', run o k m = .ok true r') ∧
      ∀ e, runToHalt o k m = .error e r → run o k m = .error e r := by
  cases ended : run o k m with
  | ok halted r' =>
    cases halted with
    | true => simp [runToHalt_ok ended]
    | false =>
      have still : runToHalt o k m = .ok false r' := by
        rw [runToHalt, bind_of_ok ended]
        rfl
      simp [still]
  | error e r' => simp [runToHalt_error ended]

theorem runToHalt_mono (settled : ∀ r, runToHalt o k m ≠ .ok false r) (more : Nat) :
    runToHalt o (k + more) m = runToHalt o k m := by
  have common : run o (k + more) m = run o k m := by
    refine run_mono rfl (fun r still => settled r ?_) more
    rw [runToHalt, bind_of_ok still]
    rfl
  rw [runToHalt, runToHalt]
  simp only [bind, EStateM.bind, common]

end Run

section Ends

variable {o : RunOptions} (unpaused : o.singleStep = false) {m m' r : Machine}
  (roomy : m.console.room = none) {n k : Nat}

include unpaused roomy

theorem runToHalt_of_haltsAfter (halts : HaltsAfter n m m')
    (ended : runToHalt o k m = .ok true r) :
    r.cleared = m'.cleared ∧
      r.console.journal = m'.console.journal ++ [.terminated m'.cpu.pc] ∧
      r.console.output = m.console.output ++ shown o n m ∧
      (o.trace = false → r.console.output = m'.console.output) := by
  obtain ⟨r', ran, alike, output⟩ := run_of_haltsAfter unpaused (.refl o roomy) halts
  obtain ⟨r'', ran'⟩ := run_of_runToHalt.1 ended
  -- With the cycles of both, the two runs are one.
  have common := run_mono ran (by simp) k
  rw [Nat.add_comm, run_mono ran' (by simp) n] at common
  obtain rfl : r'' = r' := by simpa using common
  obtain rfl : r''.withEnd = r := by simpa using (runToHalt_ok ran').symm.trans ended
  have silent := output_withEnd r''
  refine ⟨alike.cleared, ?_, silent.trans output, fun off => silent.trans (alike.quiet off)⟩
  rw [withEnd, Console.journal_emit, alike.journal, alike.cpu]
  rfl

theorem runToHalt_of_failsAfter {f : Fault} {e : RunFailure} (fails : FailsAfter n m f m')
    (ended : runToHalt o k m = .error e r) :
    e = .stopped f ∧ r.cleared = m'.cleared ∧ r.console.journal = m'.console.journal ∧
      r.console.output = m.console.output ++ shown o (n + 1) m ∧
      (o.trace = false → r.console.output = m'.console.output) := by
  obtain ⟨r', ran, alike, output⟩ := run_of_failsAfter unpaused (.refl o roomy) fails
  have ran' := run_of_runToHalt.2 e ended
  have common := run_mono ran (by simp) k
  rw [Nat.add_comm, run_mono ran' (by simp) (n + 1)] at common
  obtain ⟨rfl, rfl⟩ : e = .stopped f ∧ r = r' := by simpa using common
  exact ⟨rfl, alike.cleared, alike.journal, output, alike.quiet⟩

end Ends

/-- The run loop is iterated `step`. It ends well exactly if some least number of calls leaves
the machine halted, and with a failure exactly if one of them fails. Then the processor, the
memory, the lines and words that are left and the fault are those after the calls, and so are
the notices, but that the end of a run is reported. It shows what the calls print, each with the
display behind it if that is asked for; and the display can always be printed. -/
theorem runToHalt_iterates_step {o : RunOptions} (unpaused : o.singleStep = false) {m : Machine}
    (roomy : m.console.room = none) :
    ((∃ cycles r, runToHalt o cycles m = .ok true r) ↔ ∃ n m', HaltsAfter n m m') ∧
    ((∃ cycles e r, runToHalt o cycles m = .error e r) ↔ ∃ n f m', FailsAfter n m f m') ∧
    (∀ n m' cycles r, HaltsAfter n m m' → runToHalt o cycles m = .ok true r →
      r.cleared = m'.cleared ∧
      r.console.journal = m'.console.journal ++ [.terminated m'.cpu.pc] ∧
      r.console.output = m.console.output ++ shown o n m ∧
      (o.trace = false → r.console.output = m'.console.output)) ∧
    (∀ n f m' cycles e r, FailsAfter n m f m' → runToHalt o cycles m = .error e r →
      e = .stopped f ∧ r.cleared = m'.cleared ∧
      r.console.journal = m'.console.journal ∧
      r.console.output = m.console.output ++ shown o (n + 1) m ∧
      (o.trace = false → r.console.output = m'.console.output)) ∧
    (∀ half (r : Machine), r.console.room = none →
      displayCycle half r = .ok () (r.withDisplay half)) ∧
    ∀ (memory : Memory) w centre half (address : Address),
      address.toNat ≤ (Window.around w centre half).last → ∃ v, memory.read w address = .ok v := by
  have self := Alike.refl o roomy
  refine ⟨⟨?_, ?_⟩, ⟨?_, ?_⟩, ?_, ?_, displayCycle_roomy, ?_⟩
  · rintro ⟨cycles, r, ended⟩
    obtain ⟨r', ran⟩ := run_of_runToHalt.1 ended
    exact (run_sound unpaused self).1 ran
  · rintro ⟨n, m', halts⟩
    obtain ⟨r, ran, -⟩ := run_of_haltsAfter unpaused self halts
    exact ⟨n, _, runToHalt_ok ran⟩
  · rintro ⟨cycles, e, r, ended⟩
    exact (run_sound unpaused self).2 e (run_of_runToHalt.2 e ended)
  · rintro ⟨n, f, m', fails⟩
    obtain ⟨r, ran, -⟩ := run_of_failsAfter unpaused self fails
    exact ⟨n + 1, _, r, runToHalt_error ran⟩
  · intro n m' cycles r halts ended
    exact runToHalt_of_haltsAfter unpaused roomy halts ended
  · intro n f m' cycles e r fails ended
    exact runToHalt_of_failsAfter unpaused roomy fails ended
  · intro memory w centre half address below
    exact read_window memory w centre half below

section Attempts

variable {m : Machine} {n : Nat}

theorem haltsAfter_of_attempts
    (goes : ∀ k < n, (attempt^[k] m).fault? = none ∧ (attempt^[k] m).cpu.halted = false)
    (halted : (attempt^[n] m).cpu.halted = true) : HaltsAfter n m (attempt^[n] m) := by
  induction n generalizing m with
  | zero => exact haltsAfter_zero halted
  | succ n ih =>
    obtain ⟨ran, running⟩ := goes 0 (Nat.succ_pos n)
    have later := fun k (less : k < n) => goes (k + 1) (Nat.succ_lt_succ less)
    exact (ih later halted).cons running (step_of_fault?_none ran)

theorem failsAfter_of_attempts {f : Fault} (goes : ∀ k < n, (attempt^[k] m).fault? = none)
    (fails : (attempt^[n] m).fault? = some f) :
    FailsAfter n m f (attempt^[n + 1] m) := by
  induction n generalizing m with
  | zero => exact ⟨m, rfl, step_of_fault?_some fails⟩
  | succ n ih =>
    have later := fun k (less : k < n) => goes (k + 1) (Nat.succ_lt_succ less)
    exact (ih later fails).cons (step_of_fault?_none (goes 0 (Nat.succ_pos n)))

/-- A machine that shows a word and changes the width, and then finds this in a cell. -/
def showing (word : Word) : Machine :=
  let program := Memory.holding [(0x10, 0x7B05), (0x11, 0x9BFF), (0x12, 0x0FFF)]
  ⟨.startingAt Processor.defaultEntry, program.set .wide (0x12 : Address).toFin word,
    ⟨[], [], none, #[]⟩⟩

/-- The cell halts the machine or is refused. -/
theorem runToHalt_showing :
    (∃ cycles m' r, HaltsAfter 4 (showing 0) m' ∧
      runToHalt {} cycles (showing 0) = .ok true r ∧ r.cleared = m'.cleared ∧
      r.console.journal = m'.console.journal ++ [.terminated m'.cpu.pc] ∧
      r.console.output = (showing 0).console.output ++ shown {} 4 (showing 0)) ∧
    ∃ cycles f m' r, FailsAfter 3 (showing 0xF0000000) f m' ∧
      f = ⟨.invalidOpcode 0xF 0xF0000000, .wide, 0x12⟩ ∧
      runToHalt { trace := false } cycles (showing 0xF0000000) = .error (.stopped f) r ∧
      r.cleared = m'.cleared ∧ r.console.journal = m'.console.journal ∧
      r.console.output = "output: 0005(5)\n\n".toUTF8 := by
  constructor
  · have loop := runToHalt_iterates_step (o := {}) rfl (rfl : (showing 0).console.room = none)
    have halts : HaltsAfter 4 (showing 0) (attempt^[4] (showing 0)) :=
      haltsAfter_of_attempts (by decide +kernel) (by decide +kernel)
    obtain ⟨cycles, r, ended⟩ := loop.1.mpr ⟨4, _, halts⟩
    obtain ⟨same, journal, output, -⟩ := loop.2.2.1 4 _ cycles r halts ended
    exact ⟨cycles, _, r, halts, ended, same, journal, output⟩
  · have loop := runToHalt_iterates_step (o := { trace := false }) rfl
      (rfl : (showing 0xF0000000).console.room = none)
    have fails : FailsAfter 3 (showing 0xF0000000) ⟨.invalidOpcode 0xF 0xF0000000, .wide, 0x12⟩
        (attempt^[4] (showing 0xF0000000)) :=
      failsAfter_of_attempts (by decide +kernel) (by decide +kernel)
    obtain ⟨cycles, e, r, ended⟩ := loop.2.1.mpr ⟨3, _, _, fails⟩
    obtain ⟨rfl, same, journal, -, output⟩ := loop.2.2.2.1 3 _ _ cycles e r fails ended
    refine ⟨cycles, _, _, r, fails, rfl, ended, same, journal, (output rfl).trans ?_⟩
    decide +kernel

end Attempts

section Zeroed

def blank : Machine :=
  ⟨.startingAt Processor.defaultEntry, .zeroed, ⟨[], [], none, #[]⟩⟩

theorem haltsAfter_blank : ∃ m', HaltsAfter 1 blank m' :=
  ⟨_, haltsAfter_of_attempts (by decide +kernel) (by decide +kernel)⟩

/-- The bare calls do not report the end of the run. -/
theorem runToHalt_adds_notice :
    ∃ cycles m' r, HaltsAfter 1 blank m' ∧ runToHalt { trace := false } cycles blank = .ok true r ∧
      r.console.journal ≠ m'.console.journal := by
  have roomy : blank.console.room = none := rfl
  have unpaused : ({ trace := false } : RunOptions).singleStep = false := rfl
  obtain ⟨m', halts⟩ := haltsAfter_blank
  obtain ⟨r, ran, -⟩ := run_of_haltsAfter unpaused (.refl _ roomy) halts
  have ended := runToHalt_ok ran
  obtain ⟨-, journal, -⟩ := runToHalt_of_haltsAfter unpaused roomy halts ended
  refine ⟨1, m', r.withEnd, halts, ended, ?_⟩
  rw [journal]
  simp

end Zeroed

end Machine

end ToyMachine
