import ToyMachine.Proofs.RunLoop

/-! Rounds: one call of `step` after another, each with the pause behind it that the operator has
asked for. They are what is left of the run loop without the display and without a look at
whether the machine has halted. A run halts if some number of rounds leaves the machine halted,
and fails if a round does in which the machine was still running. What is displayed has no part
in this, for it can always be printed and nothing comes back from it. -/

namespace ToyMachine

def RunOptions.untraced (o : RunOptions) : RunOptions :=
  { o with trace := false }

namespace Machine

open Console (Abreast)

variable {α ε ε' : Type}

def pause (pausing : Bool) : Action RunFailure Unit :=
  if pausing then mapFailure .waiting (onConsole Console.wait) else pure ()

def round (pausing : Bool) : Action RunFailure Unit := do
  mapFailure .stopped step
  pause pausing

def rounds (pausing : Bool) : Nat → Action RunFailure Unit
  | 0 => pure ()
  | n + 1 => do
    round pausing
    rounds pausing n

theorem mapFailure_ok {f : ε → ε'} {act : Action ε α} {m m' : Machine} {a : α}
    (ran : act m = .ok a m') : mapFailure f act m = .ok a m' := by
  rw [mapFailure, ran]

section Respects

variable {S : Machine → Machine → Prop} {R : Console → Console → Prop}

theorem matches_mapFailure {act act' : Action ε α} {m r : Machine} (f : ε → ε')
    (same : Matches S (act m) (act' r)) :
    Matches S (mapFailure f act m) (mapFailure f act' r) := by
  rw [mapFailure, mapFailure]
  generalize act m = result at same
  generalize act' r = result' at same
  cases same with
  | ok a related => exact .ok a related
  | error e related => exact .error (f e) related

theorem matches_onConsole {act act' : Console.Action α} {m r : Machine} (cpu : r.cpu = m.cpu)
    (memory : r.memory = m.memory) (same : Matches R (act m.console) (act' r.console)) :
    Matches (Across R) (onConsole act m) (onConsole act' r) := by
  obtain ⟨_, _, c⟩ := m
  obtain ⟨_, _, c'⟩ := r
  obtain rfl := cpu
  obtain rfl := memory
  change Matches R (act c) (act' c') at same
  rw [onConsole, onConsole]
  generalize act c = result at same
  generalize act' c' = result' at same
  cases same with
  | ok a related => exact .ok a ⟨rfl, rfl, related⟩
  | error e related => exact .error e ⟨rfl, rfl, related⟩

theorem onConsole_respects {act : Console.Action α} (respects : Respects R act) :
    Respects (Across R) (onConsole act) :=
  fun _ _ across => matches_onConsole across.cpu across.memory (respects _ _ across.console)

variable (link : Console.Link R) (wait : Respects R Console.wait)

include wait

theorem pause_respects (pausing : Bool) : Respects (Across R) (pause pausing) := by
  cases pausing with
  | false => exact respects_pure ()
  | true => exact fun m r related => matches_mapFailure _ (onConsole_respects wait m r related)

include link

theorem round_respects (pausing : Bool) : Respects (Across R) (round pausing) := by
  have calls : Respects (Across R) (mapFailure RunFailure.stopped step) :=
    fun m r related => matches_mapFailure _ (step_respects link m r related)
  exact calls.bind fun _ => pause_respects wait pausing

theorem rounds_respects (pausing : Bool) (n : Nat) : Respects (Across R) (rounds pausing n) := by
  induction n with
  | zero => exact respects_pure ()
  | succ n ih => exact (round_respects link wait pausing).bind fun _ => ih

end Respects

section Displays

variable {o o' : RunOptions} {m m₁ r r₁ : Machine}

theorem across_abreast (same : r.cleared = m.cleared) (roomy : m.console.room = none) :
    Across Abreast m r := by
  have cpu := congrArg Machine.cpu same
  have memory := congrArg Machine.memory same
  have console := congrArg Machine.console same
  exact ⟨cpu, memory, console, roomy⟩

theorem room_eq_of_cleared (same : r.cleared = m.cleared) : r.console.room = m.console.room := by
  have console := congrArg (fun m => m.console.room) same
  exact console

theorem Across.cleared_of_abreast (h : Across Abreast m r) : r.cleared = m.cleared := by
  rw [cleared, cleared, h.cpu, h.memory, h.console.cleared]

def displaying (o : RunOptions) : Action Console.Failure Unit :=
  if o.trace then displayCycle o.window else pure ()

theorem displaying_roomy (o : RunOptions) (roomy : m.console.room = none) :
    ∃ m₁, displaying o m = .ok () m₁ ∧ m₁.cleared = m.cleared ∧ (o.trace = false → m₁ = m) := by
  cases traced : o.trace with
  | false =>
    refine ⟨m, ?_, rfl, fun _ => rfl⟩
    rw [displaying, traced]
    rfl
  | true =>
    refine ⟨m.withDisplay o.window, ?_, rfl, nofun⟩
    rw [displaying, traced]
    exact displayCycle_roomy o.window m roomy

theorem cycle_eq_displaying (o : RunOptions) : cycle o = (do
    mapFailure .stopped step
    mapFailure .display (displaying o)
    pause o.singleStep) := by
  have silent : mapFailure RunFailure.display (pure ()) = (pure () : Action RunFailure Unit) := rfl
  cases traced : o.trace <;> cases stepping : o.singleStep <;>
    simp [cycle, displaying, pause, traced, stepping, silent]

theorem cycle_abreast (pauses : o'.singleStep = o.singleStep) (abreast : Across Abreast m r) :
    Matches (Across Abreast) (cycle o m) (cycle o' r) := by
  rw [cycle_eq_displaying, cycle_eq_displaying, pauses]
  refine (matches_mapFailure _ (step_respects Abreast.link m r abreast)).bind ?_
  intro _ m₁ r₁ abreast₁
  obtain ⟨m₂, shows, same, -⟩ := displaying_roomy o abreast₁.console.roomy
  obtain ⟨r₂, shows', same', -⟩ := displaying_roomy o' abreast₁.console.roomy'
  have cleared : r₂.cleared = m₂.cleared := by rw [same, same', abreast₁.cleared_of_abreast]
  have roomy : m₂.console.room = none := (room_eq_of_cleared same).trans abreast₁.console.roomy
  rw [bind_of_ok (mapFailure_ok shows), bind_of_ok (mapFailure_ok shows')]
  exact pause_respects Abreast.wait _ m₂ r₂ (across_abreast cleared roomy)

theorem runToHalt_abreast_of_halted (halted : m.cpu.halted = true) (k : Nat)
    (abreast : Across Abreast m r) :
    Matches (Across Abreast) (runToHalt o k m) (runToHalt o' k r) := by
  rw [runToHalt_of_halted halted, runToHalt_of_halted (abreast.cpu ▸ halted)]
  exact .ok true (across_abreast abreast.cleared_of_abreast abreast.console.roomy)

theorem runToHalt_abreast (pauses : o'.singleStep = o.singleStep) (k : Nat)
    (abreast : Across Abreast m r) :
    Matches (Across Abreast) (runToHalt o k m) (runToHalt o' k r) := by
  induction k generalizing m r with
  | zero =>
    cases halted : m.cpu.halted with
    | true => exact runToHalt_abreast_of_halted halted 0 abreast
    | false =>
      rw [runToHalt_zero halted, runToHalt_zero (abreast.cpu ▸ halted)]
      exact .ok false abreast
  | succ k ih =>
    cases halted : m.cpu.halted with
    | true => exact runToHalt_abreast_of_halted halted (k + 1) abreast
    | false =>
      rw [runToHalt_succ halted, runToHalt_succ (abreast.cpu ▸ halted)]
      exact (cycle_abreast pauses abreast).bind fun _ _ _ => ih

end Displays

section Calls

variable {pausing : Bool} {n : Nat} {m m' : Machine}

theorem rounds_zero (h : rounds pausing 0 m = .ok () m') : m' = m := by
  cases h
  rfl

theorem rounds_of_round {m₁ : Machine} (ran : round pausing m = .ok () m₁) :
    rounds pausing (n + 1) m = rounds pausing n m₁ :=
  bind_of_ok ran

theorem pause_frame (pausing : Bool) (m : Machine) :
    (finalState (pause pausing m)).cpu = m.cpu ∧
      (finalState (pause pausing m)).console.output = m.console.output := by
  obtain ⟨cpu, memory, input, pending, room, transcript⟩ := m
  cases pausing with
  | false => exact ⟨rfl, rfl⟩
  | true =>
    rw [pause, if_pos rfl, mapFailure, onConsole]
    cases input with
    | nil => exact ⟨rfl, rfl⟩
    | cons line lines =>
      rw [Console.wait]
      cases Console.decode? line <;> exact ⟨rfl, rfl⟩

theorem round_of_halted (halted : m.cpu.halted = true) : round pausing m = pause pausing m :=
  bind_of_ok (mapFailure_ok (step_of_halted halted))

theorem rounds_of_halted (halted : m.cpu.halted = true) (n : Nat) :
    (finalState (rounds pausing n m)).cpu = m.cpu ∧
      (finalState (rounds pausing n m)).console.output = m.console.output := by
  induction n generalizing m with
  | zero => exact ⟨rfl, rfl⟩
  | succ n ih =>
    obtain ⟨cpu, output⟩ := pause_frame pausing m
    rw [← round_of_halted halted] at cpu output
    cases ran : round pausing m with
    | ok u m₁ =>
      rw [ran] at cpu output
      obtain ⟨cpu', output'⟩ := ih (m := m₁) (cpu ▸ halted)
      rw [rounds_of_round ran]
      exact ⟨cpu'.trans cpu, output'.trans output⟩
    | error e m₁ =>
      rw [ran] at cpu output
      rw [rounds, bind_of_error ran]
      exact ⟨cpu, output⟩

theorem running_of_rounds {m₁ : Machine} (ran : rounds pausing n m = .ok () m₁)
    (running : m₁.cpu.halted = false) : m.cpu.halted = false := by
  cases halted : m.cpu.halted with
  | false => rfl
  | true =>
    have kept : (finalState (rounds pausing n m)).cpu = m.cpu := (rounds_of_halted halted n).1
    rw [ran] at kept
    change m₁.cpu = m.cpu at kept
    rw [kept, halted] at running
    exact running

theorem running_of_fails {o : RunOptions} {k : Nat} {e : RunFailure}
    (ended : runToHalt o k m = .error e m') : m.cpu.halted = false := by
  cases halted : m.cpu.halted with
  | false => rfl
  | true =>
    rw [runToHalt_of_halted halted] at ended
    exact absurd ended (by simp)

end Calls

section Untraced

variable {o : RunOptions} (untraced : o.trace = false) {k n : Nat} {m m' : Machine}

include untraced

theorem cycle_untraced : cycle o = round o.singleStep := by
  rw [cycle_eq_displaying, displaying, untraced]
  rfl

theorem runToHalt_succ_untraced (running : m.cpu.halted = false) (k : Nat) :
    runToHalt o (k + 1) m = (round o.singleStep >>= fun _ => runToHalt o k) m := by
  rw [runToHalt_succ running, cycle_untraced untraced]

theorem rounds_of_halts (ended : runToHalt o k m = .ok true m') :
    ∃ n m₁, rounds o.singleStep n m = .ok () m₁ ∧ m₁.cpu.halted = true := by
  induction k generalizing m with
  | zero =>
    cases halted : m.cpu.halted with
    | true => exact ⟨0, m, rfl, halted⟩
    | false =>
      rw [runToHalt_zero halted] at ended
      exact absurd ended (by simp)
  | succ k ih =>
    cases halted : m.cpu.halted with
    | true => exact ⟨0, m, rfl, halted⟩
    | false =>
      rw [runToHalt_succ_untraced untraced halted] at ended
      obtain ⟨_, m₁, ran, rest⟩ := bind_ok ended
      obtain ⟨n, m₂, more, halts⟩ := ih rest
      exact ⟨n + 1, m₂, (rounds_of_round ran).trans more, halts⟩

theorem halts_of_rounds (ran : rounds o.singleStep n m = .ok () m')
    (halts : m'.cpu.halted = true) : ∃ r, runToHalt o n m = .ok true r := by
  induction n generalizing m with
  | zero =>
    obtain rfl := rounds_zero ran
    exact ⟨_, runToHalt_of_halted halts 0⟩
  | succ n ih =>
    cases halted : m.cpu.halted with
    | true =>
      -- A run stops here, whatever the other rounds do.
      exact ⟨_, runToHalt_of_halted halted _⟩
    | false =>
      obtain ⟨_, m₁, first, rest⟩ := bind_ok ran
      obtain ⟨r, ended⟩ := ih rest
      refine ⟨r, ?_⟩
      rw [runToHalt_succ_untraced untraced halted, bind_of_ok first, ended]

theorem rounds_of_fails {e : RunFailure} (ended : runToHalt o k m = .error e m') :
    ∃ n m₁, rounds o.singleStep n m = .ok () m₁ ∧ m₁.cpu.halted = false ∧
      round o.singleStep m₁ = .error e m' := by
  have running := running_of_fails ended
  induction k generalizing m with
  | zero =>
    rw [runToHalt_zero running] at ended
    exact absurd ended (by simp)
  | succ k ih =>
    rw [runToHalt_succ_untraced untraced running] at ended
    obtain failed | ⟨_, m₁, ran, rest⟩ := bind_error ended
    · exact ⟨0, m, rfl, running, failed⟩
    · obtain ⟨n, m₂, more, running', failed⟩ := ih rest (running_of_fails rest)
      exact ⟨n + 1, m₂, (rounds_of_round ran).trans more, running', failed⟩

theorem fails_of_rounds {m₁ : Machine} {e : RunFailure}
    (ran : rounds o.singleStep n m = .ok () m₁) (running : m₁.cpu.halted = false)
    (failed : round o.singleStep m₁ = .error e m') : runToHalt o (n + 1) m = .error e m' := by
  have before := running_of_rounds ran running
  induction n generalizing m with
  | zero =>
    obtain rfl := rounds_zero ran
    rw [runToHalt_succ_untraced untraced before, bind_of_error failed]
  | succ n ih =>
    obtain ⟨_, m₂, first, rest⟩ := bind_ok ran
    rw [runToHalt_succ_untraced untraced before, bind_of_ok first]
    exact ih rest (running_of_rounds rest running)

/-- Without the display a run prints what its calls of `step` print. -/
theorem output_runToHalt (k : Nat) :
    (finalState (runToHalt o k m)).console.output =
      (finalState (rounds o.singleStep k m)).console.output := by
  induction k generalizing m with
  | zero =>
    cases halted : m.cpu.halted with
    | true =>
      rw [runToHalt_of_halted halted]
      exact output_withEnd m
    | false =>
      rw [runToHalt_zero halted]
      rfl
  | succ k ih =>
    cases halted : m.cpu.halted with
    | true =>
      rw [runToHalt_of_halted halted, (rounds_of_halted halted _).2]
      exact output_withEnd m
    | false =>
      rw [runToHalt_succ_untraced untraced halted, rounds]
      cases ran : round o.singleStep m with
      | ok u m₁ =>
        rw [bind_of_ok ran, bind_of_ok ran]
        exact ih
      | error e m₁ =>
        rw [bind_of_error ran, bind_of_error ran]
        rfl

end Untraced

section Ends

variable {o : RunOptions} {m r : Machine} (abreast : Across Abreast m r)

include abreast

theorem runToHalt_untraced (k : Nat) :
    Matches (Across Abreast) (runToHalt o.untraced k m) (runToHalt o k r) := by
  have pauses : o.singleStep = o.untraced.singleStep := rfl
  exact runToHalt_abreast pauses k abreast

theorem halts_iff_rounds :
    (∃ k r', runToHalt o k r = .ok true r') ↔
      ∃ n m', rounds o.singleStep n m = .ok () m' ∧ m'.cpu.halted = true := by
  constructor
  · rintro ⟨k, r', ended⟩
    obtain ⟨m', ended', -⟩ := (runToHalt_untraced abreast k).flip.of_ok ended
    exact rounds_of_halts (o := o.untraced) rfl ended'
  · rintro ⟨n, m', ran, halts⟩
    obtain ⟨m₁, ended⟩ := halts_of_rounds (o := o.untraced) rfl ran halts
    obtain ⟨r', ended', -⟩ := (runToHalt_untraced abreast n).of_ok ended
    exact ⟨n, r', ended'⟩

theorem fails_iff_rounds :
    (∃ k e r', runToHalt o k r = .error e r') ↔
      ∃ n m₁ e m', rounds o.singleStep n m = .ok () m₁ ∧ m₁.cpu.halted = false ∧
        round o.singleStep m₁ = .error e m' := by
  constructor
  · rintro ⟨k, e, r', ended⟩
    obtain ⟨m', ended', -⟩ := (runToHalt_untraced abreast k).flip.of_error ended
    obtain ⟨n, m₁, ran, running, failed⟩ := rounds_of_fails (o := o.untraced) rfl ended'
    exact ⟨n, m₁, e, m', ran, running, failed⟩
  · rintro ⟨n, m₁, e, m', ran, running, failed⟩
    have ended := fails_of_rounds (o := o.untraced) rfl ran running failed
    obtain ⟨r', ended', -⟩ := (runToHalt_untraced abreast (n + 1)).of_error ended
    exact ⟨n + 1, e, r', ended'⟩

end Ends

end Machine

end ToyMachine
