import ToyMachine.Proofs.Dialogue

/-! Relations that actions respect. From related states an action that respects a relation
gives the same answer, or fails in the same way, and leaves related states. An instruction
respects any relation between machines that what it is made of respects. The machine comes to
its console in three ways only: it reports, prints, and takes a token. So a whole cycle respects
every relation between consoles that these three respect, with the same processor and the same
memory on both sides. -/

namespace ToyMachine

variable {σ ε α β : Type}

def finalState : EStateM.Result ε σ α → σ
  | .ok _ s => s
  | .error _ s => s

/-- The same outcome, with states that are related. -/
inductive Matches (S : σ → σ → Prop) :
    EStateM.Result ε σ α → EStateM.Result ε σ α → Prop where
  | ok (a : α) {s s' : σ} (related : S s s') : Matches S (.ok a s) (.ok a s')
  | error (e : ε) {s s' : σ} (related : S s s') : Matches S (.error e s) (.error e s')

def Respects (S : σ → σ → Prop) (act : EStateM ε σ α) : Prop :=
  ∀ s s', S s s' → Matches S (act s) (act s')

section Matches

variable {S : σ → σ → Prop} {r r' : EStateM.Result ε σ α} {s : σ}

theorem Matches.of_ok (h : Matches S r r') {a : α} (ran : r = .ok a s) :
    ∃ s', r' = .ok a s' ∧ S s s' := by
  cases h with
  | ok _ related =>
    cases ran
    exact ⟨_, rfl, related⟩
  | error => simp at ran

theorem Matches.of_error (h : Matches S r r') {e : ε} (failed : r = .error e s) :
    ∃ s', r' = .error e s' ∧ S s s' := by
  cases h with
  | ok => simp at failed
  | error _ related =>
    cases failed
    exact ⟨_, rfl, related⟩

theorem Matches.flip (h : Matches S r r') : Matches (flip S) r' r := by
  cases h with
  | ok a related => exact .ok a related
  | error e related => exact .error e related

theorem Matches.mono {T : σ → σ → Prop} (h : Matches S r r')
    (weaker : ∀ s s', S s s' → T s s') : Matches T r r' := by
  cases h with
  | ok a related => exact .ok a (weaker _ _ related)
  | error e related => exact .error e (weaker _ _ related)

theorem Matches.final (h : Matches S r r') : S (finalState r) (finalState r') := by
  cases h with
  | ok _ related | error _ related => exact related

theorem Matches.of_final {T : σ → σ → Prop} (h : Matches S r r')
    (weaker : ∀ s', S (finalState r) s' → T (finalState r) s') : Matches T r r' := by
  cases h with
  | ok a related => exact .ok a (weaker _ related)
  | error e related => exact .error e (weaker _ related)

theorem respects_pure (a : α) : Respects S (pure a : EStateM ε σ α) :=
  fun _ _ related => .ok a related

theorem Matches.bind {act act' : EStateM ε σ α} {next next' : α → EStateM ε σ β} {s s' : σ}
    (first : Matches S (act s) (act' s'))
    (rest : ∀ a s s', S s s' → Matches S (next a s) (next' a s')) :
    Matches S ((act >>= next) s) ((act' >>= next') s') := by
  change Matches S (EStateM.bind act next s) (EStateM.bind act' next' s')
  rw [EStateM.bind, EStateM.bind]
  generalize act s = r at first
  generalize act' s' = r' at first
  cases first with
  | ok a related => exact rest a _ _ related
  | error e related => exact .error e related

theorem Respects.bind {act : EStateM ε σ α} {next : α → EStateM ε σ β} (first : Respects S act)
    (rest : ∀ a, Respects S (next a)) : Respects S (act >>= next) :=
  fun s s' related => (first s s' related).bind rest

end Matches

namespace Console

structure Link (R : Console → Console → Prop) : Prop where
  note : ∀ n, Respects R (Console.note n)
  print : ∀ text, Respects R (Console.print text)
  nextToken : Respects R Console.nextToken

theorem Link.emit {R : Console → Console → Prop} (link : Link R) (n : Notice) {c c' : Console}
    (related : R c c') : R (c.emit (.noted n)) (c'.emit (.noted n)) := by
  cases link.note n c c' related with
  | ok _ noted => exact noted

theorem askFrom_eq (w : Width) : askFrom w = (do
    print promptText
    match ← nextToken with
    | none => throw .inputClosed
    | some token =>
      match w.readToken token with
      | some v => pure v
      | none =>
        note (.discarded w token)
        askFrom w : Action Word) := by
  funext c
  rw [askFrom]
  simp only [bind, EStateM.bind]
  split
  · next printed => rw [printed]
  · next printed =>
    rw [printed]
    dsimp only
    split
    · next taken => rw [taken]
    · next taken =>
      rw [taken]
      rfl
    · next token _ taken =>
      rw [taken]
      dsimp only
      cases w.readToken token <;> rfl

theorem Link.ask {R : Console → Console → Prop} (link : Link R) (w : Width) :
    Respects R (ask w) := by
  intro c c' related
  change Matches R (askFrom w c) (askFrom w c')
  -- Both consoles go through the same rounds; the tokens to come of the first one decrease.
  induction fuel : c.remaining.length using Nat.strongRecOn generalizing c c' with
  | ind n ih =>
    rw [askFrom_eq]
    simp only [bind, EStateM.bind]
    have prompted := link.print promptText c c' related
    cases printed : Console.print promptText c with
    | error e c₁ =>
      obtain ⟨c₁', printed', related⟩ := prompted.of_error printed
      rw [printed']
      exact .error e related
    | ok u c₁ =>
      obtain ⟨c₁', printed', related⟩ := prompted.of_ok printed
      rw [printed']
      dsimp only
      have answered := link.nextToken c₁ c₁' related
      cases taken : Console.nextToken c₁ with
      | error e c₂ =>
        obtain ⟨c₂', taken', related⟩ := answered.of_error taken
        rw [taken']
        exact .error e related
      | ok token c₂ =>
        obtain ⟨c₂', taken', related⟩ := answered.of_ok taken
        rw [taken']
        cases token with
        | none => exact .error _ related
        | some token =>
          dsimp only
          cases w.readToken token with
          | some v => exact .ok v related
          | none =>
            have noted := link.emit (.discarded w token) related
            have fewer : (c₂.emit (.noted (.discarded w token))).remaining.length < n := by
              rw [← fuel, ← remaining_print printed, remaining_nextToken taken]
              exact Nat.lt_succ_self _
            exact ih _ fewer _ _ noted rfl

end Console

namespace Machine

section Instructions

variable {S : Machine → Machine → Prop}

structure Sharing (S : Machine → Machine → Prop) : Prop where
  cpu : ∀ m m', S m m' → m'.cpu = m.cpu
  note : ∀ n, Respects S (note n : Action Fault Unit)

structure Updating (S : Machine → Machine → Prop) : Prop extends Sharing S where
  update : ∀ f : Processor → Processor, Respects S (onCpu f : Action Fault Unit)

structure Accessing (S : Machine → Machine → Prop) : Prop extends Sharing S where
  update : ∀ f : Processor → Processor, (∀ cpu, (f cpu).width = cpu.width) →
    Respects S (onCpu f : Action Fault Unit)
  readMemory : ∀ address, Respects S (readMemory address)
  writeMemory : ∀ address v, Respects S (writeMemory address v)

theorem respects_cpuHas (same : ∀ m m', S m m' → m'.cpu = m.cpu) (f : Processor → α) :
    Respects S (cpuHas f : Action ε α) := by
  intro m m' related
  rw [cpuHas, cpuHas, same m m' related]
  exact .ok _ related

theorem respects_fail (same : ∀ m m', S m m' → m'.cpu = m.cpu) (cause : Fault.Cause) :
    Respects S (fail cause : Action Fault α) := by
  intro m m' related
  rw [fail, fail, same m m' related]
  exact .error _ related

theorem respects_faulting (same : ∀ m m', S m m' → m'.cpu = m.cpu)
    {act : Action Console.Failure α} (respects : Respects S act) : Respects S (faulting act) := by
  intro m m' related
  have done := respects m m' related
  rw [faulting, faulting]
  generalize act m = r at done
  generalize act m' = r' at done
  cases done with
  | ok a related => exact .ok a related
  | error e related =>
    dsimp only
    rw [same _ _ related]
    exact .error _ related

theorem Sharing.composes (sharing : Sharing S) : Composes fun _ act => Respects S act where
  pure := respects_pure
  bind := Respects.bind
  cpuHas := respects_cpuHas sharing.cpu
  fail := respects_fail sharing.cpu
  note := sharing.note

theorem execute_halt_respects (updating : Updating S) {i : Instruction} (code : i.opcode = .halt) :
    Respects S (execute i) := by
  have halts : ComposesHalts fun _ act => Respects S act :=
    { updating.toSharing.composes with update := updating.update }
  exact halts.execute code

theorem execute_other_respects (accessing : Accessing S) {i : Instruction}
    (other : i.opcode ≠ .halt) : Respects S (execute i) := by
  have others : ComposesOthers fun _ act => Respects S act :=
    { accessing.toSharing.composes with
      update := accessing.update
      readMemory := accessing.readMemory
      writeMemory := accessing.writeMemory }
  exact others.execute other

end Instructions

/-- Machines that are the same but for their consoles, which are related. -/
structure Across (R : Console → Console → Prop) (m m' : Machine) : Prop where
  cpu : m'.cpu = m.cpu
  memory : m'.memory = m.memory
  console : R m.console m'.console

end Machine

open Machine

section Across

variable {R : Console → Console → Prop} (link : Console.Link R)
  {cause : ε → Option Console.Failure}

include link

theorem Console.Link.call (call : Console.Call) : Respects R call.action := by
  cases call with
  | print text => exact link.print text
  | ask w => exact link.ask w

theorem Dialogue.respects (d : Dialogue cause α) {c c' : Console} (related : R c c') :
    Matches (Across R) (d.run c) (d.run c') := by
  induction d generalizing c c' with
  | ended outcome cpu memory =>
    cases outcome with
    | ok a => exact .ok a ⟨rfl, rfl, related⟩
    | error e => exact .error e ⟨rfl, rfl, related⟩
  | noted n d ih => exact ih (link.emit n related)
  | called call cpu memory fault blames d ih =>
    have replied := link.call call c c' related
    rw [run, run]
    generalize call.action c = r at replied
    generalize call.action c' = r' at replied
    cases replied with
    | ok reply related => exact ih reply related
    | error failure related => exact .error _ ⟨rfl, rfl, related⟩

theorem Speaks.respects {act : Action ε α} (speaks : Speaks cause act) :
    Respects (Across R) act := by
  rintro ⟨_, _, c⟩ ⟨cpu, memory, c'⟩ ⟨rfl, rfl, related⟩
  obtain ⟨d, same⟩ := speaks cpu memory
  rw [same, same]
  exact d.respects link related

theorem Machine.step_respects : Respects (Across R) step :=
  step_speaks.respects link

end Across

end ToyMachine
