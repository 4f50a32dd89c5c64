import ToyMachine.Proofs.Console.Room
import ToyMachine.Proofs.Console.Typed

/-! What is done at a console depends on the lines that it takes and on no others. From these
lines alone, or with other lines behind them, it goes the same way. An action that has met the end
of the input has taken every line there was, so it meets the end of these lines at the same
place. -/

namespace ToyMachine

variable {ε σ α : Type}

namespace Console

def withInput (lines : List (List UInt8)) : Console → Console
  | ⟨_, pending, room, transcript⟩ => ⟨lines, pending, room, transcript⟩

/-- From the lines alone the outcome is the same, and none is left; and one that is not a
failure is the same with any lines behind, which are left. -/
def Replays (put : List (List UInt8) → σ → σ) (act : Console → EStateM.Result ε σ α) (c : Console)
    (lines : List (List UInt8)) : EStateM.Result ε σ α → Prop
  | .ok a s => ∀ rest, act (c.withInput (lines ++ rest)) = .ok a (put rest s)
  | .error e s => act (c.withInput lines) = .error e (put [] s)

theorem Replays.after {put : List (List UInt8) → σ → σ}
    {act next : Console → EStateM.Result ε σ α} {c c' : Console} {lines more : List (List UInt8)}
    {r : EStateM.Result ε σ α} (h : Replays put next c' more r)
    (goes_on : ∀ rest, act (c.withInput (lines ++ rest)) = next (c'.withInput rest)) :
    Replays put act c (lines ++ more) r := by
  cases r with
  | ok a s =>
    intro rest
    rw [List.append_assoc, goes_on]
    exact h rest
  | error e s => exact (goes_on more).trans h

inductive Asks : Console → List Served → Console → Prop where
  | done (c : Console) : Asks c [] c
  | emitted {c c' : Console} {calls : List Served} (e : Emission) :
      Asks (c.emit e) calls c' → Asks c calls c'
  | asked {c c₁ c' : Console} {call : Served} {calls : List Served}
      (served : serve .token c = (call, c₁)) : Asks c₁ calls c' → Asks c (call :: calls) c'

section Asks

variable {c c₁ c' : Console} {calls more : List Served}

theorem Asks.trans (first : Asks c calls c₁) (rest : Asks c₁ more c') :
    Asks c (calls ++ more) c' := by
  induction first with
  | done => exact rest
  | emitted e _ ih => exact .emitted e (ih rest)
  | asked served _ ih => exact .asked served (ih rest)

theorem Asks.input (h : Asks c calls c') : calls.flatMap Served.lines ++ c'.input = c.input := by
  induction h with
  | done => rfl
  | emitted e _ ih => exact ih
  | @asked c _ _ _ _ served _ ih =>
    have taken := serve_input .token c
    rw [served] at taken
    rw [List.flatMap_cons, List.append_assoc, ih]
    exact taken

theorem Fetch.room {lines : List (List UInt8)} {answer : Except Failure (Option String)}
    (h : Fetch c lines answer c') : c'.room = c.room := by
  cases h <;> rfl

theorem Asks.room (h : Asks c calls c') : c'.room = c.room := by
  induction h with
  | done => rfl
  | emitted e _ ih => exact ih
  | @asked c c₁ _ _ _ served _ ih =>
    obtain ⟨lines, answer, c₂, fetch, eq⟩ := serve_token c
    obtain rfl : c₁ = c₂ := by
      rw [served, Prod.mk.injEq] at eq
      exact eq.2
    exact ih.trans fetch.room

theorem Asks.requests (h : Asks c calls c') : ∀ call ∈ calls, call.request = .token := by
  induction h with
  | done => exact nofun
  | emitted e _ ih => exact ih
  | @asked c _ _ _ _ served _ ih =>
    have request := serve_request .token c
    rw [served] at request
    exact List.forall_mem_cons.mpr ⟨request, ih⟩

end Asks

section Fetching

theorem takeToken_of_wordless (room : Option Nat) (transcript : Array Emission)
    {blanks : List (List UInt8)} (wordless : ∀ line ∈ blanks, Wordless line)
    (lines : List (List UInt8)) :
    takeToken room transcript (blanks ++ lines) = takeToken room transcript lines := by
  induction blanks with
  | nil => rfl
  | cons line blanks ih =>
    rw [List.forall_mem_cons] at wordless
    obtain ⟨text, decoded⟩ := Option.isSome_iff_exists.mp wordless.1.1
    have none : wordsOf text = [] := by
      have tokens := wordless.1.2
      rwa [tokensOf, decoded] at tokens
    rw [List.cons_append, takeToken, decoded]
    dsimp only
    rw [none]
    exact ih wordless.2

variable {c c' : Console} {lines : List (List UInt8)} {answer : Except Failure (Option String)}

theorem Fetch.nextToken_eq (h : Fetch c lines answer c') : nextToken c = result answer c' := by
  cases h with
  | waiting => rfl
  | exhausted room transcript wordless =>
    have all := takeToken_of_wordless room transcript wordless []
    rw [List.append_nil] at all
    exact all
  | refused blanks lines room transcript wordless undecoded =>
    rw [nextToken, takeToken_of_wordless room transcript wordless, takeToken, undecoded]
    rfl
  | typed blanks lines room transcript wordless decoded words =>
    obtain ⟨text, decoded⟩ := Option.isSome_iff_exists.mp decoded
    rw [tokensOf, decoded] at words
    rw [nextToken, takeToken_of_wordless room transcript wordless, takeToken, decoded]
    dsimp only at words ⊢
    rw [words]
    rfl

theorem Fetch.alone (h : Fetch c lines answer c') :
    Fetch (c.withInput lines) lines answer (c'.withInput []) := by
  cases h with
  | waiting input token tokens room transcript => exact .waiting [] token tokens room transcript
  | exhausted room transcript wordless => exact .exhausted room transcript wordless
  | refused blanks lines room transcript wordless undecoded =>
    exact .refused blanks [] room transcript wordless undecoded
  | typed blanks lines room transcript wordless decoded words =>
    exact .typed blanks [] room transcript wordless decoded words

theorem Fetch.before {token : String} (h : Fetch c lines (.ok (some token)) c')
    (rest : List (List UInt8)) :
    Fetch (c.withInput (lines ++ rest)) lines (.ok (some token)) (c'.withInput rest) := by
  cases h with
  | waiting input token tokens room transcript => exact .waiting rest token tokens room transcript
  | typed blanks lines room transcript wordless decoded words =>
    have fetch := Fetch.typed blanks rest room transcript wordless decoded words
    rw [withInput, List.append_assoc]
    exact fetch

end Fetching

section Asking

variable {c : Console} (w : Width)

def answered (w : Width) :
    EStateM.Result Failure Console (Option String) → EStateM.Result Failure Console Word
  | .error e c => .error e c
  | .ok none c => .error .inputClosed c
  | .ok (some token) c =>
    match w.readToken token with
    | some v => .ok v c
    | none => ask w (c.emit (.noted (.discarded w token)))

theorem ask_roomy (roomy : c.room = none) :
    ask w c = answered w (nextToken (c.emit (.printed promptText.toUTF8))) := by
  change askFrom w c = _
  rw [askFrom_eq]
  simp only [bind, EStateM.bind, print_roomy roomy]
  cases nextToken (c.emit (.printed promptText.toUTF8)) with
  | error e c₂ => rfl
  | ok token c₂ =>
    cases token with
    | none => rfl
    | some token =>
      dsimp only [answered]
      cases w.readToken token <;> rfl

theorem reads_ask (roomy : c.room = none) :
    ∃ calls, Asks c calls (finalState (ask w c)) ∧
      Replays withInput (ask w) c (calls.flatMap Served.lines) (ask w c) := by
  -- Every round that refuses a token leaves one fewer to come.
  induction fuel : c.remaining.length using Nat.strongRecOn generalizing c with
  | ind n ih =>
    obtain ⟨lines, answer, c₂, fetch, taken⟩ :=
      fetch_nextToken (c.emit (.printed promptText.toUTF8))
    have served : serve .token (c.emit (.printed promptText.toUTF8)) =
        (⟨.token, lines, answer⟩, c₂) := serve_of_action taken fetch.input
    have asks : Asks c [⟨.token, lines, answer⟩] c₂ := .emitted _ (.asked served (.done c₂))
    have only : [(⟨.token, lines, answer⟩ : Served)].flatMap Served.lines = lines :=
      List.flatMap_singleton _ _
    have round := ask_roomy w roomy
    have replay (input : List (List UInt8)) : ask w (c.withInput input) =
        answered w (nextToken ((c.emit (.printed promptText.toUTF8)).withInput input)) :=
      ask_roomy w roomy
    rw [taken] at round
    match answer with
    | .error e =>
      rw [round]
      refine ⟨_, asks, ?_⟩
      rw [only]
      exact (replay lines).trans (congrArg (answered w) fetch.alone.nextToken_eq)
    | .ok none =>
      rw [round]
      refine ⟨_, asks, ?_⟩
      rw [only]
      exact (replay lines).trans (congrArg (answered w) fetch.alone.nextToken_eq)
    | .ok (some token) =>
      have again (rest : List (List UInt8)) : ask w (c.withInput (lines ++ rest)) =
          answered w (.ok (some token) (c₂.withInput rest)) :=
        (replay _).trans (congrArg (answered w) (fetch.before rest).nextToken_eq)
      cases read : w.readToken token with
      | some v =>
        have word (c : Console) : answered w (.ok (some token) c) = .ok v c := by
          rw [answered, read]
        have given : ask w c = .ok v c₂ := round.trans (word c₂)
        rw [given]
        refine ⟨_, asks, fun rest => ?_⟩
        rw [only]
        exact (again rest).trans (word _)
      | none =>
        have refused (c : Console) : answered w (.ok (some token) c) =
            ask w (c.emit (.noted (.discarded w token))) := by
          rw [answered, read]
        have next : ask w c = ask w (c₂.emit (.noted (.discarded w token))) :=
          round.trans (refused c₂)
        have fewer : (c₂.emit (.noted (.discarded w token))).remaining.length < n := by
          rw [← fuel, ← remaining_emit (.printed promptText.toUTF8) c, remaining_nextToken taken]
          exact Nat.lt_succ_self _
        have noted : (c₂.emit (.noted (.discarded w token))).room = none :=
          (fetch.grows roomy).roomy
        obtain ⟨calls, rest, replays⟩ := ih _ fewer noted rfl
        rw [next]
        refine ⟨_, asks.trans (.emitted _ rest), ?_⟩
        rw [List.flatMap_append, only]
        exact replays.after fun rest => (again rest).trans (refused _)

end Asking

theorem Call.reads (call : Call) {c : Console} (roomy : c.room = none) :
    ∃ calls, Asks c calls (finalState (call.action c)) ∧
      Replays withInput call.action c (calls.flatMap Served.lines) (call.action c) := by
  cases call with
  | print text =>
    have printed (c : Console) (roomy : c.room = none) :
        (Call.print text).action c = .ok () (c.emit (.printed text.toUTF8)) :=
      print_roomy roomy text
    rw [printed c roomy]
    refine ⟨[], .emitted _ (.done _), fun rest => ?_⟩
    exact printed (c.withInput rest) roomy
  | ask w => exact reads_ask w roomy

end Console

open Machine

def Machine.withInput (lines : List (List UInt8)) (m : Machine) : Machine :=
  ⟨m.cpu, m.memory, m.console.withInput lines⟩

open Console (Asks Replays Served)

variable {cause : ε → Option Console.Failure}

theorem Dialogue.reads (d : Dialogue cause α) {c : Console} (roomy : c.room = none) :
    ∃ calls, Asks c calls (finalState (d.run c)).console ∧
      Replays Machine.withInput d.run c (calls.flatMap Served.lines) (d.run c) := by
  induction d generalizing c with
  | ended outcome cpu memory =>
    cases outcome with
    | ok a => exact ⟨[], .done c, fun rest => rfl⟩
    | error e => exact ⟨[], .done c, rfl⟩
  | noted n d ih =>
    have roomy' : (c.emit (.noted n)).room = none := roomy
    obtain ⟨calls, asks, replays⟩ := ih roomy'
    have same (rest : List (List UInt8)) : (noted n d).run (c.withInput ([] ++ rest)) =
        d.run ((c.emit (.noted n)).withInput rest) := rfl
    exact ⟨calls, .emitted _ asks, replays.after same⟩
  | called call cpu memory fault blames d ih =>
    obtain ⟨calls, asks, replays⟩ := call.reads roomy
    have grown := call.grows roomy
    cases replied : call.action c with
    | ok reply c₁ =>
      rw [replied] at asks replays grown
      have next : (called call cpu memory fault blames d).run c = (d reply).run c₁ := by
        rw [run, replied]
      have goes_on (rest : List (List UInt8)) : (called call cpu memory fault blames d).run
          (c.withInput (calls.flatMap Served.lines ++ rest)) =
            (d reply).run (c₁.withInput rest) := by
        rw [run, replays rest]
      obtain ⟨more, later, replays'⟩ := ih reply grown.roomy
      rw [next]
      refine ⟨_, asks.trans later, ?_⟩
      rw [List.flatMap_append]
      exact replays'.after goes_on
    | error failure c₁ =>
      rw [replied] at asks replays
      have last : (called call cpu memory fault blames d).run c =
          .error (fault failure) ⟨cpu, memory, c₁⟩ := by rw [run, replied]
      have alone : call.action (c.withInput (calls.flatMap Served.lines)) =
          .error failure (c₁.withInput []) := replays
      rw [last]
      refine ⟨calls, asks, ?_⟩
      rw [Replays, run, alone]
      rfl

theorem Speaks.reads {act : Action ε α} (speaks : Speaks cause act) (cpu : Processor)
    (memory : Memory) {c : Console} (roomy : c.room = none) :
    ∃ calls, Asks c calls (finalState (act ⟨cpu, memory, c⟩)).console ∧
      Replays Machine.withInput (fun c => act ⟨cpu, memory, c⟩) c (calls.flatMap Served.lines)
        (act ⟨cpu, memory, c⟩) := by
  obtain ⟨d, same⟩ := speaks cpu memory
  obtain ⟨calls, asks, replays⟩ := d.reads roomy
  have run : (fun c => act ⟨cpu, memory, c⟩) = d.run := funext same
  rw [run, same]
  exact ⟨calls, asks, replays⟩

end ToyMachine
