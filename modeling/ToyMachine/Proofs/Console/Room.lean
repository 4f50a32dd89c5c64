import ToyMachine.Proofs.Console.Input
import ToyMachine.Proofs.Console.Transcript

/-! A sink of limited room beside one without a limit. As long as the output fits, both
consoles take the same words and print the same texts. The first text that does not fit fails
over the limited one and leaves there as much of the output as fits; over the other one the
output only grows from then on, so what was left stays the front of it. -/

namespace ToyMachine

variable {ε σ α : Type}

/-- The same outcome with related states, or a failure of the second action alone that keeps
what the states have in common. -/
inductive Limited (S T : σ → σ → Prop) (full : ε → Prop) :
    EStateM.Result ε σ α → EStateM.Result ε σ α → Prop where
  | same {r r' : EStateM.Result ε σ α} (lockstep : Matches S r r') : Limited S T full r r'
  | cut {r : EStateM.Result ε σ α} {e : ε} {s' : σ} (blamed : full e)
      (kept : T (finalState r) s') : Limited S T full r (.error e s')

theorem Limited.of_ok {S T : σ → σ → Prop} {full : ε → Prop} {r : EStateM.Result ε σ α} {a : α}
    {s' : σ} (h : Limited S T full r (.ok a s')) : ∃ s, r = .ok a s ∧ S s s' := by
  cases h with
  | same lockstep =>
    cases lockstep with
    | ok _ related => exact ⟨_, rfl, related⟩

namespace Console

def withRoom (room : Option Nat) : Console → Console
  | ⟨input, pending, _, transcript⟩ => ⟨input, pending, room, transcript⟩

/-- The second console is the first one over a sink that accepts `n` bytes in all, and it has
accepted the output so far. -/
structure Fits (n : Nat) (c c' : Console) : Prop where
  roomy : c.room = none
  size : c.output.size ≤ n
  same : c' = c.withRoom (some (n - c.output.size))

/-- The first console has printed more than the second accepts, which has printed the front
of it. -/
structure Exceeds (n : Nat) (c c' : Console) : Prop where
  size : n < c.output.size
  output : c'.output = c.output.extract 0 n

/-- Over a sink without limit the second console has printed what the first has, and more. -/
structure Grows (c c' : Console) : Prop where
  roomy : c'.room = none
  output : ∃ bytes, c'.output = c.output ++ bytes

section Grows

variable {c c₁ c₂ c' : Console} {n : Nat}

theorem Grows.trans (first : Grows c c₁) (second : Grows c₁ c₂) : Grows c c₂ := by
  obtain ⟨bytes, output⟩ := first.output
  obtain ⟨bytes', output'⟩ := second.output
  exact ⟨second.roomy, bytes ++ bytes', by rw [output', output, ByteArray.append_assoc]⟩

theorem grows_of_same (roomy : c.room = none) (room : c'.room = c.room)
    (transcript : c'.transcript = c.transcript) : Grows c c' := by
  refine ⟨room.trans roomy, .empty, ?_⟩
  rw [output_congr transcript, ByteArray.append_empty]

theorem grows_emit (roomy : c.room = none) (e : Emission) : Grows c (c.emit e) :=
  ⟨roomy, e.bytes, output_emit c e⟩

theorem Exceeds.grows (exceeds : Exceeds n c c') (grows : Grows c c₁) : Exceeds n c₁ c' := by
  obtain ⟨bytes, output⟩ := grows.output
  have size := exceeds.size
  refine ⟨?_, ?_⟩
  · rw [output, ByteArray.size_append]
    omega
  · rw [exceeds.output, output, ByteArray.extract_append, Nat.zero_sub, Nat.sub_eq_zero_of_le
      (Nat.le_of_lt size), ByteArray.extract_same, ByteArray.append_empty]

theorem Fetch.grows {lines : List (List UInt8)} {answer : Except Failure (Option String)}
    (fetch : Fetch c lines answer c') (roomy : c.room = none) : Grows c c' := by
  cases fetch with
  | waiting | exhausted | refused | typed => exact grows_of_same roomy rfl rfl

theorem grows_nextToken (roomy : c.room = none) : Grows c (finalState (nextToken c)) := by
  obtain ⟨lines, answer, c', fetch, eq⟩ := fetch_nextToken c
  rw [eq]
  cases answer <;> exact fetch.grows roomy

theorem grows_wait (roomy : c.room = none) : Grows c (finalState (wait c)) := by
  obtain ⟨input, pending, room, transcript⟩ := c
  cases input with
  | nil => exact grows_of_same roomy rfl rfl
  | cons line lines =>
    rw [wait]
    split <;> exact grows_of_same roomy rfl rfl

theorem grows_prompted {prompted : Console} (roomy : c.room = none)
    (hPrint : print promptText c = .ok () prompted) :
    prompted = c.emit (.printed promptText.toUTF8) ∧
      Grows (c.emit (.printed promptText.toUTF8)) (finalState (nextToken prompted)) := by
  rw [print_roomy roomy, EStateM.Result.ok.injEq] at hPrint
  obtain ⟨-, rfl⟩ := hPrint
  exact ⟨rfl, grows_nextToken roomy⟩

/-- All rounds of asking start with a prompt, which over a sink without limit is printed. -/
theorem grows_askFrom (w : Width) (roomy : c.room = none) :
    Grows (c.emit (.printed promptText.toUTF8)) (finalState (askFrom w c)) := by
  fun_induction askFrom w c with
  | case1 c e c₁ hPrint => simp [print_roomy roomy] at hPrint
  | case2 c u prompted hPrint e c₁ hTake =>
    have taken := (grows_prompted roomy hPrint).2
    rwa [hTake] at taken
  | case3 c u prompted hPrint c₁ hTake =>
    have taken := (grows_prompted roomy hPrint).2
    rwa [hTake] at taken
  | case4 c u prompted hPrint token taken hTake v hRead =>
    have taken := (grows_prompted roomy hPrint).2
    rwa [hTake] at taken
  | case5 c u prompted hPrint token taken hTake hRead _ ih =>
    have first := (grows_prompted roomy hPrint).2
    rw [hTake] at first
    have noted := first.trans (grows_emit first.roomy (.noted (.discarded w token)))
    exact (noted.trans (grows_emit noted.roomy _)).trans (ih noted.roomy)

end Grows

section Fits

variable {n : Nat} {c c' : Console}

theorem Fits.note (h : Fits n c c') (notice : Notice) :
    Fits n (c.emit (.noted notice)) (c'.emit (.noted notice)) := by
  obtain ⟨roomy, size, rfl⟩ := h
  have silent : (c.emit (.noted notice)).output = c.output := (Noted.single c notice).output_eq
  exact ⟨roomy, by rw [silent]; exact size, by rw [silent]; rfl⟩

theorem Fits.print (h : Fits n c c') (text : String) :
    Limited (Fits n) (Exceeds n) (· = .sinkFull) (print text c) (print text c') := by
  obtain ⟨input, pending, room, transcript⟩ := c
  obtain ⟨rfl, size, rfl⟩ := h
  let bytes := text.toUTF8
  let before : Console := ⟨input, pending, none, transcript⟩
  have whole : (before.emit (.printed bytes)).output = before.output ++ bytes := output_emit _ _
  have total : (before.emit (.printed bytes)).output.size = before.output.size + bytes.size := by
    rw [whole, ByteArray.size_append]
  rw [Console.print, withRoom]
  by_cases fits : bytes.size ≤ n - before.output.size
  · refine .same ?_
    rw [printBytes, printBytes, if_pos fits]
    have room : before.output.size ≤ n := size
    refine .ok () ⟨rfl, ?_, ?_⟩
    · change (before.emit (.printed bytes)).output.size ≤ n
      omega
    · change _ = Console.mk input pending (some (n - (before.emit (.printed bytes)).output.size)) _
      rw [total, Nat.sub_add_eq]
  · rw [printBytes, printBytes, if_neg fits]
    refine .cut rfl ⟨?_, ?_⟩
    · change n < (before.emit (.printed bytes)).output.size
      omega
    · -- Of the last text the bytes that there was room for have been printed.
      let room := n - before.output.size
      let limited : Console := ⟨input, pending, some 0, transcript⟩
      have front : (limited.emit (.printed (bytes.extract 0 room))).output =
          before.output ++ bytes.extract 0 room := output_emit _ _
      have all : before.output.extract 0 n = before.output := by
        rw [← Nat.max_eq_left size, ByteArray.extract_zero_max_size]
      change (limited.emit (.printed (bytes.extract 0 room))).output =
        (before.emit (.printed bytes)).output.extract 0 n
      rw [front, whole, ByteArray.extract_append, all, Nat.zero_sub]

theorem withRoom_eq_iff {room : Option Nat} : c' = c.withRoom room ↔
    c'.input = c.input ∧ c'.pending = c.pending ∧ c'.room = room ∧
      c'.transcript = c.transcript := by
  obtain ⟨input, pending, _, transcript⟩ := c
  obtain ⟨input', pending', room', transcript'⟩ := c'
  simp only [withRoom, Console.mk.injEq]

theorem Fits.taken (h : Fits n c c') {d d' : Console} (taken : Taken c c' d d') : Fits n d d' := by
  have printed : d.output = c.output := output_congr taken.transcript
  obtain ⟨-, -, room, transcript⟩ := withRoom_eq_iff.mp h.same
  refine ⟨taken.room.trans h.roomy, printed ▸ h.size, withRoom_eq_iff.mpr ⟨taken.input,
    taken.pending, ?_, ?_⟩⟩
  · rw [taken.room', room, printed]
  · rw [taken.transcript', transcript, taken.transcript]

theorem Fits.nextToken (h : Fits n c c') : Matches (Fits n) (nextToken c) (nextToken c') := by
  obtain ⟨input, pending, -⟩ := withRoom_eq_iff.mp h.same
  exact (taken_nextToken input pending).mono fun _ _ => h.taken

theorem Fits.wait (h : Fits n c c') : Matches (Fits n) (wait c) (wait c') := by
  obtain ⟨input, pending, -⟩ := withRoom_eq_iff.mp h.same
  exact (taken_wait input pending).mono fun _ _ => h.taken

theorem Fits.ask (h : Fits n c c') (w : Width) :
    Limited (Fits n) (Exceeds n) (· = .sinkFull) (ask w c) (ask w c') := by
  change Limited _ _ _ (askFrom w c) (askFrom w c')
  -- The rounds go in lockstep up to a prompt that does not fit.
  induction fuel : c.remaining.length using Nat.strongRecOn generalizing c c' with
  | ind k ih =>
    have grows := grows_askFrom w h.roomy
    have prompted := h.print promptText
    have shown := print_roomy h.roomy promptText
    rw [shown] at prompted
    cases printed : Console.print promptText c' with
    | error e c₁' =>
      rw [printed] at prompted
      have failed : askFrom w c' = .error e c₁' := by
        rw [askFrom_eq]
        simp only [bind, EStateM.bind, printed]
      cases prompted with
      | same lockstep => cases lockstep
      | cut blamed exceeds =>
        rw [failed]
        exact .cut blamed (exceeds.grows grows)
    | ok u c₁' =>
      rw [printed] at prompted
      obtain ⟨c₁, shown', fits⟩ := prompted.of_ok
      obtain rfl : c.emit (.printed promptText.toUTF8) = c₁ := by simpa using shown'
      rw [askFrom_eq]
      simp only [bind, EStateM.bind, printed, shown]
      have answered := fits.nextToken
      cases taken : Console.nextToken (c.emit (.printed promptText.toUTF8)) with
      | error e c₂ =>
        obtain ⟨c₂', taken', fits⟩ := answered.of_error taken
        rw [taken']
        exact .same (.error e fits)
      | ok token c₂ =>
        obtain ⟨c₂', taken', fits⟩ := answered.of_ok taken
        rw [taken']
        cases token with
        | none => exact .same (.error _ fits)
        | some token =>
          dsimp only
          cases w.readToken token with
          | some v => exact .same (.ok v fits)
          | none =>
            have noted := fits.note (.discarded w token)
            have fewer : (c₂.emit (.noted (.discarded w token))).remaining.length < k := by
              rw [← fuel, ← remaining_print shown, remaining_nextToken taken]
              exact Nat.lt_succ_self _
            exact ih _ fewer noted rfl

end Fits

section Calls

variable {n : Nat} {c c' : Console} (call : Call)

theorem Call.grows (roomy : c.room = none) : Grows c (finalState (call.action c)) := by
  cases call with
  | print text =>
    rw [action, print_roomy roomy]
    exact grows_emit roomy _
  | ask w => exact (grows_emit roomy _).trans (grows_askFrom w roomy)

theorem Call.limited (fits : Fits n c c') :
    Limited (Fits n) (Exceeds n) (· = .sinkFull) (call.action c) (call.action c') := by
  cases call with
  | print text => exact fits.print text
  | ask w => exact fits.ask w

end Calls

end Console

end ToyMachine
