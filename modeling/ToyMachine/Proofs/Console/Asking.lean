import ToyMachine.Console.Basic

/-! What an instruction leaves behind at the console. Reporting is not printing: a
console that was only reported to has the operator's lines and words, the room and the
output that it had. Asking for a word either ends in the first token to come that is a
word of the width, or fails; a sink that is full is the only thing that printing can
meet. -/

namespace ToyMachine

theorem Width.fit_readToken {w : Width} {token : String} {v : Word}
    (h : w.readToken token = some v) : w.fit v = v := by
  simp only [Width.readToken] at h
  split at h
  · obtain ⟨n, _, rfl⟩ := Option.map_eq_some_iff.mp h
    exact Width.fit_fit w _
  · exact absurd h (by simp)

namespace Console

theorem output_congr {c c' : Console} (same : c'.transcript = c.transcript) :
    c'.output = c.output := by
  rw [output, output, same]

theorem output_emit (c : Console) (e : Emission) : (c.emit e).output = c.output ++ e.bytes := by
  rw [output, output, emit, Array.foldl_push]

inductive Noted (c : Console) : Console → Prop where
  | refl : Noted c c
  | note {c' : Console} (n : Notice) : Noted c c' → Noted c (c'.emit (.noted n))

namespace Noted

theorem single (c : Console) (n : Notice) : Noted c (c.emit (.noted n)) :=
  .note n .refl

theorem trans {a b c : Console} (first : Noted a b) (second : Noted b c) : Noted a c := by
  induction second with
  | refl => exact first
  | note n _ ih => exact .note n ih

theorem input_eq {a b : Console} (h : Noted a b) : b.input = a.input := by
  induction h with
  | refl => rfl
  | note n _ ih => exact ih

theorem pending_eq {a b : Console} (h : Noted a b) : b.pending = a.pending := by
  induction h with
  | refl => rfl
  | note n _ ih => exact ih

theorem room_eq {a b : Console} (h : Noted a b) : b.room = a.room := by
  induction h with
  | refl => rfl
  | note n _ ih => exact ih

theorem remaining_eq {a b : Console} (h : Noted a b) : b.remaining = a.remaining := by
  rw [remaining, remaining, h.input_eq, h.pending_eq]

theorem output_eq {a b : Console} (h : Noted a b) : b.output = a.output := by
  induction h with
  | refl => rfl
  | @note c' n _ ih =>
    rw [← ih, output_emit]
    exact ByteArray.append_empty

end Noted

theorem printBytes_error {bytes : ByteArray} {c c' : Console} {failure : Failure}
    (h : printBytes bytes c = .error failure c') : failure = .sinkFull := by
  obtain ⟨input, pending, room, transcript⟩ := c
  cases room with
  | none => simp [printBytes] at h
  | some room =>
    simp only [printBytes] at h
    split at h
    · simp at h
    · simp only [EStateM.Result.error.injEq] at h
      exact h.1.symm

theorem print_error {text : String} {c c' : Console} {failure : Failure}
    (h : print text c = .error failure c') : failure = .sinkFull :=
  printBytes_error h

theorem printBytes_ok {bytes : ByteArray} {c c' : Console}
    (h : printBytes bytes c = .ok () c') :
    c'.input = c.input ∧ c'.pending = c.pending ∧ c'.output = c.output ++ bytes := by
  obtain ⟨input, pending, _ | room, transcript⟩ := c
  · simp only [printBytes, EStateM.Result.ok.injEq, true_and] at h
    subst h
    exact ⟨rfl, rfl, output_emit ⟨input, pending, none, transcript⟩ (.printed bytes)⟩
  · simp only [printBytes] at h
    split at h
    · simp only [EStateM.Result.ok.injEq, true_and] at h
      subst h
      exact ⟨rfl, rfl, output_emit ⟨input, pending, some room, transcript⟩ (.printed bytes)⟩
    · simp at h

theorem output_print {text : String} {c c' : Console} (h : print text c = .ok () c') :
    c'.output = c.output ++ text.toUTF8 :=
  (printBytes_ok h).2.2

theorem transcript_takeToken {room : Option Nat} {transcript : Array Emission}
    {input : List (List UInt8)} {token : Option String} {c : Console}
    (h : takeToken room transcript input = .ok token c) : c.transcript = transcript := by
  fun_induction takeToken room transcript input with
  | case1 =>
    cases h
    rfl
  | case2 => simp at h
  | case3 line lines text hText hWords ih => exact ih h
  | case4 line lines text hText first rest hWords =>
    cases h
    rfl

theorem output_nextToken {c c' : Console} {token : Option String}
    (h : nextToken c = .ok token c') : c'.output = c.output := by
  obtain ⟨input, pending, room, transcript⟩ := c
  cases pending with
  | nil => exact output_congr (transcript_takeToken h)
  | cons first rest =>
    cases h
    rfl

def prompts (n : Nat) : String :=
  String.join (List.replicate n promptText)

theorem prompts_succ (n : Nat) :
    (prompts (n + 1)).toUTF8 = promptText.toUTF8 ++ (prompts n).toUTF8 := by
  rw [prompts, List.replicate_succ, String.join_cons]
  exact String.toByteArray_append

theorem askFrom_ok {w : Width} {c c' : Console} {v : Word} (h : askFrom w c = .ok v c') :
    ∃ (refused : List String) (token : String),
      c.remaining = refused ++ token :: c'.remaining ∧
      (∀ t ∈ refused, w.readToken t = none) ∧ w.readToken token = some v ∧
      c'.output = c.output ++ (prompts (refused.length + 1)).toUTF8 := by
  -- Every refused token is in front of those that the next round has to come.
  fun_induction askFrom w c with
  | case1 c e c₁ hPrint => simp at h
  | case2 c u prompted hPrint e c₁ hTake => simp at h
  | case3 c u prompted hPrint c₁ hTake => simp at h
  | case4 c u prompted hPrint token taken hTake v' hRead =>
    simp only [EStateM.Result.ok.injEq] at h
    obtain ⟨rfl, rfl⟩ := h
    refine ⟨[], token, ?_, by simp, hRead, ?_⟩
    · rw [← remaining_print hPrint, remaining_nextToken hTake, List.nil_append]
    · rw [output_nextToken hTake, output_print hPrint]
      rfl
  | case5 c u prompted hPrint token taken hTake hRead _ ih =>
    obtain ⟨refused, last, split, none_word, word, output⟩ := ih h
    refine ⟨token :: refused, last, ?_, ?_, word, ?_⟩
    · rw [← remaining_print hPrint, remaining_nextToken hTake, List.cons_append, ← split]
      rfl
    · intro t ht
      rcases List.mem_cons.mp ht with rfl | later
      · exact hRead
      · exact none_word t later
    · have silent : (taken.emit (.noted (.discarded w token))).output = taken.output :=
        (Noted.single _ _).output_eq
      rw [output, silent, output_nextToken hTake, output_print hPrint, ByteArray.append_assoc,
        ← prompts_succ, List.length_cons]

/-- The first word of a width among the tokens to come, and zero where there is none. -/
def firstWord (w : Width) (c : Console) : Word :=
  (c.remaining.findSome? w.readToken).getD 0

theorem firstWord_of_ask {w : Width} {c c' : Console} {v : Word} (h : ask w c = .ok v c') :
    c.firstWord w = v := by
  obtain ⟨refused, token, split, none_word, word, -⟩ := askFrom_ok h
  have skipped : refused.findSome? w.readToken = none := List.findSome?_eq_none_iff.mpr none_word
  rw [firstWord, split, List.findSome?_append, skipped, List.findSome?_cons, word]
  rfl

theorem fit_of_ask {w : Width} {c c' : Console} {v : Word} (h : ask w c = .ok v c') :
    w.fit v = v := by
  obtain ⟨_, _, _, _, word, _⟩ := askFrom_ok h
  exact Width.fit_readToken word

theorem Noted.firstWord_eq {w : Width} {a b : Console} (h : Noted a b) :
    b.firstWord w = a.firstWord w := by
  rw [firstWord, firstWord, h.remaining_eq]

end Console

end ToyMachine
