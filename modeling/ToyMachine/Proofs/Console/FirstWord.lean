import ToyMachine.Proofs.Console.Reading

/-! Asking the operator, from the tokens to come to the outcome. Over lines that are text and a
sink without limit one round of asking prompts once and takes the next token, however many lines
without a word lie in front of it; a token that is no word is reported, and the next round has
one token fewer. So asking ends with the first word among the tokens, or with all of them taken. -/

namespace ToyMachine.Console

/-- A console over a sink without limit, all of whose lines are text. -/
structure Readable (c : Console) : Prop where
  roomy : c.room = none
  texts : ∀ line ∈ c.input, (decode? line).isSome

/-- The second console is what the first becomes by so many prompts, with these tokens
reported. What there is to take does not matter. -/
structure Prompted (w : Width) (c : Console) (times : Nat) (refused : List String)
    (c' : Console) : Prop where
  output : c'.output = c.output ++ (String.join (List.replicate times "input: \n")).toUTF8
  journal : c'.journal = c.journal ++ refused.map (Notice.discarded w)

section Rounds

variable {w : Width} {c c₁ c' : Console} {token : String} {rest refused : List String} {times : Nat}

theorem Readable.emit (h : Readable c) (e : Emission) : Readable (c.emit e) :=
  ⟨h.roomy, h.texts⟩

theorem Fetch.transcript {lines : List (List UInt8)} {answer : Except Failure (Option String)}
    (h : Fetch c lines answer c') : c'.transcript = c.transcript := by
  cases h <;> rfl

theorem Readable.fetch (h : Readable c) : ∃ lines answer c', Fetch c lines (.ok answer) c' ∧
    nextToken c = .ok answer c' ∧ Readable c' := by
  obtain ⟨lines, answer, c', fetch, eq⟩ := fetch_nextToken c
  have parts := fetch.input
  cases answer with
  | error failure =>
    obtain ⟨rfl, -⟩ := fetch.fetched.failure failure rfl
    obtain ⟨line, member, undecoded⟩ := fetch.fetched.garbage.mp rfl
    have text := h.texts line (parts ▸ List.mem_append_left _ member)
    exact absurd text (by simp [undecoded])
  | ok answer =>
    refine ⟨lines, answer, c', fetch, eq, fetch.room.trans h.roomy, ?_⟩
    intro line member
    exact h.texts line (parts ▸ List.mem_append_right _ member)

theorem Readable.nextToken_cons (h : Readable c) (split : c.remaining = token :: rest) :
    ∃ c', nextToken c = .ok (some token) c' ∧ c'.remaining = rest ∧ Readable c' ∧
      c'.transcript = c.transcript := by
  obtain ⟨lines, answer, c', fetch, eq, readable⟩ := h.fetch
  cases answer with
  | none =>
    obtain ⟨queue, wordless⟩ := fetch.fetched.exhausted.mp rfl
    rw [remaining, queue, flatMap_tokensOf_of_wordless wordless] at split
    exact absurd split (by simp)
  | some first =>
    have order := remaining_nextToken eq
    rw [split, List.cons.injEq] at order
    obtain ⟨rfl, rfl⟩ := order
    exact ⟨c', eq, rfl, readable, fetch.transcript⟩

theorem Readable.nextToken_nil (h : Readable c) (none_left : c.remaining = []) :
    ∃ c', nextToken c = .ok none c' ∧ c'.input = [] ∧ c'.pending = [] ∧
      c'.transcript = c.transcript := by
  obtain ⟨lines, answer, c', fetch, eq, -⟩ := h.fetch
  cases answer with
  | none =>
    obtain ⟨pending, input⟩ := fetch.fetched.ended rfl
    exact ⟨c', eq, input, pending, fetch.transcript⟩
  | some first =>
    have order := remaining_nextToken eq
    rw [none_left] at order
    exact absurd order (by simp)

theorem prompted_once
    (transcript : c'.transcript = (c.emit (.printed promptText.toUTF8)).transcript) :
    Prompted w c 1 [] c' := by
  refine ⟨?_, ?_⟩
  · rw [output_congr transcript, output_emit]
    rfl
  · rw [journal_congr transcript, journal_emit]
    rfl

theorem Prompted.refuse (first : Prompted w c 1 [] c₁)
    (later : Prompted w (c₁.emit (.noted (.discarded w token))) times refused c') :
    Prompted w c (times + 1) (token :: refused) c' := by
  have silent : (c₁.emit (.noted (.discarded w token))).output = c₁.output :=
    (Noted.single _ _).output_eq
  refine ⟨?_, ?_⟩
  · rw [later.output, silent, first.output, ByteArray.append_assoc]
    exact congrArg (c.output ++ ·) (prompts_succ times).symm
  · rw [later.journal, journal_emit, first.journal]
    simp [Emission.notice?]

end Rounds

section Asking

variable {w : Width} {c : Console}

theorem ask_of_remaining_cons {token : String} {rest : List String} (h : Readable c)
    (split : c.remaining = token :: rest) :
    ∃ c', ask w c = answered w (.ok (some token) c') ∧ c'.remaining = rest ∧ Readable c' ∧
      Prompted w c 1 [] c' := by
  have prompted : (c.emit (.printed promptText.toUTF8)).remaining = token :: rest := split
  obtain ⟨c', taken, left, readable, transcript⟩ := (h.emit _).nextToken_cons prompted
  refine ⟨c', ?_, left, readable, prompted_once transcript⟩
  rw [ask_roomy w h.roomy, taken]

/-- The rounds up to the first word. Every refused token is the front of what is to come in its
round, so the induction is on the refused tokens. -/
theorem ask_of_first {refused rest : List String} {token : String} {v : Word} (h : Readable c)
    (split : c.remaining = refused ++ token :: rest)
    (useless : ∀ t ∈ refused, w.readToken t = none) (word : w.readToken token = some v) :
    ∃ c', ask w c = .ok v c' ∧ c'.remaining = rest ∧ Readable c' ∧
      Prompted w c (refused.length + 1) refused c' := by
  induction refused generalizing c with
  | nil =>
    obtain ⟨c', round, left, readable, prompted⟩ := ask_of_remaining_cons (w := w) h split
    refine ⟨c', ?_, left, readable, prompted⟩
    rw [round, answered, word]
  | cons t refused ih =>
    rw [List.forall_mem_cons] at useless
    obtain ⟨c₁, round, left, readable, prompted⟩ := ask_of_remaining_cons (w := w) h split
    obtain ⟨c', rounds, left', readable', prompted'⟩ :=
      ih (readable.emit (.noted (.discarded w t))) left useless.2
    refine ⟨c', ?_, left', readable', prompted.refuse prompted'⟩
    rw [round, answered, useless.1]
    exact rounds

theorem ask_of_useless {tokens : List String} (h : Readable c) (all : c.remaining = tokens)
    (useless : ∀ t ∈ tokens, w.readToken t = none) :
    ∃ c', ask w c = .error .inputClosed c' ∧ c'.input = [] ∧ c'.pending = [] ∧
      Prompted w c (tokens.length + 1) tokens c' := by
  induction tokens generalizing c with
  | nil =>
    have prompted : (c.emit (.printed promptText.toUTF8)).remaining = [] := all
    obtain ⟨c', taken, input, pending, transcript⟩ := (h.emit _).nextToken_nil prompted
    refine ⟨c', ?_, input, pending, prompted_once transcript⟩
    rw [ask_roomy w h.roomy, taken]
    rfl
  | cons t tokens ih =>
    rw [List.forall_mem_cons] at useless
    obtain ⟨c₁, round, left, readable, prompted⟩ := ask_of_remaining_cons (w := w) h all
    obtain ⟨c', rounds, input, pending, prompted'⟩ :=
      ih (readable.emit (.noted (.discarded w t))) left useless.2
    refine ⟨c', ?_, input, pending, prompted.refuse prompted'⟩
    rw [round, answered, useless.1]
    exact rounds

end Asking

theorem readable_of_text (typed : String) (pending : List String) (transcript : Array Emission) :
    Readable ⟨linesOf typed.toUTF8.toList, pending, none, transcript⟩ := by
  refine ⟨rfl, ?_⟩
  rw [toList_toUTF8]
  exact decodes_of_mem_linesOf_encode typed.toList

theorem remaining_of_text {typed : String} {ws : List (List Char)}
    (split : Text.HasWords ws typed.toList) (pending : List String) (transcript : Array Emission) :
    remaining ⟨linesOf typed.toUTF8.toList, pending, none, transcript⟩ =
      pending ++ ws.map String.ofList := by
  rw [remaining, toList_toUTF8, tokensOf_linesOf_encode, split.words_eq]

/-- The tokens to come are the words that wait and then those of the text. If one of them is a
word of the width, asking ends with the first such, behind one prompt for each token up to it and
one warning for each token before it, and those behind it are still to come. If none is, asking
fails with every line and every word taken, behind one prompt for each and the prompt that met the
end. -/
theorem ask_first_word (w : Width) (typed : String) (pending : List String)
    (transcript : Array Emission) {ws : List (List Char)}
    (split : Text.HasWords ws typed.toList) :
    let c : Console := ⟨linesOf typed.toUTF8.toList, pending, none, transcript⟩
    let tokens := pending ++ ws.map String.ofList
    (∀ {refused rest : List String} {token : String} {v : Word},
      tokens = refused ++ token :: rest → (∀ t ∈ refused, w.readToken t = none) →
      w.readToken token = some v →
      ∃ c', ask w c = .ok v c' ∧ c'.remaining = rest ∧
        Prompted w c (refused.length + 1) refused c') ∧
    ((∀ t ∈ tokens, w.readToken t = none) →
      ∃ c', ask w c = .error .inputClosed c' ∧ c'.input = [] ∧ c'.pending = [] ∧
        Prompted w c (tokens.length + 1) tokens c') ∧
    ∀ t, (Notice.discarded w t).level = .warn := by
  intro c tokens
  have readable : Readable c := readable_of_text typed pending transcript
  have all : c.remaining = tokens := remaining_of_text split pending transcript
  refine ⟨?_, ?_, fun t => rfl⟩
  · intro refused rest token v parts useless word
    obtain ⟨c', answer, left, -, prompted⟩ :=
      ask_of_first readable (all.trans parts) useless word
    exact ⟨c', answer, left, prompted⟩
  · intro useless
    exact ask_of_useless readable all useless

/-- A token that waits and is too long, a blank line, a word that is no number, and a number. -/
theorem ask_first_word_third :
    ∃ c', ask .narrow ⟨linesOf "\n zz 1F\n2A".toUTF8.toList, ["12345"], none, #[]⟩ = .ok 0x1F c' ∧
      c'.remaining = ["2A"] ∧
      Prompted .narrow ⟨linesOf "\n zz 1F\n2A".toUTF8.toList, ["12345"], none, #[]⟩ 3
        ["12345", "zz"] c' := by
  have split : Text.HasWords ["zz".toList, "1F".toList, "2A".toList] "\n zz 1F\n2A".toList :=
    Text.hasWords_iff.mpr (by decide)
  have parts : ["12345"] ++ ["zz".toList, "1F".toList, "2A".toList].map String.ofList =
      ["12345", "zz"] ++ "1F" :: ["2A"] := rfl
  have useless : ∀ t ∈ ["12345", "zz"], Width.narrow.readToken t = none := by decide +kernel
  have word : Width.narrow.readToken "1F" = some 0x1F := by decide +kernel
  exact (ask_first_word .narrow "\n zz 1F\n2A" ["12345"] #[] split).1 parts useless word

end ToyMachine.Console
