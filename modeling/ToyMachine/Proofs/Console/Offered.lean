import ToyMachine.Proofs.Console.FirstWord

/-! The tokens that an input offers, whatever bytes it is made of. A line of text offers its words,
and one that is not text offers a token that is no word and that no call hands out. Only the tokens
up to the one that is asked for have to be words; what is behind them, text or not, is not read. -/

namespace ToyMachine.Console

/-- The tokens on a line, `none` for what is not text. -/
def offeredOn (line : List UInt8) : List (Option String) :=
  match decode? line with
  | some text => (wordsOf text).map some
  | none => [none]

def offered (c : Console) : List (Option String) :=
  c.pending.map some ++ c.input.flatMap offeredOn

theorem offeredOn_of_decoded {line : List UInt8} (decoded : (decode? line).isSome) :
    offeredOn line = (tokensOf line).map some := by
  obtain ⟨text, decoded⟩ := Option.isSome_iff_exists.mp decoded
  rw [offeredOn, tokensOf, decoded]

theorem flatMap_offeredOn_of_decoded {lines : List (List UInt8)}
    (decoded : ∀ line ∈ lines, (decode? line).isSome) :
    lines.flatMap offeredOn = (lines.flatMap tokensOf).map some := by
  induction lines with
  | nil => rfl
  | cons line lines ih =>
    rw [List.forall_mem_cons] at decoded
    rw [List.flatMap_cons, List.flatMap_cons, List.map_append, offeredOn_of_decoded decoded.1,
      ih decoded.2]

theorem flatMap_offeredOn_of_wordless {blanks : List (List UInt8)}
    (wordless : ∀ line ∈ blanks, Wordless line) : blanks.flatMap offeredOn = [] := by
  rw [flatMap_offeredOn_of_decoded fun line member => (wordless line member).1,
    flatMap_tokensOf_of_wordless wordless, List.map_nil]

theorem offered_ofInput (text : String) (room : Option Nat) :
    (ofInput text.toUTF8 room).offered = (wordsOf text).map some := by
  have all := remaining_ofInput text room
  rw [remaining, ofInput, toList_toUTF8, List.nil_append] at all
  rw [offered, ofInput, toList_toUTF8, List.map_nil, List.nil_append,
    flatMap_offeredOn_of_decoded (decodes_of_mem_linesOf_encode text.toList), all]

theorem Noted.offered_eq {c c' : Console} (h : Noted c c') : c'.offered = c.offered := by
  rw [offered, offered, h.input_eq, h.pending_eq]

section Taking

variable {c : Console} {token : String} {rest : List (Option String)}

theorem nextToken_of_offered (next : c.offered = some token :: rest) :
    ∃ c', nextToken c = .ok (some token) c' ∧ c'.offered = rest ∧ c'.room = c.room ∧
      c'.transcript = c.transcript := by
  obtain ⟨lines, answer, c', fetch, taken⟩ := fetch_nextToken c
  have room := fetch.room
  have transcript := fetch.transcript
  cases fetch with
  | waiting input token' tokens _ _ =>
    obtain ⟨first, behind⟩ := List.cons.inj next
    obtain rfl := Option.some.inj first
    exact ⟨_, taken, behind, room, transcript⟩
  | exhausted _ _ wordless =>
    rw [offered, flatMap_offeredOn_of_wordless wordless] at next
    exact absurd next (by simp)
  | refused blanks lines _ _ wordless undecoded =>
    rw [offered, List.flatMap_append, flatMap_offeredOn_of_wordless wordless, List.flatMap_cons,
      offeredOn, undecoded] at next
    exact absurd next (by simp)
  | typed blanks lines _ _ wordless decoded words =>
    rw [offered, List.flatMap_append, flatMap_offeredOn_of_wordless wordless, List.flatMap_cons,
      offeredOn_of_decoded decoded, words] at next
    obtain ⟨first, behind⟩ := List.cons.inj next
    obtain rfl := Option.some.inj first
    exact ⟨_, taken, behind, room, transcript⟩

theorem ask_of_offered {w : Width} {v : Word} (roomy : c.room = none)
    (next : c.offered = some token :: rest) (word : w.readToken token = some v) :
    ∃ c', ask w c = .ok v c' ∧ c'.offered = rest ∧ c'.room = none ∧
      c'.output = c.output ++ promptText.toUTF8 := by
  have prompted : (c.emit (.printed promptText.toUTF8)).offered = some token :: rest := next
  obtain ⟨c', taken, behind, room, transcript⟩ := nextToken_of_offered prompted
  refine ⟨c', ?_, behind, room.trans roomy, ?_⟩
  · rw [ask_roomy w roomy, taken, answered, word]
  · rw [output_congr transcript, output_emit]
    rfl

end Taking

end ToyMachine.Console
