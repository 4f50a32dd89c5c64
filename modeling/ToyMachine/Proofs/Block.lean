import ToyMachine.Proofs.Memory

/-! Blocks of words. A block goes to consecutive cells, from a first one that the view need not
have. The words that fit are written and no byte elsewhere is; if there are more, the first cell
that is missing is reported under the number that it would have, also where an address has no
room for that number. So a block never goes on at the start of memory. -/

namespace ToyMachine

namespace Memory

variable {w : Width} {m m' : Memory} {first : Nat}

/-- The words are in consecutive cells, cut to the width, and the other bytes are as before. -/
structure Laid (m : Memory) (w : Width) (first : Nat) (words : List Word) (m' : Memory) :
    Prop where
  cells : ∀ (i : Nat) (h : i < words.length), ∃ inside : first + i < w.cells,
    m'.get w ⟨first + i, inside⟩ = w.fit words[i]
  outside : ∀ (k : Nat) (h : k < 0x40000),
    ¬ (first ≤ k / w.cellBytes ∧ k / w.cellBytes < first + words.length) → m'.bytes[k] = m.bytes[k]

section Laid

theorem laid_nil (m : Memory) (w : Width) (first : Nat) : m.Laid w first [] m where
  cells _ h := absurd h (Nat.not_lt_zero _)
  outside _ _ _ := rfl

theorem Laid.before {words : List Word} (laid : m.Laid w first words m') {c : w.Cell}
    (before : c.val < first) : m'.get w c = m.get w c := by
  apply get_congr
  intro k h inside
  exact laid.outside k h (by omega)

theorem Laid.cons {bound : first < w.cells} {v : Word} {words : List Word}
    (rest : (m.set w ⟨first, bound⟩ v).Laid w (first + 1) words m') :
    m.Laid w first (v :: words) m' where
  cells := by
    intro i h
    cases i with
    | zero =>
      -- The cells that follow are written later and leave this one alone.
      refine ⟨bound, ?_⟩
      have kept := rest.before (c := ⟨first, bound⟩) (Nat.lt_succ_self first)
      rw [get_set_self] at kept
      exact kept
    | succ i =>
      obtain ⟨inside, word⟩ := rest.cells i (Nat.lt_of_succ_lt_succ h)
      have place : first + 1 + i = first + (i + 1) := by omega
      simp only [place] at inside word
      exact ⟨inside, word⟩
  outside := by
    intro k h elsewhere
    rw [List.length_cons] at elsewhere
    have own : k / w.cellBytes ≠ first := by omega
    rw [rest.outside k h (by omega)]
    exact m.set_sameOutside w ⟨first, bound⟩ v k h own

end Laid

section Writing

theorem writeBlock_cons (bound : first < w.cells) (v : Word) (words : List Word) (m : Memory) :
    writeBlock w first (v :: words) m =
      writeBlock w (first + 1) words (m.set w ⟨first, bound⟩ v) := by
  simp only [writeBlock, Width.cell?_eq bound]

theorem writeBlock_missing (beyond : w.cells ≤ first) (v : Word) (words : List Word)
    (m : Memory) : writeBlock w first (v :: words) m = .error ⟨w, first⟩ m := by
  simp only [writeBlock, Width.cell?, dif_neg (Nat.not_lt.mpr beyond)]

theorem writeBlock_append {leading : List Word}
    (fits : leading = [] ∨ first + leading.length ≤ w.cells) (m : Memory) :
    ∃ m', m.Laid w first leading m' ∧ ∀ rest : List Word,
      writeBlock w first (leading ++ rest) m = writeBlock w (first + leading.length) rest m' := by
  induction leading generalizing first m with
  | nil => exact ⟨m, laid_nil m w first, fun _ => rfl⟩
  | cons v leading ih =>
    rw [List.length_cons] at fits
    have room : first + (leading.length + 1) ≤ w.cells := fits.resolve_left (by simp)
    have bound : first < w.cells := by omega
    have fits' : leading = [] ∨ first + 1 + leading.length ≤ w.cells := .inr (by omega)
    obtain ⟨m', laid, more⟩ := ih fits' (m.set w ⟨first, bound⟩ v)
    refine ⟨m', laid.cons, fun rest => ?_⟩
    have place : first + (leading.length + 1) = first + 1 + leading.length := by omega
    rw [List.cons_append, writeBlock_cons bound, more, List.length_cons, place]

theorem writeBlock_of_fits {words : List Word} (fits : words = [] ∨ first + words.length ≤ w.cells)
    (m : Memory) : ∃ m', writeBlock w first words m = .ok () m' ∧ m.Laid w first words m' := by
  obtain ⟨m', laid, more⟩ := writeBlock_append fits m
  refine ⟨m', ?_, laid⟩
  rw [← List.append_nil words, more]
  rfl

theorem writeBlock_of_long {words : List Word} (present : words ≠ [])
    (long : w.cells < first + words.length) (m : Memory) :
    ∃ m', writeBlock w first words m = .error ⟨w, max first w.cells⟩ m' ∧
      m.Laid w first (words.take (w.cells - first)) m' := by
  have positive := List.length_pos_iff.mpr present
  have short : w.cells - first < words.length := by omega
  have size : (words.take (w.cells - first)).length = w.cells - first :=
    List.length_take_of_le (Nat.le_of_lt short)
  have fits : words.take (w.cells - first) = [] ∨
      first + (words.take (w.cells - first)).length ≤ w.cells := by
    by_cases beyond : w.cells ≤ first
    · left
      rw [Nat.sub_eq_zero_of_le beyond, List.take_zero]
    · right
      omega
  obtain ⟨m', laid, more⟩ := writeBlock_append fits m
  have place : first + (w.cells - first) = max first w.cells := by omega
  refine ⟨m', ?_, laid⟩
  rw [← List.take_append_drop (w.cells - first) words, more, size, place,
    List.drop_eq_getElem_cons short]
  exact writeBlock_missing (Nat.le_max_right _ _) _ _ _

end Writing

/-- Of a block the part that fits is written. A block that does not fit has filled the view to
its end and is reported at the cell behind it, or at its own first cell if it starts behind. -/
theorem writeBlock_what_fits (m : Memory) (w : Width) (position : Address) (words : List Word) :
    let first := position.toNat
    ∃ m', (∀ c : w.Cell, c.val < first → m'.get w c = m.get w c) ∧
      if words = [] ∨ first + words.length ≤ w.cells then
        writeBlock w first words m = .ok () m' ∧ m.Laid w first words m'
      else
        writeBlock w first words m = .error ⟨w, max first w.cells⟩ m' ∧
          ∃ leading missing, words = leading ++ missing ∧ leading.length = w.cells - first ∧
            m.Laid w first leading m' := by
  intro first
  split
  · next fits =>
    obtain ⟨m', written, laid⟩ := writeBlock_of_fits fits m
    exact ⟨m', fun c before => laid.before before, written, laid⟩
  · next unfit =>
    obtain ⟨present, long⟩ := not_or.mp unfit
    have long : w.cells < first + words.length := Nat.not_le.mp long
    obtain ⟨m', failed, laid⟩ := writeBlock_of_long present long m
    have size : (words.take (w.cells - first)).length = w.cells - first :=
      List.length_take_of_le (by omega)
    exact ⟨m', fun c before => laid.before before, failed, _, _,
      (List.take_append_drop (w.cells - first) words).symm, size, laid⟩

/-- Behind the last wide cell there is no address, and the count goes on all the same. -/
example (m : Memory) (u v : Word) : writeBlock .wide 0xFFFF [u, v] m =
    .error ⟨.wide, 0x10000⟩ (m.set .wide (0xFFFF : Fin 0x10000) u) := rfl

end Memory

end ToyMachine
