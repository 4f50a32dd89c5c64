import ToyMachine.Text.Pieces

/-! The words of a text. A text is taken apart from its front: a blank is skipped, and a word
goes on until a blank or the end. There is one way to do this, and `words` finds it. So a
blank between two texts keeps their words apart. -/

namespace ToyMachine.Text

def BeginsBlank (cs : List Char) : Prop := ∀ c ∈ cs.head?, isBlank c = true

inductive HasWords : List (List Char) → List Char → Prop where
  | nil : HasWords [] []
  | blank {ws : List (List Char)} {c : Char} {cs : List Char} (blank : isBlank c = true) :
      HasWords ws cs → HasWords ws (c :: cs)
  | word {ws : List (List Char)} {w cs : List Char} (present : w ≠ [])
      (solid : ∀ c ∈ w, isBlank c = false) (ends : BeginsBlank cs) :
      HasWords ws cs → HasWords (w :: ws) (w ++ cs)

theorem splitAt_ne_nil {α : Type} (separates : α → Bool) (as : List α) :
    splitAt separates as ≠ [] := by
  cases as with
  | nil => exact List.cons_ne_nil [] []
  | cons a as =>
    rw [splitAt_cons]
    split
    · exact List.cons_ne_nil _ _
    · cases splitAt separates as <;> exact List.cons_ne_nil _ _

theorem extendFirst_append {α : Type} (a : α) {pieces : List (List α)} (present : pieces ≠ [])
    (more : List (List α)) : extendFirst a (pieces ++ more) = extendFirst a pieces ++ more := by
  cases pieces with
  | nil => exact absurd rfl present
  | cons piece pieces => rfl

theorem splitAt_append_cons {α : Type} {separates : α → Bool} {a : α} (h : separates a = true)
    (xs ys : List α) :
    splitAt separates (xs ++ a :: ys) = splitAt separates xs ++ splitAt separates ys := by
  induction xs with
  | nil =>
    rw [List.nil_append, splitAt_cons, if_pos h]
    rfl
  | cons x xs ih =>
    rw [List.cons_append, splitAt_cons, splitAt_cons, ih]
    split
    · rfl
    · exact extendFirst_append x (splitAt_ne_nil separates xs) _

theorem splitAt_of_plain {α : Type} {separates : α → Bool} {as : List α}
    (plain : ∀ a ∈ as, separates a = false) : splitAt separates as = [as] := by
  induction as with
  | nil => rfl
  | cons a as ih =>
    rw [List.forall_mem_cons] at plain
    rw [splitAt_cons, if_neg (by simp [plain.1]), ih plain.2, extendFirst]

theorem words_append_cons {c : Char} (h : isBlank c = true) (xs ys : List Char) :
    words (xs ++ c :: ys) = words xs ++ words ys := by
  rw [words, splitAt_append_cons h, List.filter_append, ← words, ← words]

theorem words_cons_of_blank {c : Char} (h : isBlank c = true) (cs : List Char) :
    words (c :: cs) = words cs :=
  words_append_cons h [] cs

theorem words_of_solid {w : List Char} (present : w ≠ []) (solid : ∀ c ∈ w, isBlank c = false) :
    words w = [w] := by
  rw [words, splitAt_of_plain solid, List.filter_cons_of_pos (by simp [present])]
  rfl

theorem words_append_of_solid {w cs : List Char} (present : w ≠ [])
    (solid : ∀ c ∈ w, isBlank c = false) (ends : BeginsBlank cs) :
    words (w ++ cs) = w :: words cs := by
  cases cs with
  | nil => rw [List.append_nil, words_of_solid present solid, words_nil]
  | cons c cs =>
    have blank : isBlank c = true := ends c rfl
    rw [words_append_cons blank, words_of_solid present solid, words_cons_of_blank blank]
    rfl

theorem HasWords.words_eq {ws : List (List Char)} {cs : List Char} (h : HasWords ws cs) :
    words cs = ws := by
  induction h with
  | nil => rfl
  | blank blank _ ih => rw [words_cons_of_blank blank, ih]
  | word present solid ends _ ih => rw [words_append_of_solid present solid ends, ih]

/-- A solid character in front of a text belongs to the text's first word, unless the text
starts with a blank. -/
theorem exists_hasWords (cs : List Char) : ∃ ws, HasWords ws cs := by
  induction cs with
  | nil => exact ⟨[], .nil⟩
  | cons c cs ih =>
    obtain ⟨ws, rest⟩ := ih
    cases blank : isBlank c with
    | true => exact ⟨ws, .blank blank rest⟩
    | false =>
      have solid : ∀ d ∈ [c], isBlank d = false := by simpa using blank
      cases rest with
      | nil => exact ⟨[[c]], .word (List.cons_ne_nil c []) solid (by simp [BeginsBlank]) .nil⟩
      | blank next rest =>
        exact ⟨[c] :: ws, .word (List.cons_ne_nil c []) solid (by simpa [BeginsBlank])
          (.blank next rest)⟩
      | @word ws w cs present solid' ends rest =>
        exact ⟨(c :: w) :: ws, .word (List.cons_ne_nil c w)
          (List.forall_mem_cons.mpr ⟨blank, solid'⟩) ends rest⟩

theorem hasWords_iff {ws : List (List Char)} {cs : List Char} : HasWords ws cs ↔ words cs = ws := by
  refine ⟨HasWords.words_eq, ?_⟩
  rintro rfl
  obtain ⟨ws, split⟩ := exists_hasWords cs
  rwa [split.words_eq]

end ToyMachine.Text
