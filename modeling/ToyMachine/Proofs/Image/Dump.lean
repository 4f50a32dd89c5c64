import ToyMachine.Proofs.Digits
import ToyMachine.Proofs.Image.Loading
import ToyMachine.Proofs.Populated

/-! Dumps of a memory. A dump has one line for each populated cell of a view, in any order:
the address and the word of the cell in digits, letters in either case, with spaces behind
the colon and a remark if wanted. Every such line is a cell line of the image grammar, so that
loading a dump stores the populated cells, and nothing else. -/

namespace ToyMachine.Image

open Text Grammar

namespace Dump

/-- The same digits, any letters among them perhaps small. -/
def Spelled (plain written : List Char) : Prop :=
  List.Forall₂ (fun d c => c = d ∨ c = d.toLower) plain written

inductive IsTail : List Char → Prop where
  | absent : IsTail []
  | remark (comment : List Char) (oneLine : '\n' ∉ comment) : IsTail (" //".toList ++ comment)

inductive IsEntry (w : Width) (e : w.Cell × Word) : List Char → Prop where
  | intro {address spaces value tail : List Char}
      (named : Spelled (Hex.fixed w.addressDigits e.1.val) address)
      (gap : ∀ c ∈ spaces, c = ' ') (word : Spelled (w.hex e.2).toList value)
      (ended : IsTail tail) :
      IsEntry w e (address ++ ':' :: (spaces ++ (value ++ tail)))

end Dump

open Dump

section Digits

theorem spelled_self (plain : List Char) : Spelled plain plain :=
  List.forall₂_same.mpr fun _ _ => .inl rfl

theorem toUpper_of_spelled {plain written : List Char} (spelled : Spelled plain written) :
    written.map Char.toUpper = plain.map Char.toUpper := by
  induction spelled with
  | nil => rfl
  | cons same rest ih =>
    rw [List.map_cons, List.map_cons, ih]
    rcases same with rfl | rfl
    · rfl
    · rw [Hex.toUpper_toLower]

theorem spelled_fixed {k n v : Nat} (read : Hex.read? (Hex.fixed k n) = some v)
    {written : List Char} (spelled : Spelled (Hex.fixed k n) written) :
    (∀ c ∈ written, Hex.IsDigit c) ∧ written.length = k ∧ Hex.numeralValue written = v := by
  obtain ⟨-, digits, value⟩ := (Hex.read?_eq_some_iff _ _).mp read
  obtain ⟨digits', value'⟩ := Hex.numeralValue_of_toUpper digits (toUpper_of_spelled spelled)
  refine ⟨digits', ?_, value'.trans value.symm⟩
  rw [← spelled.length_eq, Hex.fixed_length]

theorem spelled_address {w : Width} {c : w.Cell} {written : List Char}
    (spelled : Spelled (Hex.fixed w.addressDigits c.val) written) :
    IsAddress written ∧ Hex.numeralValue written = c.val := by
  have size : 2 ≤ w.addressDigits ∧ w.addressDigits ≤ 4 := by cases w <;> decide
  obtain ⟨digits, length, value⟩ := spelled_fixed (Width.read?_addressDigits c.isLt) spelled
  exact ⟨⟨digits, by rw [length]; exact size⟩, value⟩

theorem spelled_word {w : Width} {v : Word} {written : List Char}
    (spelled : Spelled (w.hex v).toList written) :
    IsValue w written ∧ BitVec.ofNat 32 (Hex.numeralValue written) = w.pattern v := by
  rw [Width.hex, String.toList_ofList] at spelled
  obtain ⟨digits, length, value⟩ := spelled_fixed (w.read?_digits v) spelled
  refine ⟨⟨digits, length⟩, ?_⟩
  rw [value, BitVec.ofNat_toNat, BitVec.setWidth_eq]

end Digits

section Entries

variable {w : Width} {e : w.Cell × Word} {line : List Char}

theorem Grammar.IsAddress.exists_cons {address : List Char} (h : IsAddress address) :
    ∃ a b rest, address = a :: b :: rest ∧ Hex.IsDigit a ∧ Hex.IsDigit b := by
  obtain ⟨digits, size, -⟩ := h
  match address with
  | [] => simp at size
  | [_] => simp at size
  | a :: b :: rest => exact ⟨a, b, rest, rfl, digits a (by simp), digits b (by simp)⟩

theorem Grammar.IsAddress.not_skipped {address : List Char} (h : IsAddress address)
    (behind : List Char) : ¬ Opens (address ++ behind) ∧ ¬ IsSkipped (address ++ behind) := by
  obtain ⟨a, b, rest, rfl, first, second⟩ := h.exists_cons
  have slash : a ≠ '/' := by
    rintro rfl
    exact absurd first (by decide)
  have declared : a ≠ 'p' := by
    rintro rfl
    exact absurd first (by decide)
  have called : b ≠ 'u' := by
    rintro rfl
    exact absurd second (by decide)
  simp [Opens, IsSkipped, List.cons_prefix_cons, slash.symm, declared.symm, called.symm]

theorem Grammar.IsAddress.beginsSolid {address : List Char} (h : IsAddress address)
    (behind : List Char) : BeginsSolid (address ++ behind) := by
  obtain ⟨a, b, rest, rfl, first, -⟩ := h.exists_cons
  rintro c ⟨⟩
  exact Hex.not_isBlank_of_isDigit first

theorem Grammar.IsValue.endsSolid {value : List Char} (h : IsValue w value) (front : List Char) :
    EndsSolid (front ++ value) := by
  have ends : EndsSolid value :=
    fun c last => Hex.not_isBlank_of_isDigit (h.1 c (List.mem_of_getLast? last))
  exact ends.append h.ne_nil front

theorem Dump.IsTail.isRemark_trimEnd {tail : List Char} (h : IsTail tail) :
    IsRemark (trimEnd tail) := by
  cases h with
  | absent => exact .absent
  | remark comment oneLine =>
    have solid : EndsSolid [' ', '/', '/'] := endsSolid_slashes.append (by simp) [' ']
    change IsRemark (trimEnd ([' ', '/', '/'] ++ comment))
    rw [trimEnd_append solid comment]
    exact @IsRemark.present ' ' [] _ rfl (by simp)

theorem Dump.IsEntry.oneLine (h : IsEntry w e line) : line ≠ [] ∧ '\n' ∉ line := by
  obtain @⟨address, spaces, value, tail, named, gap, word, ended⟩ := h
  have digits : ∀ digits : List Char, (∀ c ∈ digits, Hex.IsDigit c) → '\n' ∉ digits :=
    fun digits all member => absurd (all _ member) (by decide)
  have front := digits address (spelled_address named).1.1
  have back := digits value (spelled_word word).1.1
  have middle : '\n' ∉ spaces := fun member => absurd (gap _ member) (by decide)
  have behind : '\n' ∉ tail := by
    cases ended with
    | absent => simp
    | remark comment oneLine => simpa using oneLine
  refine ⟨by simp, ?_⟩
  simp only [List.mem_append, List.mem_cons, not_or]
  exact ⟨front, by decide, middle, back, behind⟩

theorem Dump.IsEntry.cellLine (h : IsEntry w e line) :
    Line false (trim line) false (some (.ok ⟨w, e.1, w.pattern e.2⟩)) := by
  obtain @⟨address, spaces, value, tail, named, gap, word, ended⟩ := h
  obtain ⟨isAddress, number⟩ := spelled_address named
  obtain ⟨isValue, pattern⟩ := spelled_word word
  have begins := isAddress.beginsSolid (':' :: (spaces ++ (value ++ tail)))
  have solid := isValue.endsSolid (address ++ ':' :: spaces)
  have trimmed : trim (address ++ ':' :: (spaces ++ (value ++ tail))) =
      address ++ ':' :: (spaces ++ (value ++ trimEnd tail)) := by
    have kept := trimEnd_append solid tail
    simp only [List.append_assoc, List.cons_append] at kept
    rw [trim_eq_trimEnd begins, kept]
  have blank : ∀ c ∈ spaces, isBlank c = true := fun c member => gap c member ▸ rfl
  have assigned := IsAssigned.intro blank isValue ended.isRemark_trimEnd
  have bound : Hex.numeralValue address < w.cells := by
    rw [number]
    exact e.1.isLt
  have cell : (⟨Hex.numeralValue address, bound⟩ : w.Cell) = e.1 := Fin.ext number
  obtain ⟨plain, kept⟩ := isAddress.not_skipped (':' :: (spaces ++ (value ++ trimEnd tail)))
  have reads := CellLine.stored isAddress assigned bound
  rw [cell, pattern] at reads
  rw [trimmed]
  exact .cell plain kept reads

end Entries

section Dumps

variable {w : Width} {entries : List (w.Cell × Word)} {ls : List (List Char)}

theorem set_pattern (m : Memory) (w : Width) (c : w.Cell) (v : Word) :
    m.set w c (w.pattern v) = m.set w c v := by
  cases w with
  | narrow =>
    have cut : ((v.setWidth 16).setWidth 32).setWidth 16 = v.setWidth 16 :=
      BitVec.setWidth_setWidth_of_le _ (by decide)
    rw [Memory.set, Memory.set, Width.pattern, cut]
  | wide => rfl

theorem run_entries (memory : Memory) (number : Nat)
    (dumped : List.Forall₂ (IsEntry w) entries ls) :
    Run ⟨memory, number, false, []⟩ (ls.map trim)
      ⟨memory.setAll w entries, number + ls.length, false, []⟩ := by
  induction dumped generalizing memory number with
  | nil => exact .done _
  | @cons e line entries ls first rest ih =>
    have stored := Step.store (p := ⟨memory, number, false, []⟩) first.cellLine
    have more := ih (memory.set w e.1 e.2) (number + 1)
    rw [← Assignment.apply_eq_overlay, Assignment.apply, set_pattern] at stored
    rw [Nat.add_assoc, Nat.add_comm 1] at more
    exact .line stored more

theorem oneLine_of_entries (dumped : List.Forall₂ (IsEntry w) entries ls) :
    ∀ l ∈ ls, l ≠ [] ∧ '\n' ∉ l := by
  induction dumped with
  | nil => simp
  | cons first rest ih => exact List.forall_mem_cons.mpr ⟨first.oneLine, ih⟩

theorem load_entries {text : String} (dumped : List.Forall₂ (IsEntry w) entries ls)
    (written : HasLines ls text.toList) :
    (load .zeroed text).accepted = .ok (Memory.zeroed.setAll w entries) := by
  have run := run_entries .zeroed 0 dumped
  rw [← lines_of_hasLines written (oneLine_of_entries dumped)] at run
  obtain ⟨memory, defects⟩ := load_of_run run
  have none : (load .zeroed text).defects = [] := List.map_eq_nil_iff.mp defects
  rw [Loader.accepted_of_nil none]
  exact congrArg _ memory

/-- Loading undoes dumping. The populated cells are listed once each and in order; and lines for
them in any order are loaded without a defect over zeroed memory and give the view back, with
zeros in the bytes that it does not reach. The wide view reaches them all. -/
theorem load_dump (m : Memory) (w : Width) :
    ((m.populated w).Pairwise fun a b => a.1 < b.1) ∧
    (∀ c v, (c, v) ∈ m.populated w ↔ m.get w c = v ∧ v ≠ 0) ∧
    ∀ {entries : List (w.Cell × Word)} {ls : List (List Char)} {text : String},
      entries.Perm (m.populated w) → List.Forall₂ (IsEntry w) entries ls →
      HasLines ls text.toList →
      ∃ m', (load .zeroed text).accepted = .ok m' ∧ (∀ c, m'.get w c = m.get w c) ∧
        (∀ (k : Nat) (h : k < 0x40000), w.cells ≤ k / w.cellBytes → m'.bytes[k] = 0) ∧
        (w = .wide → m' = m) := by
  refine ⟨m.populated_pairwise w, m.mem_populated_iff, ?_⟩
  intro entries ls text permuted dumped written
  have view := m.get_setAll_populated permuted
  refine ⟨_, load_entries dumped written, view, ?_, ?_⟩
  · intro k h beyond
    rw [Memory.bytes_setAll_of_beyond _ h beyond, Memory.zeroed, Vector.getElem_replicate]
  · rintro rfl
    exact Memory.eq_of_get_wide view

/-- Two cells against the order of their addresses, the second line without its line feed. -/
theorem load_dump_swapped :
    (load .zeroed "007f:  80000000 // top\n0001:0000abcD").accepted =
      .ok ((Memory.zeroed.set .wide (1 : Fin 0x10000) 0xABCD).set .wide Width.wide.consoleCell
        0x80000000) := by
  have kept : ∀ e ∈ [((1 : Fin 0x10000), (0xABCD : Word)), (Width.wide.consoleCell, 0x80000000)],
      Width.wide.fit e.2 = e.2 ∧ e.2 ≠ 0 :=
    List.forall_mem_cons.mpr ⟨⟨rfl, by decide⟩, List.forall_mem_singleton.mpr ⟨rfl, by decide⟩⟩
  have listed := (List.Perm.swap ((1 : Fin 0x10000), 0xABCD) _ _).trans
    (@Memory.perm_populated_setAll .wide _ (by decide) kept)
  have top : Spelled (Hex.fixed 4 0x7F) "007f".toList :=
    .cons (.inl rfl) (.cons (.inl rfl) (.cons (.inl rfl) (.cons (.inr rfl) .nil)))
  have word : Spelled (Hex.fixed 8 0xABCD) "0000abcD".toList :=
    .cons (.inl rfl) (.cons (.inl rfl) (.cons (.inl rfl) (.cons (.inl rfl) (.cons (.inr rfl)
      (.cons (.inr rfl) (.cons (.inr rfl) (.cons (.inl rfl) .nil)))))))
  have first : IsEntry .wide (Width.wide.consoleCell, 0x80000000)
      "007f:  80000000 // top".toList :=
    @IsEntry.intro .wide (Width.wide.consoleCell, 0x80000000) "007f".toList "  ".toList _ _ top
      (by simp) (spelled_self _) (.remark " top".toList (by simp))
  have second : IsEntry .wide ((1 : Fin 0x10000), 0xABCD) "0001:0000abcD".toList :=
    @IsEntry.intro .wide ((1 : Fin 0x10000), 0xABCD) "0001".toList [] "0000abcD".toList []
      (spelled_self _) (by simp) word .absent
  have written : HasLines ["007f:  80000000 // top".toList, "0001:0000abcD".toList]
      "007f:  80000000 // top\n0001:0000abcD".toList := .inr (by decide)
  obtain ⟨m', accepted, -, -, same⟩ :=
    (load_dump _ .wide).2.2 listed (.cons first (.cons second .nil)) written
  rw [accepted, same rfl]
  rfl

end Dumps

end ToyMachine.Image
