import Mathlib.Data.List.TakeDrop
import ToyMachine.Proofs.Image.Grammar
import ToyMachine.Proofs.Memory
import ToyMachine.Proofs.Text.Lines

/-! Cell lines are read as the grammar says. The reader cuts a line at its first colon, drops
blanks, cuts what is left at its first blank and looks at the pieces; the grammar puts the
pieces together. Both agree on lines that do not end in a blank, as the lines of an image are
once they have been trimmed. -/

namespace ToyMachine.Image

open Text Grammar

section Pieces

theorem readAddress_ok_iff (found : List Char) (n : Nat) :
    readAddress found = .ok n ↔ IsAddress found ∧ n = Hex.numeralValue found := by
  constructor
  · intro h
    rw [readAddress] at h
    split at h
    · next v read =>
      obtain ⟨-, digits, rfl⟩ := (Hex.read?_eq_some_iff found v).mp read
      split at h
      · next length =>
        cases h
        exact ⟨⟨digits, length⟩, rfl⟩
      · simp at h
    · simp at h
  · rintro ⟨⟨digits, length⟩, rfl⟩
    have present : found ≠ [] := List.ne_nil_of_length_pos (by omega)
    have read := (Hex.read?_eq_some_iff found _).mpr ⟨present, digits, rfl⟩
    rw [readAddress, read]
    exact if_pos length

theorem readAddress_error {found : List Char} {flaw : Flaw} (h : readAddress found = .error flaw) :
    flaw.kind = .malformedAddress := by
  rw [readAddress] at h
  split at h
  · split at h
    · simp at h
    · cases h
      rfl
  · cases h
    rfl

theorem utf8Length_of_digits {found : List Char} (digits : ∀ c ∈ found, Hex.IsDigit c) :
    utf8Length found = found.length := by
  induction found with
  | nil => rfl
  | cons c cs ih =>
    rw [List.forall_mem_cons] at digits
    rw [utf8Length, Hex.utf8Size_of_isDigit digits.1, ih digits.2, List.length_cons, Nat.add_comm]

theorem widthOfLength_eq_some_iff (n : Nat) (w : Width) :
    widthOfLength n = some w ↔ n = w.wordDigits := by
  unfold widthOfLength
  split
  · cases w <;> simp [Width.wordDigits]
  · cases w <;> simp [Width.wordDigits]
  · next four eight => cases w <;> simpa [Width.wordDigits]

theorem Grammar.IsValue.ne_nil {w : Width} {value : List Char} (h : IsValue w value) :
    value ≠ [] := by
  apply List.ne_nil_of_length_pos
  rw [h.2]
  cases w <;> decide

theorem readValue_ok_iff (found : List Char) (w : Width) (v : Word) :
    readValue found = .ok (w, v) ↔
      IsValue w found ∧ v = BitVec.ofNat 32 (Hex.numeralValue found) := by
  constructor
  · intro h
    rw [readValue] at h
    split at h
    · simp at h
    · next w' size =>
      split at h
      · simp at h
      · next n read =>
        obtain ⟨-, digits, rfl⟩ := (Hex.read?_eq_some_iff found n).mp read
        rw [utf8Length_of_digits digits, widthOfLength_eq_some_iff] at size
        cases h
        exact ⟨⟨digits, size⟩, rfl⟩
  · rintro ⟨isValue, rfl⟩
    have read := (Hex.read?_eq_some_iff found _).mpr ⟨isValue.ne_nil, isValue.1, rfl⟩
    have size := (widthOfLength_eq_some_iff (utf8Length found) w).mpr
      ((utf8Length_of_digits isValue.1).trans isValue.2)
    rw [readValue, size]
    dsimp only
    rw [read]

theorem readValue_error {found : List Char} {flaw : Flaw} (h : readValue found = .error flaw) :
    flaw.kind = .malformedValue := by
  rw [readValue] at h
  split at h
  · cases h
    rfl
  · split at h
    · cases h
      rfl
    · simp at h

theorem startsWith_iff (start : String) (line : List Char) :
    startsWith start line = true ↔ start.toList <+: line := by
  rw [startsWith, List.isPrefixOf_iff_prefix]

theorem endsWith_iff (ending : String) (line : List Char) :
    endsWith ending line = true ↔ ending.toList <:+ line := by
  rw [endsWith, List.isSuffixOf_iff_suffix]

theorem readRemark_ok_iff (found : List Char) :
    readRemark found = .ok () ↔ found = [] ∨ ['/', '/'] <+: found := by
  have prefixes := startsWith_iff "//" found
  rw [readRemark]
  split
  · next fits =>
    simp only [Bool.or_eq_true, List.isEmpty_iff, prefixes] at fits
    exact iff_of_true rfl fits
  · next unfit =>
    simp only [Bool.or_eq_true, List.isEmpty_iff, prefixes] at unfit
    exact iff_of_false (by simp) unfit

theorem readRemark_error {found : List Char} {flaw : Flaw} (h : readRemark found = .error flaw) :
    flaw.kind = .malformedValue := by
  rw [readRemark] at h
  split at h
  · simp at h
  · cases h
    rfl

end Pieces

section Behind

def readBehind (behind : List Char) : Except Flaw (Width × Word) := do
  let (value, rest) := (trimStart behind).span (fun c => !isBlank c)
  readRemark (trim rest)
  readValue value

theorem span_eq {p : Char → Bool} {first rest : List Char} (taken : ∀ c ∈ first, p c = true)
    (stops : ∀ c ∈ rest.head?, p c = false) : (first ++ rest).span p = (first, rest) := by
  rw [List.span_eq_takeWhile_dropWhile, List.takeWhile_append_of_pos taken,
    List.dropWhile_append_of_pos taken]
  cases rest with
  | nil => simp
  | cons c cs =>
    have stop := stops c rfl
    rw [List.takeWhile_cons_of_neg (by simp [stop]), List.dropWhile_cons_of_neg (by simp [stop]),
      List.append_nil]

theorem Grammar.IsValue.solid {w : Width} {value : List Char} (h : IsValue w value) :
    ∀ c ∈ value, (!isBlank c) = true := by
  intro c member
  rw [Hex.not_isBlank_of_isDigit (h.1 c member)]
  rfl

theorem Grammar.IsValue.beginsSolid {w : Width} {value : List Char} (h : IsValue w value)
    (rest : List Char) : BeginsSolid (value ++ rest) := by
  intro c first
  cases value with
  | nil => exact absurd rfl h.ne_nil
  | cons d ds =>
    obtain rfl : d = c := by simpa using first
    exact Hex.not_isBlank_of_isDigit (h.1 d (by simp))

theorem Grammar.IsRemark.head_blank {rest : List Char} (h : IsRemark rest) :
    ∀ c ∈ rest.head?, (!isBlank c) = false := by
  cases h with
  | absent => simp
  | present text first more => simp [first]

theorem endsSolid_slashes : EndsSolid ['/', '/'] := by
  rintro c ⟨⟩
  rfl

theorem Grammar.IsRemark.trimmed {rest : List Char} (h : IsRemark rest) :
    trim rest = [] ∨ ['/', '/'] <+: trim rest := by
  cases h with
  | absent => exact .inl rfl
  | @present blank blanks text first more =>
    have blank' : ∀ c ∈ blank :: blanks, isBlank c = true := by
      simp only [List.forall_mem_cons]
      exact ⟨first, more⟩
    have slashes : BeginsSolid ('/' :: '/' :: text) := by
      rintro c ⟨⟩
      rfl
    right
    rw [← List.cons_append, trim, trimStart_append_of_blank blank', trimStart_eq_self slashes]
    exact ⟨_, (trimEnd_append endsSolid_slashes text).symm⟩

theorem isRemark_of_trim {rest : List Char} (solid : EndsSolid rest)
    (blank : ∀ c ∈ rest.head?, isBlank c = true)
    (h : trim rest = [] ∨ ['/', '/'] <+: trim rest) : IsRemark rest := by
  obtain ⟨blanks, blank', parts⟩ := exists_trimStart rest
  rw [trim_eq_trimStart solid.trimStart] at h
  rcases h with empty | ⟨text, slashes⟩
  · -- Only blanks, of which the last cannot be one.
    rw [empty, List.append_nil] at parts
    rw [← parts] at blank'
    rw [solid.eq_nil blank']
    exact .absent
  · cases blanks with
    | nil =>
      rw [List.nil_append] at parts
      rw [parts, ← slashes] at blank
      exact absurd (blank '/' rfl) (by decide)
    | cons b bs =>
      rw [List.forall_mem_cons] at blank'
      rw [parts, ← slashes]
      exact .present text blank'.1 blank'.2

theorem readBehind_eq {w : Width} {value behind : List Char} (h : IsAssigned w value behind) :
    readBehind behind = .ok (w, BitVec.ofNat 32 (Hex.numeralValue value)) := by
  obtain @⟨blanks, remark, blank, digits, tail⟩ := h
  have cut := span_eq digits.solid tail.head_blank
  have value' := (readValue_ok_iff value w _).mpr ⟨digits, rfl⟩
  rw [readBehind, trimStart_append_of_blank blank, trimStart_eq_self (digits.beginsSolid remark),
    cut]
  dsimp only
  rw [(readRemark_ok_iff _).mpr tail.trimmed, value']
  rfl

theorem isAssigned_of_readBehind {behind : List Char} (solid : EndsSolid behind) {w : Width}
    {v : Word} (h : readBehind behind = .ok (w, v)) :
    ∃ value, IsAssigned w value behind ∧ v = BitVec.ofNat 32 (Hex.numeralValue value) := by
  obtain ⟨blanks, blank, parts⟩ := exists_trimStart behind
  have cut := List.takeWhile_append_dropWhile (p := fun c => !isBlank c) (l := trimStart behind)
  rw [readBehind, List.span_eq_takeWhile_dropWhile] at h
  dsimp only at h
  generalize value' : (trimStart behind).takeWhile (fun c => !isBlank c) = value at h cut
  generalize rest' : (trimStart behind).dropWhile (fun c => !isBlank c) = rest at h cut
  cases remark : readRemark (trim rest) with
  | error flaw => simp [remark, bind, Except.bind] at h
  | ok u =>
    rw [remark] at h
    obtain ⟨digits, rfl⟩ := (readValue_ok_iff value w v).mp h
    have solid' : EndsSolid rest := by
      have started := solid.trimStart
      rw [← cut] at started
      exact started.of_append
    have head : ∀ c ∈ rest.head?, isBlank c = true := by
      intro c first
      have stopped := List.head?_dropWhile_not (fun c => !isBlank c) (trimStart behind)
      rw [rest', Option.mem_def.mp first] at stopped
      simpa using stopped
    refine ⟨value, ?_, rfl⟩
    rw [parts, ← cut]
    exact .intro blank digits (isRemark_of_trim solid' head ((readRemark_ok_iff _).mp remark))

theorem readBehind_error {behind : List Char} {flaw : Flaw} (h : readBehind behind = .error flaw) :
    flaw.kind = .malformedValue := by
  rw [readBehind] at h
  dsimp only at h
  cases remark : readRemark (trim ((trimStart behind).span (fun c => !isBlank c)).2) with
  | error flaw' =>
    rw [remark] at h
    cases h
    exact readRemark_error remark
  | ok u =>
    rw [remark] at h
    exact readValue_error h

end Behind

section Lines

theorem readAssignment_eq {before : List Char} (first : ':' ∉ before) (behind : List Char) :
    readAssignment (before ++ ':' :: behind) = (do
      let address ← readAddress before
      let (width, word) ← readBehind behind
      match width.cell? address with
      | .ok cell => .ok ⟨width, cell, word⟩
      | .error _ => .error (.noSuchCell width address)) := by
  have cut : (before ++ ':' :: behind).span (· ≠ ':') = (before, ':' :: behind) := by
    apply span_eq
    · intro c member
      exact decide_eq_true fun colon => first (colon ▸ member)
    · rintro c ⟨⟩
      rfl
  rw [readAssignment, cut, readBehind]
  dsimp only
  cases readAddress before with
  | error flaw => rfl
  | ok address => cases readRemark (trim ((trimStart behind).span (fun c => !isBlank c)).2) <;> rfl

theorem endsSolid_behind {before behind : List Char} (h : EndsSolid (before ++ ':' :: behind)) :
    EndsSolid behind := by
  rw [← List.singleton_append, ← List.append_assoc] at h
  exact h.of_append

theorem Grammar.IsAddress.colon_notMem {before : List Char} (h : IsAddress before) :
    ':' ∉ before :=
  fun member => absurd (h.1 ':' member) (by decide)

theorem readAssignment_of_stored {before behind value : List Char} {w : Width}
    (address : IsAddress before) (assigned : IsAssigned w value behind)
    (bound : Hex.numeralValue before < w.cells) :
    readAssignment (before ++ ':' :: behind) =
      .ok ⟨w, ⟨Hex.numeralValue before, bound⟩, BitVec.ofNat 32 (Hex.numeralValue value)⟩ := by
  rw [readAssignment_eq address.colon_notMem, (readAddress_ok_iff _ _).mpr ⟨address, rfl⟩,
    readBehind_eq assigned]
  simp only [bind, Except.bind, Width.cell?_eq bound]

theorem readAssignment_of_cellLine {line : List Char} {result : Except Flaw.Kind Assignment}
    (solid : EndsSolid line) (h : CellLine line result) :
    (readAssignment line).mapError Flaw.kind = result := by
  cases h with
  | missingSeparator absent =>
    have cut : line.span (· ≠ ':') = (line, []) := by
      have all := @span_eq (· ≠ ':') line []
        (fun c member => decide_eq_true fun colon => absent (colon ▸ member)) (by simp)
      rwa [List.append_nil] at all
    rw [readAssignment, cut]
    rfl
  | @malformedAddress before behind first bad =>
    rw [readAssignment_eq first]
    cases address : readAddress before with
    | ok n => exact absurd ((readAddress_ok_iff before n).mp address).1 bad
    | error flaw => exact congrArg Except.error (readAddress_error address)
  | @malformedValue before behind address bad =>
    rw [readAssignment_eq address.colon_notMem, (readAddress_ok_iff _ _).mpr ⟨address, rfl⟩]
    cases value : readBehind behind with
    | ok found =>
      obtain ⟨_, assigned, _⟩ := isAssigned_of_readBehind (endsSolid_behind solid) value
      exact absurd assigned (bad _ _)
    | error flaw => exact congrArg Except.error (readBehind_error value)
  | @noSuchCell before behind value w address assigned beyond =>
    have missing : w.cell? (Hex.numeralValue before) =
        .error ⟨w, Hex.numeralValue before⟩ := dif_neg (Nat.not_lt.mpr beyond)
    rw [readAssignment_eq address.colon_notMem, (readAddress_ok_iff _ _).mpr ⟨address, rfl⟩,
      readBehind_eq assigned]
    simp only [bind, Except.bind, missing, Except.mapError, Flaw.kind]
  | stored address assigned bound =>
    rw [readAssignment_of_stored address assigned bound]
    rfl

theorem exists_cellLine (line : List Char) : ∃ result, CellLine line result := by
  by_cases colon : ':' ∈ line
  · obtain ⟨before, behind, rfl, first⟩ := List.eq_append_cons_of_mem colon
    by_cases address : IsAddress before
    · by_cases assigned : ∃ w value, IsAssigned w value behind
      · obtain ⟨w, value, assigned⟩ := assigned
        by_cases bound : Hex.numeralValue before < w.cells
        · exact ⟨_, .stored address assigned bound⟩
        · exact ⟨_, .noSuchCell address assigned (Nat.not_lt.mp bound)⟩
      · exact ⟨_, .malformedValue address fun w value h => assigned ⟨w, value, h⟩⟩
    · exact ⟨_, .malformedAddress first address⟩
  · exact ⟨_, .missingSeparator colon⟩

end Lines

end ToyMachine.Image
