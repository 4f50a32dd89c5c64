import ToyMachine.Machine.Basic
import ToyMachine.Proofs.Digits
import ToyMachine.Proofs.NarrowWord
import ToyMachine.Proofs.Populated
import ToyMachine.Proofs.Text.Numeral

/-! Words as the operator types them and as the machine shows them. A token is a word exactly
when it has from one to all of the width's digits, letters in either case, perhaps behind one
prefix; and the word is the one that is shown with these digits as capitals behind zeros. What
is shown for a word is read as that word again, also in small letters, behind a prefix or
without the zeros in front. -/

namespace ToyMachine

open Text (Hex.IsDigit Hex.numeralValue)

def tokenFronts : List String :=
  ["", "0x", "0X"]

namespace Width

structure Types (w : Width) (digits : List Char) (token : String) : Prop where
  front : ∃ front ∈ tokenFronts, token = front ++ String.ofList digits
  present : digits ≠ []
  fits : digits.length ≤ w.wordDigits
  hex : ∀ c ∈ digits, Hex.IsDigit c

section Fronts

theorem exists_front (cs : List Char) :
    ∃ front ∈ tokenFronts, cs = front.toList ++ tokenDigits cs := by
  unfold tokenDigits
  split
  · exact ⟨"0x", by simp [tokenFronts], rfl⟩
  · exact ⟨"0X", by simp [tokenFronts], rfl⟩
  · exact ⟨"", by simp [tokenFronts], rfl⟩

/-- The second character of a prefix is no digit, so that digits alone have no prefix. -/
theorem tokenDigits_of_hex {digits : List Char} (hex : ∀ c ∈ digits, Hex.IsDigit c) :
    tokenDigits digits = digits := by
  unfold tokenDigits
  split
  · exact absurd (hex 'x' (by simp)) (by decide)
  · exact absurd (hex 'X' (by simp)) (by decide)
  · rfl

theorem tokenDigits_front {front : String} (among : front ∈ tokenFronts) {digits : List Char}
    (hex : ∀ c ∈ digits, Hex.IsDigit c) :
    tokenDigits (front ++ String.ofList digits).toList = digits := by
  rw [String.toList_append, String.toList_ofList]
  simp only [tokenFronts, List.mem_cons, List.not_mem_nil, or_false] at among
  rcases among with rfl | rfl | rfl
  · exact tokenDigits_of_hex hex
  · rfl
  · rfl

end Fronts

section Reading

variable {w : Width} {digits : List Char} {token : String} {v : Word}

theorem Types.tokenDigits_eq (h : w.Types digits token) : tokenDigits token.toList = digits := by
  obtain ⟨front, among, rfl⟩ := h.front
  exact tokenDigits_front among h.hex

theorem Types.readToken_eq (h : w.Types digits token) :
    w.readToken token = some (w.fit (BitVec.ofNat 32 (Hex.numeralValue digits))) := by
  have read := (Text.Hex.read?_eq_some_iff digits _).mpr ⟨h.present, h.hex, rfl⟩
  simp only [readToken, h.tokenDigits_eq, if_pos h.fits, read, Option.map_some]

theorem exists_types (h : w.readToken token = some v) : ∃ digits, w.Types digits token := by
  simp only [readToken] at h
  split at h
  · next fits =>
    obtain ⟨n, read, -⟩ := Option.map_eq_some_iff.mp h
    obtain ⟨present, hex, -⟩ := (Text.Hex.read?_eq_some_iff _ n).mp read
    obtain ⟨front, among, parts⟩ := exists_front token.toList
    refine ⟨_, ⟨front, among, ?_⟩, present, fits, hex⟩
    rw [← String.toList_inj, String.toList_append, String.toList_ofList]
    exact parts
  · exact absurd h (by simp)

theorem pattern_fit (w : Width) (v : Word) : w.pattern (w.fit v) = w.pattern v := by
  cases w with
  | narrow => rw [pattern, pattern, setWidth_fit]
  | wide => rfl

theorem fit_pattern (w : Width) (v : Word) : w.fit (w.pattern v) = w.fit v := by
  cases w with
  | narrow => rw [fit, fit, pattern, BitVec.setWidth_setWidth_of_le _ (by decide),
      BitVec.setWidth_eq]
  | wide => rfl

theorem toNat_pattern_ofNat {n : Nat} (bound : n < 2 ^ w.bits) :
    (w.pattern (BitVec.ofNat 32 n)).toNat = n := by
  cases w with
  | narrow =>
    simp only [bits] at bound
    simp only [pattern, BitVec.toNat_setWidth, BitVec.toNat_ofNat]
    omega
  | wide =>
    simp only [bits] at bound
    simp only [pattern, BitVec.toNat_ofNat]
    omega

theorem Types.hex_eq (h : w.Types digits token) :
    w.hex (w.fit (BitVec.ofNat 32 (Hex.numeralValue digits))) =
      String.ofList ((digits.map Char.toUpper).leftpad w.wordDigits '0') := by
  have small : Hex.numeralValue digits < 2 ^ w.bits := by
    rw [← w.reach_wordDigits]
    exact (Text.Hex.numeralValue_lt h.hex).trans_le (Nat.pow_le_pow_right (by decide) h.fits)
  rw [Width.hex, pattern_fit, toNat_pattern_ofNat small, Text.Hex.fixed_leftpad h.hex h.fits]

end Reading

section Showing

variable {w : Width} {v : Word} {zeros : Nat} {rest digits : List Char}

theorem digits_of_hex (shown : (w.hex v).toList = List.replicate zeros '0' ++ rest)
    (same : digits.map Char.toUpper = rest.map Char.toUpper) :
    digits.length ≤ w.wordDigits ∧ (∀ c ∈ digits, Hex.IsDigit c) ∧
      Hex.numeralValue digits = (w.pattern v).toNat := by
  have read := w.read?_digits v
  rw [Width.hex, String.toList_ofList] at shown
  have size := congrArg List.length shown
  have size' := congrArg List.length same
  rw [shown] at read
  obtain ⟨-, hex, value⟩ := (Text.Hex.read?_eq_some_iff _ _).mp read
  have own : ∀ c ∈ rest, Hex.IsDigit c := fun c member => hex c (List.mem_append_right _ member)
  obtain ⟨hex', value'⟩ := Text.Hex.numeralValue_of_toUpper own same
  refine ⟨?_, hex', ?_⟩
  · simp only [Text.Hex.fixed_length, List.length_append, List.length_map] at size size'
    omega
  · rw [value', value, Text.Hex.numeralValue_zeros]

theorem types_of_hex {front : String} (among : front ∈ tokenFronts)
    (shown : (w.hex v).toList = List.replicate zeros '0' ++ rest) (present : rest ≠ [])
    (same : digits.map Char.toUpper = rest.map Char.toUpper) :
    w.Types digits (front ++ String.ofList digits) := by
  obtain ⟨fits, hex, -⟩ := digits_of_hex shown same
  refine ⟨⟨front, among, rfl⟩, ?_, fits, hex⟩
  rintro rfl
  exact present (List.map_eq_nil_iff.mp same.symm)

theorem readToken_of_hex {front : String} (among : front ∈ tokenFronts)
    (shown : (w.hex v).toList = List.replicate zeros '0' ++ rest) (present : rest ≠ [])
    (same : digits.map Char.toUpper = rest.map Char.toUpper) :
    w.readToken (front ++ String.ofList digits) = some (w.fit v) := by
  rw [(types_of_hex among shown present same).readToken_eq, (digits_of_hex shown same).2.2,
    BitVec.ofNat_toNat, BitVec.setWidth_eq, fit_pattern]

theorem readToken_hex (w : Width) (v : Word) : w.readToken (w.hex v) = some (w.fit v) := by
  have present : (w.hex v).toList ≠ [] := by
    apply List.ne_nil_of_length_pos
    rw [Width.hex, String.toList_ofList, Text.Hex.fixed_length]
    exact w.wordDigits_pos
  have bare : "" ∈ tokenFronts := by simp [tokenFronts]
  have shown : (w.hex v).toList = List.replicate 0 '0' ++ (w.hex v).toList := rfl
  have read := readToken_of_hex bare shown present rfl
  rwa [String.ofList_toList, String.empty_append] at read

end Showing

end Width

namespace Machine

theorem afterWrite_console (w : Width) (m : Machine) :
    afterWrite w w.consoleAddress m =
      onConsole (Console.print (echoText w (m.memory.get w w.consoleCell))) m :=
  if_pos rfl

end Machine

namespace Width

/-- A token is a word exactly when it has from one to all of the width's digits, perhaps behind a
prefix, and the word is shown with the capitals of these digits behind zeros. What is shown for a
word, in any letter case, with any prefix and without any of the zeros in front but for the last
digit, is read as the part of the word that the width keeps. So the digits that the console shows
are read as the number beside them. -/
theorem readToken_inverts_hex (w : Width) :
    (∀ token, (∃ v, w.readToken token = some v) ↔ ∃ digits, w.Types digits token) ∧
    (∀ {token : String} {digits : List Char} {v : Word}, w.Types digits token →
      w.readToken token = some v →
      w.fit v = v ∧
        w.hex v = String.ofList ((digits.map Char.toUpper).leftpad w.wordDigits '0')) ∧
    (∀ (v : Word) (zeros : Nat) (rest digits : List Char), ∀ front ∈ tokenFronts,
      (w.hex v).toList = List.replicate zeros '0' ++ rest → rest ≠ [] →
      digits.map Char.toUpper = rest.map Char.toUpper →
      w.readToken (front ++ String.ofList digits) = some (w.fit v)) ∧
    ∀ m : Machine, ∃ v, Machine.afterWrite w w.consoleAddress m = Machine.onConsole (Console.print
        ("output: " ++ w.hex v ++ "(" ++ toString v.toInt ++ ")\n\n")) m ∧
      w.readToken (w.hex v) = some v := by
  refine ⟨fun token => ⟨?_, ?_⟩, ?_, ?_, fun m => ?_⟩
  · rintro ⟨v, read⟩
    exact exists_types read
  · rintro ⟨digits, types⟩
    exact ⟨_, types.readToken_eq⟩
  · intro token digits v types read
    obtain rfl := Option.some.inj (types.readToken_eq.symm.trans read)
    exact ⟨w.fit_fit _, types.hex_eq⟩
  · intro v zeros rest digits front among shown present same
    exact readToken_of_hex among shown present same
  · refine ⟨m.memory.get w w.consoleCell, Machine.afterWrite_console w m, ?_⟩
    rw [readToken_hex, Memory.fit_get]

/-- The word -2 in small letters, and the digits of a typed 42. -/
theorem readToken_inverts_hex_small :
    Width.narrow.readToken "0Xfffe" = some (-2) ∧
      Width.narrow.hex (Width.narrow.fit 0x2A) = "002A" := by
  have hex : ∀ c ∈ ['2', 'a'], Hex.IsDigit c :=
    List.forall_mem_cons.mpr ⟨by decide, List.forall_mem_singleton.mpr (by decide)⟩
  have typed : Width.narrow.Types ['2', 'a'] "0x2a" :=
    ⟨⟨"0x", by simp [tokenFronts], rfl⟩, by decide, by decide, hex⟩
  refine ⟨?_, ?_⟩
  · exact (readToken_inverts_hex .narrow).2.2.1 (-2) 0 "FFFE".toList "fffe".toList "0X"
      (by simp [tokenFronts]) (by decide) (by decide) (by decide)
  · exact ((readToken_inverts_hex .narrow).2.1 typed (by decide)).2

end Width

end ToyMachine
