import Mathlib.Algebra.Ring.Parity
import ToyMachine.Width

/-! Hexadecimal digits read back. Digits that were written for a number stand for what is
left of it below the power of sixteen that they reach, and the digits of a whole word
reach all of its bits. -/

namespace ToyMachine

namespace Text.Hex

theorem readFrom_fixed (k m n : Nat) :
    readFrom m (fixed k n) = some (16 ^ k * m + n % 16 ^ k) := by
  induction k generalizing n with
  | zero => simp [fixed, readFrom, Nat.mod_one]
  | succ k ih =>
    rw [fixed, readFrom_append, ih]
    simp only [Option.bind_some, readFrom, digitValue_digit (Nat.mod_lt n (by decide : 0 < 16))]
    congr 1
    rw [Nat.pow_succ', Nat.mod_mul, Nat.mul_assoc]
    omega

theorem read?_fixed {k : Nat} (positive : 0 < k) (n : Nat) :
    read? (fixed k n) = some (n % 16 ^ k) := by
  have length := fixed_length k n
  have value := readFrom_fixed k 0 n
  cases digits : fixed k n with
  | nil =>
    rw [digits, List.length_nil] at length
    omega
  | cons c cs =>
    rw [digits, Nat.mul_zero, Nat.zero_add] at value
    exact value

theorem fixed_inj {k m n : Nat} (hm : m < 16 ^ k) (hn : n < 16 ^ k)
    (same : fixed k m = fixed k n) : m = n := by
  have value := readFrom_fixed k 0 m
  rw [same, readFrom_fixed, Nat.mod_eq_of_lt hm, Nat.mod_eq_of_lt hn] at value
  simpa using value.symm

theorem padded_eq {least n : Nat} (positive : 0 < least) (bound : n < 16 ^ least) :
    padded least n = fixed least n := by
  have short : length n ≤ least := by
    rw [length]
    by_cases zero : n = 0
    · rw [zero, Nat.log2_zero]
      omega
    · have bits : n.log2 < 4 * least := by
        rw [Nat.log2_lt zero, Nat.pow_mul]
        exact bound
      omega
  rw [padded, Nat.max_eq_left short]

end Text.Hex

namespace Width

theorem wordDigits_pos (w : Width) : 0 < w.wordDigits := by cases w <;> decide

theorem addressDigits_pos (w : Width) : 0 < w.addressDigits := by cases w <;> decide

theorem reach_wordDigits (w : Width) : 16 ^ w.wordDigits = 2 ^ w.bits := by
  cases w <;> rfl

theorem reach_addressDigits (w : Width) : 16 ^ w.addressDigits = w.cells := by
  cases w <;> rfl

theorem pattern_lt (w : Width) (v : Word) : (w.pattern v).toNat < 2 ^ w.bits := by
  cases w with
  | narrow =>
    have low := (v.setWidth 16).isLt
    simp only [pattern, bits, BitVec.toNat_setWidth] at low ⊢
    omega
  | wide => exact v.isLt

theorem read?_digits (w : Width) (v : Word) :
    Text.Hex.read? (Text.Hex.fixed w.wordDigits (w.pattern v).toNat) =
      some (w.pattern v).toNat := by
  rw [Text.Hex.read?_fixed w.wordDigits_pos, reach_wordDigits, Nat.mod_eq_of_lt (w.pattern_lt v)]

theorem read?_addressDigits {w : Width} {n : Nat} (bound : n < w.cells) :
    Text.Hex.read? (Text.Hex.fixed w.addressDigits n) = some n := by
  rw [Text.Hex.read?_fixed w.addressDigits_pos, reach_addressDigits, Nat.mod_eq_of_lt bound]

theorem addressHex_eq {w : Width} {address : Address} (bound : address.toNat < w.cells) :
    w.addressHex address = String.ofList (Text.Hex.fixed w.addressDigits address.toNat) := by
  rw [← reach_addressDigits] at bound
  rw [addressHex, Text.Hex.padded_eq w.addressDigits_pos bound]

end Width

end ToyMachine
