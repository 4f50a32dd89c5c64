import Mathlib.Data.List.Induction
import Mathlib.Data.Nat.Digits.Defs
import Mathlib.Tactic.Ring
import ToyMachine.Text.Pieces
import ToyMachine.Text.Hex

/-! Hexadecimal numerals. Reading accepts a text exactly when it has at least one character
and all of them are digits, in either letter case, and then gives the number whose digits to
the base sixteen they are. Written again, that number has the same digits, letters as capitals,
behind as many zeros as the place allows. -/

namespace ToyMachine.Text.Hex

def IsDigit (c : Char) : Prop :=
  ('0' ≤ c ∧ c ≤ '9') ∨ ('A' ≤ c ∧ c ≤ 'F') ∨ ('a' ≤ c ∧ c ≤ 'f')

instance (c : Char) : Decidable (IsDigit c) :=
  inferInstanceAs (Decidable (_ ∨ _))

def digitValue (c : Char) : Nat :=
  if c ≤ '9' then c.toNat - '0'.toNat
  else if c ≤ 'F' then c.toNat - 'A'.toNat + 10
  else c.toNat - 'a'.toNat + 10

/-- The number that a numeral stands for, its most significant digit first. -/
def numeralValue (digits : List Char) : Nat :=
  Nat.ofDigits 16 (digits.reverse.map digitValue)

@[simp] theorem numeralValue_nil : numeralValue [] = 0 := rfl

theorem numeralValue_cons (c : Char) (cs : List Char) :
    numeralValue (c :: cs) = 16 ^ cs.length * digitValue c + numeralValue cs := by
  rw [numeralValue, List.reverse_cons, List.map_append, Nat.ofDigits_append, List.map_cons,
    List.map_nil, Nat.ofDigits_singleton, List.length_map, List.length_reverse, Nat.add_comm,
    numeralValue]

theorem le_iff_toNat_le (c d : Char) : c ≤ d ↔ c.toNat ≤ d.toNat := Iff.rfl

theorem digitValue?_eq_some_iff (c : Char) (v : Nat) :
    digitValue? c = some v ↔ IsDigit c ∧ v = digitValue c := by
  simp only [digitValue?, IsDigit, digitValue, le_iff_toNat_le, Char.reduceToNat]
  generalize c.toNat = n
  split_ifs <;> simp only [Option.some.injEq, false_iff] <;> omega

theorem not_isDigit_of_digitValue? {c : Char} (h : digitValue? c = none) : ¬ IsDigit c := by
  intro digit
  have value := (digitValue?_eq_some_iff c _).mpr ⟨digit, rfl⟩
  exact absurd (h.symm.trans value) (by simp)

theorem readFrom_eq_some_iff (n v : Nat) (cs : List Char) :
    readFrom n cs = some v ↔
      (∀ c ∈ cs, IsDigit c) ∧ v = 16 ^ cs.length * n + numeralValue cs := by
  induction cs generalizing n with
  | nil => simp [readFrom, eq_comm]
  | cons c cs ih =>
    rw [readFrom, List.forall_mem_cons]
    cases read : digitValue? c with
    | none => simp [not_isDigit_of_digitValue? read]
    | some d =>
      obtain ⟨digit, rfl⟩ := (digitValue?_eq_some_iff c d).mp read
      have value : 16 ^ cs.length * (16 * n + digitValue c) + numeralValue cs =
          16 ^ (c :: cs).length * n + numeralValue (c :: cs) := by
        rw [numeralValue_cons, List.length_cons, pow_succ]
        ring
      simp only [ih, digit, true_and, value]

theorem read?_eq_some_iff (cs : List Char) (v : Nat) :
    read? cs = some v ↔ cs ≠ [] ∧ (∀ c ∈ cs, IsDigit c) ∧ v = numeralValue cs := by
  cases cs with
  | nil => simp [read?]
  | cons c cs => simp [read?, readFrom_eq_some_iff]

theorem lt_of_isDigit {c : Char} (h : IsDigit c) : c.toNat < 0x80 := by
  simp only [IsDigit, le_iff_toNat_le, Char.reduceToNat] at h
  omega

theorem utf8Size_of_isDigit {c : Char} (h : IsDigit c) : c.utf8Size = 1 := by
  rw [Char.utf8Size_eq_one_iff]
  exact Nat.le_of_lt_succ (lt_of_isDigit h)

theorem not_isBlank_of_isDigit {c : Char} (h : IsDigit c) : isBlank c = false := by
  simp only [IsDigit, le_iff_toNat_le, Char.reduceToNat] at h
  simp only [isBlank, Bool.or_eq_false_iff, Bool.and_eq_false_iff, decide_eq_false_iff_not,
    beq_eq_false_iff_ne]
  omega

section Capitals

theorem capital_all : ∀ n < 0x80, (IsDigit (Char.ofNat n).toUpper ↔ IsDigit (Char.ofNat n)) ∧
    (IsDigit (Char.ofNat n) → digitValue (Char.ofNat n) < 16 ∧
      digit (digitValue (Char.ofNat n)) = (Char.ofNat n).toUpper ∧
      digitValue (Char.ofNat n).toUpper = digitValue (Char.ofNat n)) := by
  decide

theorem digit_digitValue {c : Char} (h : IsDigit c) : digitValue c < 16 ∧
    digit (digitValue c) = c.toUpper ∧ digitValue c.toUpper = digitValue c := by
  have capital := (capital_all c.toNat (lt_of_isDigit h)).2
  rw [Char.ofNat_toNat] at capital
  exact capital h

theorem isDigit_toUpper_iff (c : Char) : IsDigit c.toUpper ↔ IsDigit c := by
  by_cases ascii : c.toNat < 0x80
  · have capital := (capital_all c.toNat ascii).1
    rwa [Char.ofNat_toNat] at capital
  · have beyond : ¬ ('a'.val ≤ c.val ∧ c.val ≤ 'z'.val) := by
      rintro ⟨-, upto⟩
      have upto : c.toNat ≤ 0x7A := upto
      omega
    have same : c.toUpper = c := dif_neg beyond
    rw [same]

theorem toUpper_toLower_all : ∀ n < 0x80,
    (Char.ofNat n).toLower.toUpper = (Char.ofNat n).toUpper := by
  decide

theorem toUpper_toLower (c : Char) : c.toLower.toUpper = c.toUpper := by
  by_cases ascii : c.toNat < 0x80
  · have cases_agree := toUpper_toLower_all c.toNat ascii
    rwa [Char.ofNat_toNat] at cases_agree
  · have beyond : ¬ ('A'.val ≤ c.val ∧ c.val ≤ 'Z'.val) := by
      rintro ⟨-, upto⟩
      have upto : c.toNat ≤ 0x5A := upto
      omega
    have same : c.toLower = c := dif_neg beyond
    rw [same]

theorem numeralValue_append_singleton (cs : List Char) (c : Char) :
    numeralValue (cs ++ [c]) = digitValue c + 16 * numeralValue cs := by
  rw [numeralValue, List.reverse_concat, List.map_cons, Nat.ofDigits_cons, numeralValue]

theorem fixed_numeralValue {digits : List Char} (hex : ∀ c ∈ digits, IsDigit c) :
    fixed digits.length (numeralValue digits) = digits.map Char.toUpper := by
  induction digits using List.reverseRecOn with
  | nil => rfl
  | append_singleton cs c ih =>
    have front : ∀ d ∈ cs, IsDigit d := fun d member => hex d (List.mem_append_left [c] member)
    obtain ⟨small, capital, -⟩ := digit_digitValue (hex c (by simp))
    have upper : (digitValue c + 16 * numeralValue cs) / 16 = numeralValue cs := by omega
    have lower : (digitValue c + 16 * numeralValue cs) % 16 = digitValue c := by omega
    rw [List.length_append, List.length_singleton, numeralValue_append_singleton, fixed, upper,
      lower, ih front, capital, List.map_append, List.map_singleton]

theorem numeralValue_lt {digits : List Char} (hex : ∀ c ∈ digits, IsDigit c) :
    numeralValue digits < 16 ^ digits.length := by
  induction digits with
  | nil => decide
  | cons c cs ih =>
    rw [List.forall_mem_cons] at hex
    have first := (digit_digitValue hex.1).1
    have rest := ih hex.2
    calc numeralValue (c :: cs)
        = 16 ^ cs.length * digitValue c + numeralValue cs := numeralValue_cons c cs
      _ < 16 ^ cs.length * (digitValue c + 1) := by rw [Nat.mul_succ]; omega
      _ ≤ 16 ^ cs.length * 16 := Nat.mul_le_mul_left _ first
      _ = 16 ^ (c :: cs).length := (pow_succ 16 cs.length).symm

theorem numeralValue_zeros (k : Nat) (digits : List Char) :
    numeralValue (List.replicate k '0' ++ digits) = numeralValue digits := by
  induction k with
  | zero => rfl
  | succ k ih =>
    have zero : digitValue '0' = 0 := rfl
    rw [List.replicate_succ, List.cons_append, numeralValue_cons, ih, zero, Nat.mul_zero,
      Nat.zero_add]

theorem numeralValue_toUpper {digits : List Char} (hex : ∀ c ∈ digits, IsDigit c) :
    numeralValue (digits.map Char.toUpper) = numeralValue digits := by
  induction digits with
  | nil => rfl
  | cons c cs ih =>
    rw [List.forall_mem_cons] at hex
    rw [List.map_cons, numeralValue_cons, numeralValue_cons, List.length_map, ih hex.2,
      (digit_digitValue hex.1).2.2]

theorem numeralValue_of_toUpper {digits digits' : List Char} (hex : ∀ c ∈ digits, IsDigit c)
    (same : digits'.map Char.toUpper = digits.map Char.toUpper) :
    (∀ c ∈ digits', IsDigit c) ∧ numeralValue digits' = numeralValue digits := by
  have hex' : ∀ c ∈ digits', IsDigit c := by
    intro c member
    have capital : c.toUpper ∈ digits.map Char.toUpper := same ▸ List.mem_map_of_mem member
    obtain ⟨d, among, eq⟩ := List.mem_map.mp capital
    rw [← isDigit_toUpper_iff, ← eq, isDigit_toUpper_iff]
    exact hex d among
  exact ⟨hex', by rw [← numeralValue_toUpper hex', same, numeralValue_toUpper hex]⟩

theorem fixed_leftpad {digits : List Char} (hex : ∀ c ∈ digits, IsDigit c) {k : Nat}
    (short : digits.length ≤ k) :
    fixed k (numeralValue digits) = (digits.map Char.toUpper).leftpad k '0' := by
  have zero : IsDigit '0' := by decide
  have filled : ∀ c ∈ List.replicate (k - digits.length) '0' ++ digits, IsDigit c := by
    intro c member
    rcases List.mem_append.mp member with front | own
    · rw [List.eq_of_mem_replicate front]
      exact zero
    · exact hex c own
  have size : (List.replicate (k - digits.length) '0' ++ digits).length = k := by
    rw [List.length_append, List.length_replicate]
    omega
  have written := fixed_numeralValue filled
  rw [size, numeralValue_zeros, List.map_append, List.map_replicate] at written
  rw [written, List.leftpad, List.length_map]
  rfl

end Capitals

end ToyMachine.Text.Hex
