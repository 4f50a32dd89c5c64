/-!
Numbers in hexadecimal. Writing uses capital letters, most significant digit
first, either with exactly `k` digits or with at least that many; reading takes
both letter cases and refuses everything that is not a digit, the empty text
included.
-/

namespace ToyMachine.Text.Hex

def digit (n : Nat) : Char :=
  if n < 10 then Char.ofNat (0x30 + n) else Char.ofNat (0x37 + n)

def digitValue? (c : Char) : Option Nat :=
  if '0' ≤ c ∧ c ≤ '9' then some (c.toNat - 0x30)
  else if 'A' ≤ c ∧ c ≤ 'F' then some (c.toNat - 0x37)
  else if 'a' ≤ c ∧ c ≤ 'f' then some (c.toNat - 0x57)
  else none

/-- The last `k` digits of `n`, zeros in front. -/
def fixed : Nat → Nat → List Char
  | 0, _ => []
  | k + 1, n => fixed k (n / 16) ++ [digit (n % 16)]

/-- How many digits `n` takes without zeros in front; zero itself takes one. -/
def length (n : Nat) : Nat :=
  n.log2 / 4 + 1

def padded (least n : Nat) : List Char :=
  fixed (max least (length n)) n

def number (n : Nat) : String :=
  String.ofList (padded 1 n)

def readFrom : Nat → List Char → Option Nat
  | n, [] => some n
  | n, c :: cs =>
    match digitValue? c with
    | some v => readFrom (16 * n + v) cs
    | none => none

def read? : List Char → Option Nat
  | [] => none
  | c :: cs => readFrom 0 (c :: cs)

@[simp] theorem fixed_length (k n : Nat) : (fixed k n).length = k := by
  induction k generalizing n with
  | zero => rfl
  | succ k ih => simp [fixed, ih]

private theorem digitValue_digit_all : ∀ n < 16, digitValue? (digit n) = some n := by decide

theorem digitValue_digit {n : Nat} (h : n < 16) : digitValue? (digit n) = some n :=
  digitValue_digit_all n h

theorem readFrom_append (n : Nat) (cs ds : List Char) :
    readFrom n (cs ++ ds) = (readFrom n cs).bind (readFrom · ds) := by
  induction cs generalizing n with
  | nil => rfl
  | cons c cs ih =>
    simp only [List.cons_append, readFrom]
    cases digitValue? c <;> simp [ih]

end ToyMachine.Text.Hex
