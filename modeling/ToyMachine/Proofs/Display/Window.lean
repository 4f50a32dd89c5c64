import Mathlib.Tactic.SplitIfs
import ToyMachine.Display.Window
import ToyMachine.Proofs.Memory

/-! Windows near the ends of memory. A window is as long as was asked for, or all that can be
shown, and starts as near as these ends let it to where it would start without them. All of this
can be computed in words of 32 bits: no number on the way is too big for a word or below zero,
and the ends of the window are addresses. -/

namespace ToyMachine

/-- The last cell that a window may show. In the narrow view the console is behind it. -/
def Width.lastShown : Width → Nat
  | .narrow => 0xFE
  | .wide => 0xFFFF

theorem Width.windowTop_eq (w : Width) : w.windowTop = w.lastShown := by
  cases w <;> rfl

theorem Width.lastShown_lt (w : Width) : w.lastShown < w.cells := by
  rw [← windowTop_eq]
  exact w.windowTop_lt

namespace Window

section Clipping

variable (w : Width) (centre : Address) (half : Nat)

/-- A start below zero is cut by the subtraction, and one too high is moved down. -/
theorem around_first :
    (around w centre half).first = min (centre.toNat - half) (w.lastShown - 2 * half) := by
  rw [around, ← w.windowTop_eq]
  split_ifs <;> dsimp only <;> omega

theorem around_last : (around w centre half).last =
    (around w centre half).first + min (2 * half) w.lastShown := by
  rw [around, ← w.windowTop_eq]
  split_ifs <;> dsimp only <;> omega

theorem around_last_le : (around w centre half).last ≤ w.lastShown := by
  rw [around_last, around_first]
  omega

theorem around_contains : (around w centre half).first ≤ min centre.toNat w.lastShown ∧
    min centre.toNat w.lastShown ≤ (around w centre half).last := by
  rw [around_last, around_first]
  omega

theorem around_nearest {start : Nat} (inside : start + min (2 * half) w.lastShown ≤ w.lastShown)
    (other : start ≠ (around w centre half).first) :
    ((around w centre half).first - (centre.toNat - half : Int) : Int).natAbs <
      (start - (centre.toNat - half : Int) : Int).natAbs := by
  rw [around_first] at *
  omega

theorem around_unclipped (low : half ≤ centre.toNat) (high : centre.toNat + half ≤ w.lastShown) :
    (around w centre half).first = centre.toNat - half ∧
      (around w centre half).last = centre.toNat + half := by
  rw [around_last, around_first]
  omega

theorem around_first_mono {centre' : Address} (le : centre.toNat ≤ centre'.toNat) :
    (around w centre half).first ≤ (around w centre' half).first := by
  rw [around_first, around_first]
  omega

end Clipping

section Words

/-- A sum that is refused where a word does not hold it. The others are alike. -/
def sum? (a b : Word) : Option Word :=
  if a.uaddOverflow b then none else some (a + b)

def difference? (a b : Word) : Option Word :=
  if a.usubOverflow b then none else some (a - b)

def product? (a b : Word) : Option Word :=
  if a.umulOverflow b then none else some (a * b)

def address? (a : Word) : Option Address :=
  if (a.setWidth 16).setWidth 32 = a then some (a.setWidth 16) else none

def saturated (a b : Word) : Word :=
  if a.usubOverflow b then 0 else a - b

def top? : Width → Option Word
  | .narrow => difference? (Width.narrow.consoleAddress.setWidth 32) 1
  | .wide => some 0xFFFF

def ends? (w : Width) (centre half : BitVec 16) : Option (Address × Address) := do
  let top ← top? w
  let span ← product? 2 (half.setWidth 32)
  if top ≤ span then
    return (0, ← address? top)
  let start := saturated (centre.setWidth 32) (half.setWidth 32)
  let stop ← sum? start span
  if top < stop then
    return (← address? (← difference? top span), ← address? top)
  return (← address? start, ← address? stop)

variable (a b : Word)

theorem sum?_eq (fits : a.toNat + b.toNat < 0x100000000) :
    ∃ c, sum? a b = some c ∧ c.toNat = a.toNat + b.toNat := by
  refine ⟨a + b, ?_, ?_⟩
  · rw [sum?, if_neg]
    simp only [BitVec.uaddOverflow, decide_eq_true_eq]
    omega
  · rw [BitVec.toNat_add, Nat.mod_eq_of_lt fits]

theorem difference?_eq (fits : b.toNat ≤ a.toNat) :
    ∃ c, difference? a b = some c ∧ c.toNat = a.toNat - b.toNat := by
  refine ⟨a - b, ?_, BitVec.toNat_sub_of_le (BitVec.le_def.mpr fits)⟩
  rw [difference?, if_neg]
  simp only [BitVec.usubOverflow, decide_eq_true_eq]
  omega

theorem product?_eq (fits : a.toNat * b.toNat < 0x100000000) :
    ∃ c, product? a b = some c ∧ c.toNat = a.toNat * b.toNat := by
  refine ⟨a * b, ?_, ?_⟩
  · rw [product?, if_neg]
    simp only [BitVec.umulOverflow, decide_eq_true_eq]
    omega
  · rw [BitVec.toNat_mul, Nat.mod_eq_of_lt fits]

theorem saturated_eq : (saturated a b).toNat = a.toNat - b.toNat := by
  rw [saturated]
  split
  · next below =>
    simp only [BitVec.usubOverflow, decide_eq_true_eq] at below
    have zero : (0 : Word).toNat = 0 := rfl
    omega
  · next above =>
    simp only [BitVec.usubOverflow, decide_eq_true_eq] at above
    exact BitVec.toNat_sub_of_le (BitVec.le_def.mpr (Nat.le_of_not_lt above))

theorem address?_eq (fits : a.toNat < 0x10000) : ∃ c, address? a = some c ∧ c.toNat = a.toNat := by
  refine ⟨a.setWidth 16, ?_, ?_⟩
  · rw [address?, if_pos]
    apply BitVec.eq_of_toNat_eq
    simp only [BitVec.toNat_setWidth]
    omega
  · rw [BitVec.toNat_setWidth, Nat.mod_eq_of_lt fits]

theorem top?_eq (w : Width) : ∃ top, top? w = some top ∧ top.toNat = w.lastShown := by
  cases w with
  | narrow => exact ⟨0xFE, by decide, by decide⟩
  | wide => exact ⟨0xFFFF, by decide, by decide⟩

theorem ends?_eq (w : Width) (centre half : BitVec 16) :
    ∃ first last, ends? w centre half = some (first, last) ∧
      first.toNat = (around w centre half.toNat).first ∧
      last.toNat = (around w centre half.toNat).last := by
  have centre_lt := centre.isLt
  have half_lt := half.isLt
  have shown := w.lastShown_lt
  have cells := w.cells_le
  have centre_eq : (centre.setWidth 32).toNat = centre.toNat :=
    BitVec.toNat_setWidth_of_le (by decide)
  have half_eq : (half.setWidth 32).toNat = half.toNat := BitVec.toNat_setWidth_of_le (by decide)
  have two : (2 : Word).toNat * (half.setWidth 32).toNat = 2 * half.toNat := by
    rw [half_eq]
    rfl
  obtain ⟨top, top_some, top_eq⟩ := top?_eq w
  obtain ⟨last, last_some, last_eq⟩ := address?_eq top (by omega)
  obtain ⟨span, span_some, span_eq⟩ := product?_eq 2 (half.setWidth 32) (by omega)
  have start_eq := saturated_eq (centre.setWidth 32) (half.setWidth 32)
  rw [two] at span_eq
  rw [centre_eq, half_eq] at start_eq
  simp only [ends?, top_some, span_some, Option.bind_eq_bind, Option.bind_some]
  rw [around_last, around_first]
  generalize saturated (centre.setWidth 32) (half.setWidth 32) = start at start_eq ⊢
  by_cases long : top.toNat ≤ span.toNat
  · rw [if_pos (BitVec.le_def.mpr long), last_some]
    have zero : (0 : Address).toNat = 0 := rfl
    exact ⟨0, last, rfl, by omega, by omega⟩
  · rw [if_neg (fun le => long (BitVec.le_def.mp le))]
    obtain ⟨stop, stop_some, stop_eq⟩ := sum?_eq start span (by omega)
    simp only [stop_some, Option.bind_some]
    by_cases high : top.toNat < stop.toNat
    · obtain ⟨lower, lower_some, lower_eq⟩ := difference?_eq top span (by omega)
      obtain ⟨first, first_some, first_eq⟩ := address?_eq lower (by omega)
      rw [if_pos (BitVec.lt_def.mpr high), lower_some, last_some]
      simp only [Option.bind_some, first_some]
      exact ⟨first, last, rfl, by omega, by omega⟩
    · obtain ⟨first, first_some, first_eq⟩ := address?_eq start (by omega)
      obtain ⟨stopAddress, address_some, address_eq⟩ := address?_eq stop (by omega)
      rw [if_neg (fun lt => high (BitVec.lt_def.mp lt)), first_some, address_some]
      exact ⟨first, stopAddress, rfl, by omega, by omega⟩

end Words

theorem readable_of_shown (w : Width) {address : Address} (shown : address.toNat ≤ w.lastShown) :
    (∀ memory : Memory, ∃ v, memory.read w address = .ok v) ∧
      (w = .narrow → address ≠ w.consoleAddress) := by
  refine ⟨fun memory => ⟨_, memory.read_eq (Nat.lt_of_le_of_lt shown w.lastShown_lt)⟩, ?_⟩
  rintro rfl rfl
  exact absurd shown (by decide)

/-- A window lies within what can be shown and has twice the half on either side, or all that can
be shown. It has the centre in it, or the end that is nearer to it. Its start is nearer to where it
would be without the ends of memory than that of any other window of its length, and does not go
down when the centre goes up. Its cells can be read, and are not the narrow console. Computed in
words of 32 bits it is the same, with no word and no address too small for a number. -/
theorem around_clipped (w : Width) (centre half : BitVec 16) :
    let window := around w centre half.toNat
    let span := min (2 * half.toNat) w.lastShown
    window.first ≤ window.last ∧ window.last ≤ w.lastShown ∧ window.last - window.first = span ∧
    window.first ≤ min centre.toNat w.lastShown ∧ min centre.toNat w.lastShown ≤ window.last ∧
    (∀ start : Nat, start + span ≤ w.lastShown → start ≠ window.first →
      (window.first - (centre.toNat - half.toNat : Int) : Int).natAbs <
        (start - (centre.toNat - half.toNat : Int) : Int).natAbs) ∧
    (half.toNat ≤ centre.toNat → centre.toNat + half.toNat ≤ w.lastShown →
      window.first = centre.toNat - half.toNat ∧ window.last = centre.toNat + half.toNat) ∧
    (∀ centre' : Address, centre.toNat ≤ centre'.toNat →
      window.first ≤ (around w centre' half.toNat).first) ∧
    (∀ address : Address, window.first ≤ address.toNat → address.toNat ≤ window.last →
      (∀ memory : Memory, ∃ v, memory.read w address = .ok v) ∧
        (w = .narrow → address ≠ w.consoleAddress)) ∧
    ∃ first last, ends? w centre half = some (first, last) ∧
      first.toNat = window.first ∧ last.toNat = window.last := by
  intro window span
  have length : window.last = window.first + span := around_last w centre half.toNat
  have top : window.last ≤ w.lastShown := around_last_le w centre half.toNat
  have contains := around_contains w centre half.toNat
  refine ⟨window.first_le_last, top, by omega, contains.1, contains.2, ?_, ?_, ?_, ?_, ?_⟩
  · intro start inside other
    exact around_nearest w centre half.toNat inside other
  · exact around_unclipped w centre half.toNat
  · intro centre' le
    exact around_first_mono w centre half.toNat le
  · intro address _ upto
    exact readable_of_shown w (Nat.le_trans upto top)
  · exact ends?_eq w centre half

/-- Around a cell that the narrow width does not have the window is the topmost one. -/
theorem around_clipped_beyond :
    ((around .narrow 0xFFFF 6).first - (0xFFFF - 6 : Int) : Int).natAbs <
        ((0xF1 : Nat) - (0xFFFF - 6 : Int) : Int).natAbs ∧
      (around .narrow 0xFA 6).first ≤ (around .narrow 0xFFFF 6).first ∧
      ((∀ memory : Memory, ∃ v, memory.read .narrow 0xFE = .ok v) ∧
        (Width.narrow = .narrow → (0xFE : Address) ≠ Width.narrow.consoleAddress)) ∧
      (around .wide 0xFFFD 2).first = 0xFFFB ∧ (around .wide 0xFFFD 2).last = 0xFFFF := by
  obtain ⟨-, -, -, -, -, nearest, -, -, readable, -⟩ := around_clipped .narrow 0xFFFF 6
  obtain ⟨-, -, -, -, -, -, -, mono, -, -⟩ := around_clipped .narrow 0xFA 6
  obtain ⟨-, -, -, -, -, -, unclipped, -, -, -⟩ := around_clipped .wide 0xFFFD 2
  exact ⟨nearest 0xF1 (by decide) (by decide), mono 0xFFFF (by decide),
    readable 0xFE (by decide) (by decide), unclipped (by decide) (by decide)⟩

end Window

end ToyMachine
