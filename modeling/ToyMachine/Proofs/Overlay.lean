import ToyMachine.Proofs.Memory
import ToyMachine.Proofs.NarrowWord
import ToyMachine.Proofs.Populated

/-! The two views over one row of bytes. A store through either view changes the cells, of
either view, that have a byte in common with the cell it goes to, and no others. The first
128 wide cells are pairs of narrow ones, the lower half first, so a store through one view
is seen through the other as a change of one half or of two cells; the wide cells after
those have no byte that the narrow view reaches. -/

namespace ToyMachine

namespace Memory

def Overlap {w w' : Width} (c : w.Cell) (d : w'.Cell) : Prop :=
  ∃ k, k / w.cellBytes = c.val ∧ k / w'.cellBytes = d.val

theorem get_set_of_apart (m : Memory) {w w' : Width} {c : w.Cell} {d : w'.Cell}
    (apart : ¬ Overlap c d) (v : Word) : (m.set w c v).get w' d = m.get w' d := by
  apply get_congr
  intro k h inside
  exact m.set_sameOutside w c v k h fun own => apart ⟨k, own, inside⟩

theorem overlap_narrow_wide {a : Width.narrow.Cell} {n : Width.wide.Cell} :
    Overlap a n ↔ a.val / 2 = n.val := by
  simp only [Overlap, Width.cellBytes]
  constructor
  · rintro ⟨k, own, other⟩
    omega
  · intro same
    exact ⟨2 * a.val, by omega, by omega⟩

theorem overlap_comm {w w' : Width} {c : w.Cell} {d : w'.Cell} : Overlap c d ↔ Overlap d c := by
  simp only [Overlap, and_comm]

section Pairs

/-- The wide cell that lies under the narrow cells `2n` and `2n+1`. -/
def pair (n : Fin 0x80) : Width.wide.Cell :=
  ⟨n.val, Nat.lt_trans n.isLt (by decide)⟩

def lower (n : Fin 0x80) : Width.narrow.Cell :=
  ⟨2 * n.val, by have := n.isLt; change _ < 0x100; omega⟩

def upper (n : Fin 0x80) : Width.narrow.Cell :=
  ⟨2 * n.val + 1, by have := n.isLt; change _ < 0x100; omega⟩

variable (m : Memory) (n : Fin 0x80)

theorem get_pair : m.get .wide (pair n) =
    (m.get .narrow (upper n)).setWidth 16 ++ (m.get .narrow (lower n)).setWidth 16 := by
  have first : 2 * (2 * n.val) = 4 * n.val := by omega
  have second : 2 * (2 * n.val + 1) = 4 * n.val + 2 := by omega
  simp only [get, pair, upper, lower, Width.setWidth_signExtend, first, second]

theorem low_get_pair :
    (m.get .wide (pair n)).extractLsb' 0 16 = (m.get .narrow (lower n)).setWidth 16 := by
  rw [get_pair, BitVec.extractLsb'_append_eq_right]

theorem high_get_pair :
    (m.get .wide (pair n)).extractLsb' 16 16 = (m.get .narrow (upper n)).setWidth 16 := by
  rw [get_pair, BitVec.extractLsb'_append_eq_left]

/-- Without signs, a wide cell is the number whose low and high digits to the base 65536 are
its two narrow cells. -/
theorem pattern_get_pair : (Width.wide.pattern (m.get .wide (pair n))).toNat =
    (Width.narrow.pattern (m.get .narrow (lower n))).toNat +
      65536 * (Width.narrow.pattern (m.get .narrow (upper n))).toNat := by
  have low := ((m.get .narrow (lower n)).setWidth 16).isLt
  have digits (x : BitVec 16) : (x.setWidth 32).toNat = x.toNat :=
    BitVec.toNat_setWidth_of_le (by omega)
  simp only [Width.pattern, digits]
  rw [get_pair, BitVec.toNat_append, ← Nat.shiftLeft_add_eq_or_of_lt low, Nat.shiftLeft_eq]
  omega

theorem set_lower (v : Word) :
    ((m.set .narrow (lower n) v).get .wide (pair n)).extractLsb' 0 16 = v.setWidth 16 ∧
      ((m.set .narrow (lower n) v).get .wide (pair n)).extractLsb' 16 16 =
        (m.get .wide (pair n)).extractLsb' 16 16 := by
  have other : lower n ≠ upper n := by simp [lower, upper]
  constructor
  · rw [low_get_pair, get_set_self, setWidth_fit]
  · rw [high_get_pair, high_get_pair, get_set_of_ne _ _ other]

theorem set_upper (v : Word) :
    ((m.set .narrow (upper n) v).get .wide (pair n)).extractLsb' 16 16 = v.setWidth 16 ∧
      ((m.set .narrow (upper n) v).get .wide (pair n)).extractLsb' 0 16 =
        (m.get .wide (pair n)).extractLsb' 0 16 := by
  have other : upper n ≠ lower n := by simp [lower, upper]
  constructor
  · rw [high_get_pair, get_set_self, setWidth_fit]
  · rw [low_get_pair, low_get_pair, get_set_of_ne _ _ other]

theorem set_pair (v : Word) :
    (m.set .wide (pair n) v).get .narrow (lower n) = Width.narrow.fit v ∧
      (m.set .wide (pair n) v).get .narrow (upper n) = Width.narrow.fit (v >>> 16) := by
  have whole : (m.set .wide (pair n) v).get .wide (pair n) = v := get_set_self _ _ _ _
  constructor
  · have low := low_get_pair (m.set .wide (pair n) v) n
    rw [whole] at low
    rw [← fit_get, Width.fit, ← low]
    rfl
  · have high := high_get_pair (m.set .wide (pair n) v) n
    rw [whole] at high
    rw [← fit_get, Width.fit, ← high]
    rfl

end Pairs

section Bytes

theorem byte_half (m : Memory) {offset : Nat} (h : offset + 1 < 0x40000) {k : Nat} (hk : k < 2) :
    (m.half offset h).extractLsb' (8 * k) 8 = m.bytes[offset + k] := by
  obtain rfl | rfl : k = 0 ∨ k = 1 := by omega
  · exact BitVec.extractLsb'_append_eq_right
  · exact BitVec.extractLsb'_append_eq_left

theorem extractLsb'_signExtend (x : BitVec 16) {low : Nat} (h : low + 8 ≤ 16) :
    (x.signExtend 32).extractLsb' low 8 = x.extractLsb' low 8 := by
  ext i hi
  simp only [BitVec.getElem_extractLsb', BitVec.getLsbD_signExtend]
  simp [show low + i < 32 by omega, show low + i < 16 by omega]

theorem byte_get (m : Memory) (w : Width) (c : w.Cell) {k : Nat} (h : k < w.cellBytes) :
    ∃ inside : w.cellBytes * c.val + k < 0x40000,
      m.bytes[w.cellBytes * c.val + k] = (m.get w c).extractLsb' (8 * k) 8 := by
  cases w with
  | narrow =>
    have bound : c.val < 0x100 := c.isLt
    simp only [Width.cellBytes] at h ⊢
    refine ⟨by omega, ?_⟩
    rw [get, extractLsb'_signExtend _ (by omega), byte_half _ _ h]
  | wide =>
    have bound : c.val < 0x10000 := c.isLt
    simp only [Width.cellBytes] at h ⊢
    refine ⟨by omega, ?_⟩
    rw [get]
    by_cases low : k < 2
    · rw [BitVec.extractLsb'_append_eq_of_add_le (by omega), byte_half _ _ low]
    · have split : 8 * k - 16 = 8 * (k - 2) := by omega
      have place : 4 * c.val + 2 + (k - 2) = 4 * c.val + k := by omega
      rw [BitVec.extractLsb'_append_eq_of_le (by omega), split, byte_half _ _ (by omega)]
      simp only [place]

theorem eq_of_get {m m' : Memory} {w : Width} {c : w.Cell} (cell : m'.get w c = m.get w c)
    (outside : m.SameOutside w c m') : m' = m := by
  apply eq_of_bytes
  intro k h
  by_cases own : k / w.cellBytes = c.val
  · have positive : 0 < w.cellBytes := by cases w <;> decide
    have place : w.cellBytes * c.val + k % w.cellBytes = k := by
      rw [← own]
      exact Nat.div_add_mod k w.cellBytes
    obtain ⟨inside, word⟩ := m.byte_get w c (Nat.mod_lt k positive)
    obtain ⟨inside', word'⟩ := m'.byte_get w c (Nat.mod_lt k positive)
    rw [cell, ← word] at word'
    simpa only [place] using word'
  · exact outside k h own

theorem SameOutside.set_eq {m m' : Memory} {w : Width} {c : w.Cell} (same : m.SameOutside w c m')
    (v : Word) : m'.set w c v = m.set w c v := by
  apply eq_of_get
  · rw [get_set_self, get_set_self]
  · intro k h outside
    rw [m'.set_sameOutside w c v k h outside, m.set_sameOutside w c v k h outside,
      same k h outside]

end Bytes

structure Write where
  width : Width
  address : Address
  value : Word

def Write.InRange (x : Write) : Prop := x.address.toNat < x.width.cells

def Write.Apart (x : Write) (w : Width) (address : Address) : Prop :=
  ∀ k, k / x.width.cellBytes = x.address.toNat → k / w.cellBytes ≠ address.toNat

/-- The memory after a write; one that is refused leaves it as it is. -/
def after (m : Memory) (x : Write) : Memory :=
  match m.write x.width x.address x.value with
  | .ok m' => m'
  | .error _ => m

def afterAll (m : Memory) (history : List Write) : Memory :=
  history.foldl after m

section Histories

variable (m : Memory) {x : Write}

theorem write_of_inRange (h : x.InRange) :
    m.after x = m.set x.width ⟨x.address.toNat, h⟩ x.value ∧
      m.write x.width x.address x.value = .ok (m.after x) := by
  have stored := m.write_eq h x.value
  have result : m.after x = m.set x.width ⟨x.address.toNat, h⟩ x.value := by rw [after, stored]
  exact ⟨result, by rw [result, stored]⟩

theorem write_of_not_inRange (h : ¬ x.InRange) :
    m.after x = m ∧
      m.write x.width x.address x.value = .error ⟨x.width, x.address.toNat⟩ := by
  have refused : m.write x.width x.address x.value = .error ⟨x.width, x.address.toNat⟩ := by
    have missing : ¬ x.address.toNat < x.width.cells := h
    rw [write, Width.cell?, dif_neg missing]
    rfl
  exact ⟨by rw [after, refused], refused⟩

theorem read_of_missing {w : Width} {address : Address} (h : ¬ address.toNat < w.cells) :
    m.read w address = .error ⟨w, address.toNat⟩ := by
  rw [read, Width.cell?, dif_neg h]
  rfl

theorem read_after_self (h : x.InRange) :
    (m.after x).read x.width x.address = .ok (x.width.fit x.value) := by
  rw [(m.write_of_inRange h).1, read_eq _ h, get_set_self]

theorem read_after_of_apart {w : Width} {address : Address} (apart : x.Apart w address) :
    (m.after x).read w address = m.read w address := by
  by_cases h : x.InRange
  · rw [(m.write_of_inRange h).1]
    by_cases bound : address.toNat < w.cells
    · have distinct : ¬ Overlap (⟨x.address.toNat, h⟩ : x.width.Cell)
          (⟨address.toNat, bound⟩ : w.Cell) := by
        rintro ⟨k, own, other⟩
        exact apart k own other
      rw [read_eq _ bound, read_eq _ bound, get_set_of_apart _ distinct]
    · rw [read_of_missing _ bound, read_of_missing _ bound]
  · rw [(m.write_of_not_inRange h).1]

theorem Write.apart_of_ne {address : Address} (other : address ≠ x.address) :
    x.Apart x.width address := by
  intro k own named
  exact other (BitVec.eq_of_toNat_eq (named.symm.trans own))

theorem read_afterAll_of_apart {w : Width} {address : Address} {history : List Write}
    (apart : ∀ x ∈ history, x.Apart w address) :
    (m.afterAll history).read w address = m.read w address := by
  induction history generalizing m with
  | nil => rfl
  | cons x history ih =>
    rw [List.forall_mem_cons] at apart
    rw [afterAll, List.foldl_cons, ← afterAll, ih _ apart.2, read_after_of_apart _ apart.1]

theorem read_afterAll (h : x.InRange) (earlier : List Write) {later : List Write}
    (apart : ∀ y ∈ later, y.Apart x.width x.address) :
    (m.afterAll (earlier ++ x :: later)).read x.width x.address = .ok (x.width.fit x.value) := by
  have last : m.afterAll (earlier ++ x :: later) =
      ((m.afterAll earlier).after x).afterAll later := by
    simp only [afterAll, List.foldl_append, List.foldl_cons]
  rw [last, read_afterAll_of_apart _ apart, read_after_self _ h]

end Histories

/-- A write by address: it goes well exactly if the view has the address, and then the view
sees the word there and nothing else changed; one that is refused changes nothing. -/
structure Write.Law (m : Memory) (x : Write) : Prop where
  accepted : (∃ m', m.write x.width x.address x.value = .ok m') ↔ x.InRange
  refused : ¬ x.InRange → m.after x = m ∧
    m.write x.width x.address x.value = .error ⟨x.width, x.address.toNat⟩
  stored : x.InRange → m.write x.width x.address x.value = .ok (m.after x) ∧
    (m.after x).read x.width x.address = .ok (x.width.fit x.value)
  elsewhere : ∀ other, other ≠ x.address →
    (m.after x).read x.width other = m.read x.width other

theorem Write.law (m : Memory) (x : Write) : x.Law m where
  accepted := ⟨fun ⟨_, stored⟩ => (write_ok stored).1, fun h => ⟨_, (m.write_of_inRange h).2⟩⟩
  refused := m.write_of_not_inRange
  stored h := ⟨(m.write_of_inRange h).2, m.read_after_self h⟩
  elsewhere _ different := m.read_after_of_apart (apart_of_ne different)

/-- What the wide view sees of a store to a narrow cell: half a cell. -/
structure SeenWide (m : Memory) (a : Width.narrow.Cell) (v : Word) : Prop where
  low : ∀ n : Fin 0x80, a = lower n →
    ((m.set .narrow a v).get .wide (pair n)).extractLsb' 0 16 = v.setWidth 16 ∧
      ((m.set .narrow a v).get .wide (pair n)).extractLsb' 16 16 =
        (m.get .wide (pair n)).extractLsb' 16 16
  high : ∀ n : Fin 0x80, a = upper n →
    ((m.set .narrow a v).get .wide (pair n)).extractLsb' 16 16 = v.setWidth 16 ∧
      ((m.set .narrow a v).get .wide (pair n)).extractLsb' 0 16 =
        (m.get .wide (pair n)).extractLsb' 0 16
  elsewhere : ∀ n : Width.wide.Cell, n.val ≠ a.val / 2 →
    (m.set .narrow a v).get .wide n = m.get .wide n

theorem seenWide (m : Memory) (a : Width.narrow.Cell) (v : Word) : m.SeenWide a v where
  low := by
    rintro n rfl
    exact m.set_lower n v
  high := by
    rintro n rfl
    exact m.set_upper n v
  elsewhere := by
    intro n other
    apply m.get_set_of_apart
    rw [overlap_narrow_wide]
    exact other.symm

/-- What the narrow view sees of a store to a wide cell: two cells, or none. -/
structure SeenNarrow (m : Memory) (n : Width.wide.Cell) (v : Word) : Prop where
  halves : ∀ k : Fin 0x80, n = pair k →
    (m.set .wide n v).get .narrow (lower k) = Width.narrow.fit v ∧
      (m.set .wide n v).get .narrow (upper k) = Width.narrow.fit (v >>> 16)
  elsewhere : ∀ a : Width.narrow.Cell, a.val ≠ 2 * n.val → a.val ≠ 2 * n.val + 1 →
    (m.set .wide n v).get .narrow a = m.get .narrow a
  beyond : 0x80 ≤ n.val → ∀ a, (m.set .wide n v).get .narrow a = m.get .narrow a

theorem seenNarrow (m : Memory) (n : Width.wide.Cell) (v : Word) : m.SeenNarrow n v := by
  have unreached {a : Width.narrow.Cell} (other : a.val / 2 ≠ n.val) :
      (m.set .wide n v).get .narrow a = m.get .narrow a := by
    apply m.get_set_of_apart
    rwa [overlap_comm, overlap_narrow_wide]
  refine ⟨?_, ?_, ?_⟩
  · rintro k rfl
    exact m.set_pair k v
  · intro a low high
    exact unreached (by omega)
  · intro far a
    have bound : a.val < 0x100 := a.isLt
    exact unreached (by omega)

structure Placed (m : Memory) (w : Width) (c : w.Cell) : Prop where
  bytes : ∀ k < w.cellBytes, ∃ inside : w.cellBytes * c.val + k < 0x40000,
    m.bytes[w.cellBytes * c.val + k] = (m.get w c).extractLsb' (8 * k) 8
  outside : ∀ v, m.SameOutside w c (m.set w c v)

/-- What holds of memory after any writes, some of which may have been refused, and of the
next one. -/
theorem views_overlay (initial : Memory) (history : List Write) :
    let m := initial.afterAll history
    (∀ x : Write, x.Law m) ∧
    (∀ n : Fin 0x80, (Width.wide.pattern (m.get .wide (pair n))).toNat =
      (Width.narrow.pattern (m.get .narrow (lower n))).toNat +
        65536 * (Width.narrow.pattern (m.get .narrow (upper n))).toNat) ∧
    (∀ (a : Width.narrow.Cell) (v : Word), m.SeenWide a v) ∧
    (∀ (n : Width.wide.Cell) (v : Word), m.SeenNarrow n v) ∧
    (∀ (w : Width) (c : w.Cell), m.Placed w c) ∧
    (∀ (w : Width) (address : Address),
      if inside : address.toNat < w.cells then
        m.read w address = .ok (m.get w ⟨address.toNat, inside⟩)
      else m.read w address = .error ⟨w, address.toNat⟩) ∧
    ∀ earlier x later, history = earlier ++ x :: later → x.InRange →
      (∀ y ∈ later, y.Apart x.width x.address) →
      m.read x.width x.address = .ok (x.width.fit x.value) := by
  intro m
  refine ⟨fun x => x.law m, m.pattern_get_pair, m.seenWide, m.seenNarrow, ?_, ?_, ?_⟩
  · intro w c
    exact ⟨fun k h => m.byte_get w c h, m.set_sameOutside w c⟩
  · intro w address
    split
    · next inside => exact m.read_eq inside
    · next missing => exact m.read_of_missing missing
  · rintro earlier x later rfl h apart
    exact initial.read_afterAll h earlier apart

end Memory

end ToyMachine
