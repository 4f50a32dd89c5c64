import Mathlib.Data.List.FinRange
import Mathlib.Data.List.Perm.Basic
import ToyMachine.Proofs.Memory

/-! The populated cells of a view. They are listed once each and in order, and storing them
over zeroed memory, in any order, gives the view back, because no two of them share a byte. -/

namespace ToyMachine.Memory

variable {w : Width}

theorem mem_populated_iff (m : Memory) (c : w.Cell) (v : Word) :
    (c, v) ∈ m.populated w ↔ m.get w c = v ∧ v ≠ 0 := by
  simp only [populated, List.mem_filterMap, List.mem_finRange, true_and]
  constructor
  · rintro ⟨d, h⟩
    split at h
    · simp at h
    · next nonzero =>
      cases h
      exact ⟨rfl, nonzero⟩
  · rintro ⟨rfl, nonzero⟩
    exact ⟨c, if_neg nonzero⟩

theorem populated_pairwise (m : Memory) (w : Width) :
    (m.populated w).Pairwise fun a b => a.1 < b.1 := by
  rw [populated, List.pairwise_filterMap]
  refine (List.pairwise_lt_finRange w.cells).imp ?_
  intro c d lt a first b second
  simp only [Option.ite_none_left_eq_some, Option.some.injEq] at first second
  obtain ⟨-, rfl⟩ := first
  obtain ⟨-, rfl⟩ := second
  exact lt

theorem populated_nodup (m : Memory) (w : Width) : ((m.populated w).map Prod.fst).Nodup := by
  rw [List.Nodup, List.pairwise_map]
  exact (m.populated_pairwise w).imp ne_of_lt

def setAll (m : Memory) (w : Width) (entries : List (w.Cell × Word)) : Memory :=
  entries.foldl (fun m e => m.set w e.1 e.2) m

section SetAll

variable (m : Memory) {entries : List (w.Cell × Word)} {c : w.Cell}

theorem get_setAll_of_notMem (absent : c ∉ entries.map Prod.fst) :
    (m.setAll w entries).get w c = m.get w c := by
  induction entries generalizing m with
  | nil => rfl
  | cons e entries ih =>
    rw [List.map_cons, List.mem_cons, not_or] at absent
    rw [setAll, List.foldl_cons, ← setAll, ih _ absent.2]
    exact m.get_set_of_ne w (Ne.symm absent.1) e.2

theorem get_setAll_of_mem (once : (entries.map Prod.fst).Nodup) {v : Word}
    (member : (c, v) ∈ entries) : (m.setAll w entries).get w c = w.fit v := by
  induction entries generalizing m with
  | nil => simp at member
  | cons e entries ih =>
    rw [List.map_cons, List.nodup_cons] at once
    rw [setAll, List.foldl_cons, ← setAll]
    rcases List.mem_cons.mp member with rfl | later
    · rw [get_setAll_of_notMem _ once.1]
      exact m.get_set_self w c v
    · exact ih _ once.2 later

theorem bytes_setAll_of_beyond {k : Nat} (h : k < 0x40000) (beyond : w.cells ≤ k / w.cellBytes) :
    (m.setAll w entries).bytes[k] = m.bytes[k] := by
  induction entries generalizing m with
  | nil => rfl
  | cons e entries ih =>
    have outside : k / w.cellBytes ≠ e.1.val := by
      have := e.1.isLt
      omega
    rw [setAll, List.foldl_cons, ← setAll, ih]
    exact m.set_sameOutside w e.1 e.2 k h outside

end SetAll

theorem fit_get (m : Memory) (w : Width) (c : w.Cell) : w.fit (m.get w c) = m.get w c := by
  cases w with
  | narrow => rw [get, Width.fit, Width.setWidth_signExtend]
  | wide => rfl

theorem get_setAll_populated (m : Memory) {entries : List (w.Cell × Word)}
    (dumped : entries.Perm (m.populated w)) (c : w.Cell) :
    (zeroed.setAll w entries).get w c = m.get w c := by
  have once : (entries.map Prod.fst).Nodup :=
    (dumped.map Prod.fst).nodup_iff.mpr (m.populated_nodup w)
  by_cases zero : m.get w c = 0
  · have absent : c ∉ entries.map Prod.fst := by
      rw [List.mem_map]
      rintro ⟨⟨d, v⟩, member, rfl⟩
      obtain ⟨rfl, nonzero⟩ := (m.mem_populated_iff d v).mp (dumped.mem_iff.mp member)
      exact nonzero zero
    rw [get_setAll_of_notMem _ absent, zero]
    exact get_zeroed w c
  · have member : (c, m.get w c) ∈ entries :=
      dumped.mem_iff.mpr ((m.mem_populated_iff c _).mpr ⟨rfl, zero⟩)
    rw [get_setAll_of_mem _ once member, fit_get]

theorem perm_populated_setAll {entries : List (w.Cell × Word)}
    (once : (entries.map Prod.fst).Nodup) (kept : ∀ e ∈ entries, w.fit e.2 = e.2 ∧ e.2 ≠ 0) :
    entries.Perm ((zeroed.setAll w entries).populated w) := by
  have once' := (populated_nodup (zeroed.setAll w entries) w).of_map
  refine (List.perm_ext_iff_of_nodup once.of_map once').mpr ?_
  rintro ⟨c, v⟩
  rw [mem_populated_iff]
  constructor
  · intro member
    rw [get_setAll_of_mem _ once member]
    exact kept _ member
  · rintro ⟨rfl, nonzero⟩
    by_cases stored : c ∈ entries.map Prod.fst
    · obtain ⟨⟨d, u⟩, member, rfl⟩ := List.mem_map.mp stored
      rw [get_setAll_of_mem _ once member, (kept _ member).1]
      exact member
    · rw [get_setAll_of_notMem _ stored, get_zeroed] at nonzero
      exact absurd rfl nonzero

end ToyMachine.Memory
