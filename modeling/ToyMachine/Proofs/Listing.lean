import ToyMachine.Proofs.Populated
import ToyMachine.Proofs.Simulation

/-! Programs of the reference machine. A listing says which words are at which addresses; a machine
that is ready for it has them in memory, and no instruction but a store there takes that away. Then
one cycle at an address of the listing is known from the word that is listed, and a run of the
program is put together cycle by cycle. A state is written as updates of another with the counter
last, so that what an instruction leaves alone is what its updates do not name. -/

namespace ToyMachine.Reference

section Updates

variable (r : Reference) {d e : Fin 16}

theorem put_self : r.put d (r.registers d) = r := by
  rw [put, Function.update_eq_self]

theorem put_put (v u : BitVec 16) : (r.put d v).put d u = r.put d u := by
  simp only [put, Function.update_idem]

theorem put_comm (other : d ≠ e) (v u : BitVec 16) :
    (r.put d v).put e u = (r.put e u).put d v := by
  simp only [put, Function.update_comm other]

theorem put_of_eq {v : BitVec 16} (same : r.registers d = v) : r.put d v = r := by
  rw [← same, put_self]

theorem put_pair (other : d ≠ e) (v u v' u' : BitVec 16) :
    (((r.put d v).put e u).put d v').put e u' = (r.put d v').put e u' := by
  rw [put_comm _ other.symm, put_put, put_put]

end Updates

abbrev Listing := List (BitVec 8 × BitVec 16)

structure Ready (listing : Listing) (r : Reference) : Prop where
  narrow : r.width = .narrow
  running : r.halted = false
  zero : r.registers 0 = 0
  holds : ∀ p ∈ listing, r.memory p.1 = p.2

namespace Ready

variable {listing : Listing} {r : Reference} (ready : r.Ready listing)

include ready

theorem put {d : Fin 16} (other : d ≠ 0) (v : BitVec 16) : (r.put d v).Ready listing :=
  { ready with zero := (Function.update_of_ne other.symm _ _).trans ready.zero }

theorem store {address : BitVec 8} (unlisted : address ∉ listing.map Prod.fst) (v : BitVec 16) :
    (r.store address v).Ready listing := by
  refine { ready with holds := fun p member => ?_ }
  have other : p.1 ≠ address := fun same => unlisted (same ▸ List.mem_map_of_mem member)
  exact (Function.update_of_ne other _ _).trans (ready.holds p member)

end Ready

def carry (r : Reference) (typed w : BitVec 16) : Reference :=
  r.execute typed (nibble w 3).val (nibble w 2) (nibble w 1) (nibble w 0) (w == 0x0FFF)

def tells (r : Reference) (typed w : BitVec 16) : Option Event :=
  r.exchange typed (nibble w 3).val (nibble w 2) (nibble w 1) (nibble w 0)

theorem Ready.cycle {listing : Listing} {r r₁ r' : Reference} (ready : r.Ready listing)
    {pc : BitVec 8} {w typed : BitVec 16} (listed : (pc, w) ∈ listing)
    (does : (r.goTo pc).carry typed w = r₁) (zero : r₁.registers 0 = 0) {n : Nat}
    {log : List Event} (rest : Runs n r₁ log r') :
    Runs (n + 1) (r.goTo pc) (((r.goTo pc).tells typed w).toList ++ log) r' := by
  have low : (pc.setWidth 16).setWidth 8 = pc := by
    rw [BitVec.setWidth_setWidth_of_le _ (by omega), BitVec.setWidth_eq]
  have next : (r.goTo pc).word = w := by
    rw [word, goTo, low]
    exact ready.holds _ listed
  have step : (r.goTo pc).step typed = r₁ := by
    rw [← put_of_eq r₁ zero, ← does, ← next]
    rfl
  have event : (r.goTo pc).event? typed = (r.goTo pc).tells typed w := by
    rw [← next]
    rfl
  rw [← event]
  refine .cycle typed ready.narrow ready.running ?_
  rwa [step]

theorem Ready.quietly {listing : Listing} {r r₁ r' : Reference} (ready : r.Ready listing)
    {pc : BitVec 8} {w : BitVec 16} (listed : (pc, w) ∈ listing)
    (does : (r.goTo pc).carry 0 w = r₁) (silent : (r.goTo pc).tells 0 w = none)
    (zero : r₁.registers 0 = 0) {n : Nat} {log : List Event} (rest : Runs n r₁ log r') :
    Runs (n + 1) (r.goTo pc) log r' := by
  have runs := ready.cycle listed does zero rest
  rwa [silent] at runs

section Stored

def Listing.cells (listing : Listing) : List (Width.narrow.Cell × Word) :=
  listing.map fun p => (p.1.toFin, p.2.setWidth 32)

theorem view_setAll (memory : Memory) {listing : Listing} (once : (listing.map Prod.fst).Nodup) :
    ∀ p ∈ listing, view (memory.setAll .narrow listing.cells) p.1 = p.2 := by
  intro p member
  have distinct : (listing.cells.map Prod.fst).Nodup := by
    have cells : listing.cells.map Prod.fst = (listing.map Prod.fst).map BitVec.toFin := by
      rw [Listing.cells, List.map_map, List.map_map]
      rfl
    rw [cells]
    exact once.map fun _ _ same => BitVec.toFin_inj.mp same
  have stored : (p.1.toFin, p.2.setWidth 32) ∈ listing.cells := List.mem_map_of_mem member
  have found := memory.get_setAll_of_mem distinct stored
  change (Memory.get _ .narrow p.1.toFin).setWidth 16 = p.2
  rw [found, setWidth_fit, BitVec.setWidth_setWidth_of_le _ (by omega), BitVec.setWidth_eq]

end Stored

end ToyMachine.Reference
