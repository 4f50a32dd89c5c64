import ToyMachine.Machine.Processor

/-! What the updates of a processor leave alone: marks touch nothing but marks, a register
is written without a look at the counter, and moving the counter keeps registers, marks, width
and the halt. -/

namespace ToyMachine

namespace Processor

def register (cpu : Processor) (r : Fin 16) : Word :=
  cpu.registers.get r

variable (cpu : Processor)

theorem register_setRegister (d r : Fin 16) (v : Word) :
    (cpu.setRegister d v).register r = if d = r then cpu.width.fit v else cpu.register r := by
  by_cases same : d = r
  · rw [if_pos same, ← same]
    exact Vector.getElem_set_self d.isLt
  · have other : d.val ≠ r.val := fun e => same (Fin.ext e)
    rw [if_neg same]
    exact Vector.getElem_set_ne d.isLt r.isLt other

section Width

@[simp] theorem width_markMemoryRead (address : Address) :
    (cpu.markMemoryRead address).width = cpu.width := rfl

@[simp] theorem width_markMemoryWritten (address : Address) :
    (cpu.markMemoryWritten address).width = cpu.width := by
  unfold markMemoryWritten
  split <;> rfl

@[simp] theorem width_setRegister (r : Fin 16) (v : Word) :
    (cpu.setRegister r v).width = cpu.width := rfl

@[simp] theorem width_movePc (target : Address) (endOfCycle : Bool) :
    (cpu.movePc target endOfCycle).width = cpu.width := by
  unfold movePc
  split <;> rfl

end Width

theorem register_movePc (target : Address) (endOfCycle : Bool) (r : Fin 16) :
    (cpu.movePc target endOfCycle).register r = cpu.register r := by
  unfold movePc
  split <;> rfl

theorem register_markMemoryWritten (address : Address) (r : Fin 16) :
    (cpu.markMemoryWritten address).register r = cpu.register r := by
  unfold markMemoryWritten
  split <;> rfl

section Access

theorem access_setRegister (r : Fin 16) (v : Word) : (cpu.setRegister r v).access =
    { cpu.access with written := if r.val = 0 then cpu.access.written else some r.val } := by
  unfold setRegister
  split <;> rfl

theorem access_markMemoryWritten (address : Address) :
    (cpu.markMemoryWritten address).access = { cpu.access with memoryWritten :=
      if address = cpu.width.consoleAddress then cpu.access.memoryWritten else some address } := by
  unfold markMemoryWritten
  split <;> rfl

theorem access_movePc (target : Address) (endOfCycle : Bool) :
    (cpu.movePc target endOfCycle).access = cpu.access := by
  unfold movePc
  split <;> rfl

theorem access_endCycle : cpu.endCycle.access = cpu.access :=
  cpu.access_movePc _ _

end Access

theorem advance_toNat {cpu : Processor} (narrow : cpu.width = .narrow) :
    (cpu.width.wrap cpu.link).toNat = (cpu.pc.toNat + 1) % 0x100 := by
  have one : (1 : Word).toNat = 1 := rfl
  rw [narrow]
  simp only [Width.wrap, link, BitVec.toNat_setWidth, BitVec.toNat_add, one]
  omega

theorem endCycle_eq :
    cpu.endCycle = (cpu.movePc (cpu.width.wrap cpu.link) true).setRegister 0 0 := by
  have zero : cpu.width.fit 0 = 0 := by cases cpu.width <;> rfl
  simp only [endCycle, setRegister, width_movePc, zero]
  rfl

theorem register_endCycle (r : Fin 16) :
    cpu.endCycle.register r = if 0 = r then 0 else cpu.register r := by
  have zero (w : Width) : w.fit 0 = 0 := by cases w <;> rfl
  rw [endCycle_eq, register_setRegister, register_movePc, zero]

end Processor

end ToyMachine
