import Chip8.Proofs.Core.Fault
import Chip8.Proofs.Memory.Access

namespace Chip8.Core

/-- The same core with other memory. -/
def withMemory (c : Core) (mem : Memory) : Core :=
  { c with mem := mem }

/-- The same core with other general registers. -/
def withRegisters (c : Core) (v : Vector UInt8 16) : Core :=
  { c with cpu := { c.cpu with v := v } }

/-- The address at which a block transfer stores a register and finds it again. -/
def cell (c : Core) (j : Reg) : Nat :=
  c.cpu.i.toNat + j.val

/-- What storing `v0` to `vx` makes of the memory of `c`. -/
structure StoresBlock (c : Core) (x : Reg) (mem : Memory) : Prop where
  stored : ∀ j ≤ x, mem.read (c.cell j) = .ok (c.cpu.reg j)
  others : ∀ addr, (∀ j ≤ x, addr ≠ c.cell j) → mem.read addr = c.mem.read addr

/-- What loading `v0` to `vx` makes of the registers of `c`. -/
structure LoadsBlock (c : Core) (x : Reg) (v : Vector UInt8 16) : Prop where
  loaded : ∀ j ≤ x, c.mem.read (c.cell j) = .ok (v.get j)
  others : ∀ j, x < j → v.get j = c.cpu.reg j

variable {c d : Core} {x : Reg} {mem : Memory} {v : Vector UInt8 16} {roll : UInt8}

@[simp]
theorem advance_withRegisters (c : Core) (v : Vector UInt8 16) :
    (c.withRegisters v).advance = c.advance.withRegisters v := rfl

@[simp]
theorem withRegisters_withRegisters (c : Core) (v w : Vector UInt8 16) :
    (c.withRegisters v).withRegisters w = c.withRegisters w := rfl

/-- The registers `v0` to `vx` are stored in the order of their numbers. -/
theorem getElem?_leading {j : Reg} (hj : j ≤ x) :
    (c.cpu.v.toList.take (x.val + 1))[j.val]? = some (c.cpu.reg j) := by
  have hlt : j.val < x.val + 1 := Nat.lt_succ_of_le hj
  rw [List.getElem?_take_of_lt hlt, Vector.getElem?_toList, Vector.getElem?_eq_getElem j.isLt]
  rfl

/-- Where the block has room, each register is found in its own cell and nowhere else has
anything changed. -/
theorem exists_stored (hroom : c.cpu.i.toNat + x.val ≤ 4095) :
    ∃ mem, c.mem.store c.cpu.i.toNat (c.cpu.v.toList.take (x.val + 1)) = (mem, .ok ()) ∧
      c.StoresBlock x mem := by
  have hlength := length_leading c x
  have hinside : c.cpu.i.toNat + (c.cpu.v.toList.take (x.val + 1)).length ≤ Memory.size := by
    rw [hlength]
    exact Nat.succ_le_succ hroom
  refine ⟨_, Memory.store_of_le hinside, ?_, ?_⟩
  · intro j hj
    exact Memory.read_blit_inside hinside (getElem?_leading hj)
  · intro addr hout
    apply Memory.read_blit_outside
    rw [hlength]
    by_cases hbelow : addr < c.cpu.i.toNat
    · exact Or.inl hbelow
    · -- An address from the index register on is the cell of some number, which is not that of a
      -- register up to `vx`.
      refine Or.inr (Nat.not_lt.mp fun hlt => ?_)
      have hx := x.isLt
      have hj : addr - c.cpu.i.toNat < 16 := by omega
      refine hout ⟨addr - c.cpu.i.toNat, hj⟩ (Fin.le_def.mpr ?_) ?_
      · dsimp only
        omega
      · dsimp only [cell]
        omega

/-- Storing registers concerns the memory alone. -/
theorem storeRegisters_of_stored
    (hstored : c.mem.store c.cpu.i.toNat (c.cpu.v.toList.take (x.val + 1)) = (mem, .ok ())) :
    c.storeRegisters x = (c.withMemory mem, .ok ()) := by
  rw [storeRegisters, hstored]
  rfl

/-- The index register is not moved by the transfer, so the tick only counts and moves on. -/
theorem tick_of_stored
    (hstored : c.mem.store c.cpu.i.toNat (c.cpu.v.toList.take (x.val + 1)) = (mem, .ok ()))
    (hpc : c.cpu.pc.toNat ≤ 4094) (hfits : c.word.Fits "FX55") (hx : c.operandX = x) :
    c.tick roll = ((c.withMemory mem).advance.countCycle, .ok ()) := by
  have hinsn : Instruction.ofWord? c.word = some (.store c.word.x) :=
    Instruction.ofWord?_of_fits_form (i := .store 0) hfits
  rw [← operandX_of_word rfl, hx] at hinsn
  have hexecute : c.advance.execute roll (.store x) = (c.advance.withMemory mem, .ok ()) :=
    storeRegisters_of_stored (c := c.advance) hstored
  exact tick_of_execute_ok hpc hinsn hexecute

/-- Where the block lies in memory, each register up to `vx` receives its own cell. -/
theorem exists_loaded (hroom : c.cpu.i.toNat + x.val ≤ 4095) :
    ∃ values, c.mem.slice c.cpu.i.toNat (c.cpu.i.toNat + x.val + 1) = .ok values ∧
      c.LoadsBlock x (c.cpu.setLeading values).v := by
  have hwithin : Memory.Within c.cpu.i.toNat (c.cpu.i.toNat + x.val + 1) :=
    ⟨by omega, Nat.succ_le_succ hroom⟩
  obtain ⟨values, hslice⟩ := (Memory.exists_slice_iff (m := c.mem)).mpr hwithin
  have hvalue (j : Reg) : values[j.val]? = if j ≤ x then c.mem.bytes[c.cell j]? else none := by
    have hspan : j.val < c.cpu.i.toNat + x.val + 1 - c.cpu.i.toNat ↔ j ≤ x := by
      rw [Fin.le_def]
      omega
    rw [Memory.getElem?_of_slice hslice]
    simp only [hspan, cell]
  have hget (j : Reg) : (c.cpu.setLeading values).v.get j = values[j.val]?.getD (c.cpu.reg j) :=
    Vector.getElem_ofFn j.isLt
  refine ⟨values, hslice, ?_, ?_⟩
  · intro j hj
    have hcell : c.cell j < Memory.size := by
      rw [Fin.le_def] at hj
      exact Nat.lt_succ_of_le (Nat.le_trans (Nat.add_le_add_left hj _) hroom)
    rw [hget, hvalue, if_pos hj, Memory.read_of_lt hcell, Vector.getElem?_eq_getElem hcell,
      Option.getD_some]
  · intro j hj
    rw [hget, hvalue, if_neg (Fin.not_le.mpr hj), Option.getD_none]

theorem loadRegisters_of_loaded {values : List UInt8}
    (hloaded : c.mem.slice c.cpu.i.toNat (c.cpu.i.toNat + x.val + 1) = .ok values) :
    c.loadRegisters x = (c.withRegisters (c.cpu.setLeading values).v, .ok ()) := by
  rw [loadRegisters, hloaded]
  rfl

/-- The same for the way back. The index register stays where it was here too. -/
theorem tick_of_loaded {values : List UInt8}
    (hloaded : c.mem.slice c.cpu.i.toNat (c.cpu.i.toNat + x.val + 1) = .ok values)
    (hpc : c.cpu.pc.toNat ≤ 4094) (hfits : c.word.Fits "FX65") (hx : c.operandX = x) :
    c.tick roll = ((c.withRegisters (c.cpu.setLeading values).v).advance.countCycle, .ok ()) := by
  have hinsn : Instruction.ofWord? c.word = some (.load c.word.x) :=
    Instruction.ofWord?_of_fits_form (i := .load 0) hfits
  rw [← operandX_of_word rfl, hx] at hinsn
  have hexecute : c.advance.execute roll (.load x) =
      (c.advance.withRegisters (c.cpu.setLeading values).v, .ok ()) :=
    loadRegisters_of_loaded (c := c.advance) hloaded
  rw [advance_withRegisters]
  exact tick_of_execute_ok hpc hinsn hexecute

/-- Registers that were stored come back from wherever the block is still in memory, as many of them
as are asked for. -/
theorem load_after_store {x' : Reg} (hstores : c.StoresBlock x mem)
    (hroom : c.cpu.i.toNat + x.val ≤ 4095) (hle : x' ≤ x) (hindex : d.cpu.i = c.cpu.i)
    (hkept : ∀ j ≤ x', d.mem.read (c.cell j) = mem.read (c.cell j)) :
    ∃ v, d.loadRegisters x' = (d.withRegisters v, .ok ()) ∧
      (∀ j ≤ x', v.get j = c.cpu.reg j) ∧ ∀ j, x' < j → v.get j = d.cpu.reg j := by
  have hcell (j : Reg) : d.cell j = c.cell j := by rw [cell, cell, hindex]
  have hshorter : d.cpu.i.toNat + x'.val ≤ 4095 := by
    rw [hindex]
    exact Nat.le_trans (Nat.add_le_add_left hle _) hroom
  obtain ⟨values, hslice, hloads⟩ := exists_loaded hshorter
  refine ⟨_, loadRegisters_of_loaded hslice, ?_, hloads.others⟩
  intro j hj
  have hloaded := hloads.loaded j hj
  rw [hcell, hkept j hj, hstores.stored j (Fin.le_trans hj hle)] at hloaded
  exact (Except.ok.inj hloaded).symm

/-- Registers that were loaded are stored to where they are already. -/
theorem store_after_load (hloads : c.LoadsBlock x v) (hroom : c.cpu.i.toNat + x.val ≤ 4095) :
    (c.withRegisters v).storeRegisters x = (c.withRegisters v, .ok ()) := by
  obtain ⟨mem, hstore, hstores⟩ := exists_stored (c := c.withRegisters v) hroom
  have hsame : mem = c.mem := by
    apply Memory.ext_read
    intro addr
    by_cases hin : ∃ j ≤ x, addr = c.cell j
    · obtain ⟨j, hj, rfl⟩ := hin
      exact (hstores.stored j hj).trans (hloads.loaded j hj).symm
    · exact hstores.others addr fun j hj heq => hin ⟨j, hj, heq⟩
  rw [storeRegisters_of_stored hstore, hsame]
  rfl

/-- Within memory, `FX55` copies `v0` to `vX` to as many bytes from the index register on and `FX65`
copies them back, and neither changes anything else. What was stored can be loaded again, all of it or
the first part, and storing what was loaded changes nothing. -/
theorem block_transfers_are_inverse (c : Core) (x : Reg) (hroom : c.cpu.i.toNat + x.val ≤ 4095) :
    (∃ mem, c.StoresBlock x mem ∧ c.storeRegisters x = (c.withMemory mem, .ok ()) ∧
        (∀ roll : UInt8, c.cpu.pc.toNat ≤ 4094 → c.word.Fits "FX55" → c.operandX = x →
          c.tick roll = ((c.withMemory mem).advance.countCycle, .ok ())) ∧
        ∀ x' ≤ x, ∀ d : Core, d.cpu.i = c.cpu.i →
          (∀ j ≤ x', d.mem.read (c.cell j) = mem.read (c.cell j)) →
          ∃ v, d.loadRegisters x' = (d.withRegisters v, .ok ()) ∧
            (∀ j ≤ x', v.get j = c.cpu.reg j) ∧ ∀ j, x' < j → v.get j = d.cpu.reg j) ∧
      ∃ v, c.LoadsBlock x v ∧ c.loadRegisters x = (c.withRegisters v, .ok ()) ∧
        (∀ roll : UInt8, c.cpu.pc.toNat ≤ 4094 → c.word.Fits "FX65" → c.operandX = x →
          c.tick roll = ((c.withRegisters v).advance.countCycle, .ok ())) ∧
        (c.withRegisters v).storeRegisters x = (c.withRegisters v, .ok ()) := by
  obtain ⟨mem, hstore, hstores⟩ := exists_stored hroom
  obtain ⟨values, hslice, hloads⟩ := exists_loaded hroom
  refine ⟨⟨mem, hstores, storeRegisters_of_stored hstore, fun _ => tick_of_stored hstore, ?_⟩,
    ⟨_, hloads, loadRegisters_of_loaded hslice, fun _ => tick_of_loaded hslice,
      store_after_load hloads hroom⟩⟩
  intro x' hle d hindex hkept
  exact load_after_store hstores hroom hle hindex hkept

/-- The next instruction is `F155`, and the block ends with the last byte of memory. -/
def storeAtEndOfMemory : Core :=
  .loaded { Cpu.initial false with i := 0xFFE, v := Vector.replicate 16 9 } [0xF1, 0x55]

/-- Of the two registers in the last two bytes one is loaded again, into a processor that has forgotten
both. -/
theorem block_transfers_are_inverse_at_end :
    storeAtEndOfMemory.cpu.i.toNat + (1 : Reg).val ≤ 4095 ∧
      (storeAtEndOfMemory.tick 0).1.mem.read 0xFFF = .ok 9 ∧
      ((storeAtEndOfMemory.tick 0).1.withRegisters (Vector.replicate 16 0)).loadRegisters 0 =
        ((storeAtEndOfMemory.tick 0).1.withRegisters ((Vector.replicate 16 0).set 0 9), .ok ()) := by
  have hword : storeAtEndOfMemory.word = 0xF155 := Core.word_loaded rfl 0xF1 0x55 []
  have hfits : storeAtEndOfMemory.word.Fits "FX55" := hword ▸ by decide
  have hroom : storeAtEndOfMemory.cpu.i.toNat + (1 : Reg).val ≤ 4095 := by decide
  obtain ⟨⟨mem, hstores, _, htick, hload⟩, _⟩ :=
    block_transfers_are_inverse storeAtEndOfMemory 1 hroom
  have hticked := htick 0 (by decide) hfits (operandX_of_word hword)
  obtain ⟨v, hloaded, hrestored, hothers⟩ := hload 0 (by decide)
    ((storeAtEndOfMemory.tick 0).1.withRegisters (Vector.replicate 16 0))
    (by rw [hticked]; rfl) (fun j _ => by rw [hticked]; rfl)
  have hv : v = (Vector.replicate 16 0).set 0 9 := by
    apply Vector.ext
    intro j hj
    by_cases h0 : j = 0
    · subst h0
      exact hrestored 0 (Fin.le_refl 0)
    · rw [Vector.getElem_set_ne _ hj (Ne.symm h0)]
      exact hothers ⟨j, hj⟩ (Fin.pos_iff_ne_zero.mpr fun h => h0 (Fin.val_eq_of_eq h))
  have hcell : storeAtEndOfMemory.cell 1 = 0xFFF := by decide
  have hreg : storeAtEndOfMemory.cpu.reg 1 = 9 := by decide
  have hstored := hstores.stored 1 (Fin.le_refl 1)
  rw [hcell, hreg] at hstored
  rw [hv, withRegisters_withRegisters] at hloaded
  refine ⟨hroom, ?_, hloaded⟩
  rw [hticked]
  exact hstored

end Chip8.Core
