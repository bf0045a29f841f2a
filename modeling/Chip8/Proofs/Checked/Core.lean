import Chip8.Proofs.Checked.Cpu
import Chip8.Proofs.Checked.Screen
import Chip8.Proofs.Core.Refusal
import Chip8.Proofs.Core.Watch

namespace Chip8

namespace Checked

/-- What instructions work on, as it is stored. -/
structure Core where
  cpu : Cpu
  mem : Memory
  screen : Screen

namespace Core

abbrev Outcome := Core × Except Error Unit

/-- Goes on with another processor. -/
def withCpu (c : Core) (cpu : Guarded Cpu) : Guarded Outcome := do
  return ({ c with cpu := ← cpu }, .ok ())

/-- Goes on with what a call or a return makes of the processor. -/
def withFlow (c : Core) (flow : Guarded (Cpu × Except Error Unit)) : Guarded Outcome := do
  let (cpu, result) ← flow
  return ({ c with cpu := cpu }, result)

def drawSprite (c : Core) (y x : Nat) (n : UInt8) : Guarded Outcome := do
  let row ← remainder (← c.cpu.reg y).toNat c.screen.height
  let rows := min n.toNat (← minus c.screen.height row)
  let stop ← plus c.cpu.i.toNat rows
  match c.mem.slice c.cpu.i.toNat stop with
  | .error e => return (c, .error e)
  | .ok sprite => do
    let (screen, hit) ← c.screen.draw (← c.cpu.reg x).toNat (← c.cpu.reg y).toNat sprite
    return ({ c with cpu := ← c.cpu.setReg 15 hit.toUInt8, screen := screen }, .ok ())

def storeRegisters (c : Core) (x : Nat) : Guarded Outcome := do
  let stop ← plus (← plus c.cpu.i.toNat x) 1
  let (mem, result) ← storeTo c.mem c.cpu.i.toNat stop (← c.cpu.leading x)
  return ({ c with mem := mem }, result)

def loadRegisters (c : Core) (x : Nat) : Guarded Outcome := do
  let stop ← plus (← plus c.cpu.i.toNat x) 1
  match c.mem.slice c.cpu.i.toNat stop with
  | .error e => return (c, .error e)
  | .ok values => c.withCpu (c.cpu.setLeading x values)

/-- Executes an instruction whose register operands are any numbers. -/
def execute (c : Core) (roll : UInt8) : Instruction Nat → Guarded Outcome
  | .clear => return ({ c with screen := c.screen.clear }, .ok ())
  | .ret => c.withFlow c.cpu.ret
  | .jump a => c.withCpu (return { c.cpu with pc := a })
  | .call a => c.withFlow (c.cpu.call a)
  | .skipEqByte b x => c.withCpu do return c.cpu.skipIf ((← c.cpu.reg x) == b)
  | .skipNeByte b x => c.withCpu do return c.cpu.skipIf ((← c.cpu.reg x) != b)
  | .skipEq y x => c.withCpu do return c.cpu.skipIf ((← c.cpu.reg x) == (← c.cpu.reg y))
  | .setByte b x => c.withCpu (c.cpu.setReg x b)
  | .addByte b x => c.withCpu do c.cpu.setReg x ((← c.cpu.reg x) + b)
  | .alu op y x => c.withCpu (c.cpu.operate op y x)
  | .skipNe y x => c.withCpu do return c.cpu.skipIf ((← c.cpu.reg x) != (← c.cpu.reg y))
  | .setIndex a => c.withCpu (return { c.cpu with i := a })
  | .random b x => c.withCpu (c.cpu.setReg x (roll &&& b))
  | .draw y x n => c.drawSprite y x n
  | .addIndex x => c.withCpu (c.cpu.addIndex x)
  | .store x => c.storeRegisters x
  | .load x => c.loadRegisters x

def advance (c : Core) : Core :=
  { c with cpu := c.cpu.advance }

/-- Counts a cycle after an instruction that ended well. -/
def complete : Outcome → Guarded Outcome
  | (stopped, .error e) => return (stopped, .error e)
  | (done, .ok ()) => done.withCpu done.cpu.countCycle

/-- Fetches and executes one instruction. -/
def tick (c : Core) (roll : UInt8) : Guarded Outcome := do
  match ← c.cpu.fetch c.mem with
  | .error e => return (c, .error e)
  | .ok word =>
    match (Instruction.ofWord? word).map (Instruction.map Fin.val) with
    | none => return (c.advance, .error (.unimplementedOpcode word))
    | some insn => do
      c.cpu.listNext
      complete (← c.advance.execute roll insn)

end Core

end Checked

namespace Core

/-- The core without what is known about it. -/
def bare (c : Core) : Checked.Core :=
  ⟨c.cpu.bare, c.mem, c.screen.bare⟩

variable {c : Core}

@[simp] theorem cpu_bare (c : Core) : c.bare.cpu = c.cpu.bare := rfl

@[simp] theorem mem_bare (c : Core) : c.bare.mem = c.mem := rfl

@[simp] theorem screen_bare (c : Core) : c.bare.screen = c.screen.bare := rfl

theorem advance_bare (c : Core) : c.bare.advance = c.advance.bare := rfl

/-- Whatever gives a processor without a trap can be gone on with. -/
theorem withCpu_bare {computation : Checked.Guarded Checked.Cpu} {cpu : Cpu}
    (h : computation = .ok cpu.bare) :
    c.bare.withCpu computation = .ok ({ c with cpu := cpu }.bare, .ok ()) := by
  rw [h]
  rfl

theorem returnFromCall_bare (c : Core) :
    c.bare.withFlow c.cpu.bare.ret = .ok (c.returnFromCall.1.bare, c.returnFromCall.2) := by
  rw [Cpu.ret_bare, returnFromCall]
  cases c.cpu.stack.pop? <;> rfl

theorem callTo_bare (c : Core) (addr : Word) :
    c.bare.withFlow (c.cpu.bare.call addr) =
      .ok ((c.callTo addr).1.bare, (c.callTo addr).2) := by
  rw [Cpu.call_bare, callTo]
  cases c.cpu.stack.push? c.cpu.pc <;> rfl

/-- The row on which a sprite begins is on the screen, so that the rows below it can be counted. -/
theorem drawSprite_bare (harea : c.screen.area < Checked.limit) (y x : Reg) (n : UInt8) :
    c.bare.drawSprite y.val x.val n =
      .ok ((c.drawSprite y x n).1.bare, (c.drawSprite y x n).2) := by
  have hrow : (c.cpu.reg y).toNat % c.screen.height < c.screen.height :=
    Nat.mod_lt _ c.screen.height_pos
  have hstop : c.cpu.i.toNat + min n.toNat (c.screen.height -
      (c.cpu.reg y).toNat % c.screen.height) < Checked.limit := by
    have hindex := c.cpu.i.toNat_lt
    have hrows := n.toNat_lt
    have hlimit : 2 ^ 16 + 2 ^ 8 < Checked.limit := by decide
    omega
  rw [Checked.Core.drawSprite, cpu_bare, mem_bare, screen_bare, Cpu.reg_bare, Cpu.reg_bare,
    Screen.height_bare, Cpu.i_bare]
  simp only [Checked.ok_bind]
  rw [Checked.remainder_of_pos c.screen.height_pos, Checked.ok_bind,
    Checked.minus_of_le (Nat.le_of_lt hrow), Checked.ok_bind, Checked.plus_of_lt hstop,
    Checked.ok_bind, drawSprite]
  dsimp only
  cases c.mem.slice _ _ with
  | error e => rfl
  | ok sprite =>
    dsimp only
    rw [Screen.draw_bare harea, Checked.ok_bind]
    rfl

/-- The index register has 16 bits, so that the sums of a block transfer stay far below the
limit. -/
theorem plus_operand (c : Core) (x : Reg) :
    Checked.plus c.cpu.i.toNat x.val = .ok (c.cpu.i.toNat + x.val) ∧
      Checked.plus (c.cpu.i.toNat + x.val) 1 = .ok (c.cpu.i.toNat + x.val + 1) := by
  have hindex := c.cpu.i.toNat_lt
  have hx := x.isLt
  have hlimit : 2 ^ 16 + 16 < Checked.limit := by decide
  exact ⟨Checked.plus_of_lt (by omega), Checked.plus_of_lt (by omega)⟩

/-- The block is as long as the span that it is copied to. -/
theorem storeRegisters_bare (c : Core) (x : Reg) :
    c.bare.storeRegisters x.val = .ok ((c.storeRegisters x).1.bare, (c.storeRegisters x).2) := by
  obtain ⟨hlast, hstop⟩ := c.plus_operand x
  have hstore := c.mem.store_checked c.cpu.i.toNat (c.cpu.v.toList.take (x.val + 1))
  rw [c.length_leading x, ← Nat.add_assoc] at hstore
  rw [Checked.Core.storeRegisters, cpu_bare, mem_bare, Cpu.i_bare, hlast, Checked.ok_bind, hstop,
    Checked.ok_bind, Cpu.leading_bare, Checked.ok_bind, hstore, Checked.ok_bind, storeRegisters]
  rfl

/-- The slice holds as many bytes as there are registers to load. -/
theorem loadRegisters_bare (c : Core) (x : Reg) :
    c.bare.loadRegisters x.val = .ok ((c.loadRegisters x).1.bare, (c.loadRegisters x).2) := by
  obtain ⟨hlast, hstop⟩ := c.plus_operand x
  rw [Checked.Core.loadRegisters, cpu_bare, mem_bare, Cpu.i_bare, hlast, Checked.ok_bind, hstop,
    Checked.ok_bind, loadRegisters]
  cases hslice : c.mem.slice c.cpu.i.toNat (c.cpu.i.toNat + x.val + 1) with
  | error e => rfl
  | ok values =>
    have hlength : values.length = x.val + 1 := by
      have hspan := Memory.length_of_slice hslice
      omega
    exact withCpu_bare (c.cpu.setLeading_bare x hlength)

/-- No instruction is stopped by a trap, whichever registers it names. -/
theorem execute_bare (harea : c.screen.area < Checked.limit) (roll : UInt8)
    (insn : Instruction Reg) :
    c.bare.execute roll (insn.map Fin.val) =
      .ok ((c.execute roll insn).1.bare, (c.execute roll insn).2) := by
  cases insn with
  | clear =>
    rw [Instruction.map, Checked.Core.execute, screen_bare, Screen.clear_bare]
    rfl
  | ret => exact c.returnFromCall_bare
  | jump a => rfl
  | call a => exact c.callTo_bare a
  | skipEqByte b x | skipNeByte b x =>
    refine withCpu_bare ?_
    rw [cpu_bare, Cpu.reg_bare]
    exact congrArg Except.ok (c.cpu.skipIf_bare _)
  | skipEq y x | skipNe y x =>
    refine withCpu_bare ?_
    rw [cpu_bare, Cpu.reg_bare, Cpu.reg_bare]
    exact congrArg Except.ok (c.cpu.skipIf_bare _)
  | setByte b x => exact withCpu_bare (c.cpu.setReg_bare x b)
  | addByte b x =>
    refine withCpu_bare ?_
    rw [cpu_bare, Cpu.reg_bare]
    exact c.cpu.setReg_bare x _
  | alu op y x => exact withCpu_bare (c.cpu.operate_bare op y x)
  | setIndex a => rfl
  | random b x => exact withCpu_bare (c.cpu.setReg_bare x _)
  | draw y x n => exact drawSprite_bare harea y x n
  | addIndex x => exact withCpu_bare (c.cpu.addIndex_bare x)
  | store x => exact c.storeRegisters_bare x
  | load x => exact c.loadRegisters_bare x

/-- No instruction changes the size of the screen. -/
theorem area_execute (c : Core) (roll : UInt8) (insn : Instruction Reg) :
    (c.execute roll insn).1.screen.area = c.screen.area := by
  cases insn with
  | ret =>
    rw [execute, returnFromCall]
    split <;> rfl
  | call a =>
    rw [execute, callTo]
    split <;> rfl
  | draw y x n =>
    rw [execute, drawSprite]
    dsimp only
    split
    · rfl
    · exact Screen.area_draw _ _ _ _
  | load x =>
    rw [execute, loadRegisters]
    split <;> rfl
  | _ => rfl

/-- No tick changes the size of the screen. -/
theorem area_tick (c : Core) (roll : UInt8) :
    (c.tick roll).1.screen.area = c.screen.area := by
  cases hanswer : (c.tick roll).2 with
  | error e =>
    rw [tick_of_fault roll ((c.tick_eq_error_iff roll e).mp hanswer)]
    split <;> rfl
  | ok _ =>
    obtain ⟨insn, d, _, _, hexecute, hdone⟩ := exists_execute_of_tick_ok hanswer
    have harea := c.advance.area_execute roll insn
    rw [hexecute] at harea
    rw [hdone]
    exact harea

theorem counted_tick_of_ok {roll : UInt8} (hok : (c.tick roll).2 = .ok ()) :
    (c.tick roll).1.cpu.counted = c.cpu.counted + 1 := by
  have hcycle : (c.tick roll).1.cpu.cycle = c.cpu.cycle + 1 := by
    rw [cycle_tick, hok]
    rfl
  rw [Cpu.counted, Cpu.counted, debug_tick, hcycle]
  omega

theorem counted_tick_of_error {roll : UInt8} {e : Error} (herror : (c.tick roll).2 = .error e) :
    (c.tick roll).1.cpu.counted = c.cpu.counted := by
  have hcycle : (c.tick roll).1.cpu.cycle = c.cpu.cycle := by
    rw [cycle_tick, herror]
    rfl
  rw [Cpu.counted, Cpu.counted, debug_tick, hcycle]

/-- Ticks do not count backwards. -/
theorem counted_le_tick (c : Core) (roll : UInt8) :
    c.cpu.counted ≤ (c.tick roll).1.cpu.counted := by
  cases hanswer : (c.tick roll).2 with
  | ok _ =>
    rw [counted_tick_of_ok hanswer]
    exact Nat.le_succ _
  | error e => exact Nat.le_of_eq (counted_tick_of_error hanswer).symm

/-- A tick is stopped by nothing but the count of its cycle. -/
theorem tick_bare (harea : c.screen.area < Checked.limit) (roll : UInt8) :
    Checked.Completes (c.bare.tick roll) ((c.tick roll).1.bare, (c.tick roll).2)
      (c.tick roll).1.cpu.counted := by
  rw [Checked.Core.tick, cpu_bare, mem_bare, Cpu.fetch_bare, Checked.ok_bind]
  by_cases hpc : c.cpu.pc.toNat ≤ 4094
  · rw [fetch_of_le hpc]
    dsimp only
    cases hinsn : Instruction.ofWord? c.word with
    | none =>
      have hnone := (Instruction.ofWord?_eq_none_iff c.word).mp hinsn
      rw [tick_of_not_fits roll hpc hnone]
      exact Or.inl rfl
    | some insn =>
      have hlist := c.cpu.listNext_bare.mono (c.counted_le_tick roll)
      refine hlist.bind ?_
      rw [advance_bare, execute_bare (c := c.advance) harea, Checked.ok_bind]
      cases hexecute : c.advance.execute roll insn with
      | mk d result =>
        cases result with
        | error e =>
          rw [tick_of_execute_error hpc hinsn hexecute]
          exact Or.inl rfl
        | ok _ =>
          rw [tick_of_execute_ok hpc hinsn hexecute]
          exact (d.cpu.countCycle_bare (Nat.le_add_right _ _)).bind (Or.inl rfl)
  · have hbehind := Nat.not_le.mp hpc
    have hfetch : c.cpu.fetch c.mem = .error (.outOfBounds c.cpu.pc.toNat) := if_pos hbehind
    rw [hfetch, tick_of_lt roll hbehind]
    exact Or.inl rfl

end Core

end Chip8
