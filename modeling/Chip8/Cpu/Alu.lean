import Chip8.Cpu.Basic
import Chip8.Instruction.Basic

namespace Chip8

/-- What an operation on `vx` and `vy` writes to `vx`, and the flag if it sets one. All arithmetic
is modulo 256. The flag of a sum is its carry, that of a difference tells that nothing was borrowed,
and that of a shift is the bit that fell out. A shift does not look at `vy`. -/
def Alu.eval (op : Alu) (x y : UInt8) : UInt8 × Option UInt8 :=
  match op with
  | copy => (y, none)
  | or => (x ||| y, none)
  | and => (x &&& y, none)
  | xor => (x ^^^ y, none)
  | add => (x + y, some (decide (256 ≤ x.toNat + y.toNat)).toUInt8)
  | sub => (x - y, some (decide (y ≤ x)).toUInt8)
  | shiftRight => (x >>> 1, some (x &&& 1))
  | subReverse => (y - x, some (decide (x ≤ y)).toUInt8)
  | shiftLeft => (x <<< 1, some (x >>> 7))

namespace Cpu

/-- Operates on two registers. Both are read first and the flag is written last, so that it wins
where `vx` is the flag register itself. -/
def operate (c : Cpu) (op : Alu) (y x : Reg) : Cpu :=
  match op.eval (c.reg x) (c.reg y) with
  | (value, none) => c.setReg x value
  | (value, some flag) => (c.setReg x value).setReg flagReg flag

def skipIf (c : Cpu) (condition : Bool) : Cpu :=
  if condition then c.advance else c

theorem pc_skipIf (c : Cpu) (condition : Bool) :
    (c.skipIf condition).pc = if condition then c.pc + 2 else c.pc := by
  cases condition <;> rfl

theorem stack_skipIf (c : Cpu) (condition : Bool) : (c.skipIf condition).stack = c.stack := by
  cases condition <;> rfl

/-- Replaces the registers from `v0` on by as many bytes as there are. -/
def setLeading (c : Cpu) (values : List UInt8) : Cpu :=
  { c with v := Vector.ofFn fun x => values[x.val]?.getD (c.reg x) }

theorem pc_setLeading (c : Cpu) (values : List UInt8) : (c.setLeading values).pc = c.pc := by
  simp only [setLeading]

theorem stack_setLeading (c : Cpu) (values : List UInt8) :
    (c.setLeading values).stack = c.stack := by
  simp only [setLeading]

end Cpu

end Chip8
