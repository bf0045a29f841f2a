import Chip8.Cpu.Alu
import Chip8.Screen.Draw

namespace Chip8

/-- What instructions work on: the processor, the memory and the screen. -/
structure Core where
  cpu : Cpu
  mem : Memory
  screen : Screen
deriving DecidableEq

namespace Core

/-- What an instruction leaves behind, and its fault if it has one. -/
abbrev Outcome := Chip8.Outcome Core Unit

/-- Draws the sprite at the index register. Only the rows above the lower edge of the screen are
read, so that rows that would be cut off cannot fault. The flag tells whether a lit pixel was turned
off. -/
def drawSprite (c : Core) (y x : Reg) (n : UInt8) : Outcome :=
  let column := (c.cpu.reg x).toNat
  let row := (c.cpu.reg y).toNat
  let rows := min n.toNat (c.screen.height - row % c.screen.height)
  match c.mem.slice c.cpu.i.toNat (c.cpu.i.toNat + rows) with
  | .error e => (c, .error e)
  | .ok sprite =>
    let (screen, hit) := c.screen.draw column row sprite
    ({ c with cpu := c.cpu.setReg Cpu.flagReg hit.toUInt8, screen := screen }, .ok ())

/-- Stores `v0` to `vx` at the index register, which stays. -/
def storeRegisters (c : Core) (x : Reg) : Outcome :=
  let (mem, result) := c.mem.store c.cpu.i.toNat (c.cpu.v.toList.take (x.val + 1))
  ({ c with mem := mem }, result)

/-- Loads `v0` to `vx` from the index register, which stays. -/
def loadRegisters (c : Core) (x : Reg) : Outcome :=
  match c.mem.slice c.cpu.i.toNat (c.cpu.i.toNat + x.val + 1) with
  | .error e => (c, .error e)
  | .ok values => ({ c with cpu := c.cpu.setLeading values }, .ok ())

/-- Goes back to after the latest open call. The fault names the address of the return itself, which
the program counter has already left. -/
def returnFromCall (c : Core) : Outcome :=
  match c.cpu.stack.pop? with
  | none => (c, .error (.stackUnderflow (c.cpu.pc - 2)))
  | some (addr, stack) => ({ c with cpu := { c.cpu with stack := stack, pc := addr } }, .ok ())

/-- Jumps to an address and remembers the instruction after the call. -/
def callTo (c : Core) (addr : Word) : Outcome :=
  match c.cpu.stack.push? c.cpu.pc with
  | none => (c, .error (.stackOverflow addr))
  | some stack => ({ c with cpu := { c.cpu with stack := stack, pc := addr } }, .ok ())

/-- Executes one instruction, with the program counter already past it. `roll` is the byte that an
instruction of chance uses. -/
def execute (c : Core) (roll : UInt8) : Instruction Reg → Outcome
  | .clear => ({ c with screen := c.screen.clear }, .ok ())
  | .ret => c.returnFromCall
  | .jump a => ({ c with cpu := { c.cpu with pc := a } }, .ok ())
  | .call a => c.callTo a
  | .skipEqByte b x => ({ c with cpu := c.cpu.skipIf (c.cpu.reg x == b) }, .ok ())
  | .skipNeByte b x => ({ c with cpu := c.cpu.skipIf (c.cpu.reg x != b) }, .ok ())
  | .skipEq y x => ({ c with cpu := c.cpu.skipIf (c.cpu.reg x == c.cpu.reg y) }, .ok ())
  | .setByte b x => ({ c with cpu := c.cpu.setReg x b }, .ok ())
  | .addByte b x => ({ c with cpu := c.cpu.setReg x (c.cpu.reg x + b) }, .ok ())
  | .alu op y x => ({ c with cpu := c.cpu.operate op y x }, .ok ())
  | .skipNe y x => ({ c with cpu := c.cpu.skipIf (c.cpu.reg x != c.cpu.reg y) }, .ok ())
  | .setIndex a => ({ c with cpu := { c.cpu with i := a } }, .ok ())
  | .random b x => ({ c with cpu := c.cpu.setReg x (roll &&& b) }, .ok ())
  | .draw y x n => c.drawSprite y x n
  | .addIndex x => ({ c with cpu := { c.cpu with i := c.cpu.i + (c.cpu.reg x).toUInt16 } }, .ok ())
  | .store x => c.storeRegisters x
  | .load x => c.loadRegisters x

end Core

end Chip8
