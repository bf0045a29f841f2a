import Chip8.Cpu.CallStack
import Chip8.Error
import Chip8.Memory.Access

namespace Chip8

/-- The processor: what programs can see of it, and what the host keeps there for watching them. -/
structure Cpu where
  /-- Whether each instruction is listed before it executes. -/
  debug : Bool
  stack : CallStack
  pc : Word
  /-- The index register, which points sprites and block transfers at memory. -/
  i : Word
  /-- The general registers. The last one also receives the flag of an arithmetic instruction. -/
  v : Vector UInt8 16
  /-- The number of instructions that were executed to completion. -/
  cycle : Nat
  /-- The addresses that pause the machine, in the order in which they were set. -/
  breakpoints : List Word
deriving DecidableEq

namespace Cpu

def entry : Word := 0x200

/-- A processor at the start of a program, without breakpoints. -/
def initial (debug : Bool) : Cpu where
  debug := debug
  stack := .empty
  pc := entry
  i := 0
  v := Vector.replicate 16 0
  cycle := 0
  breakpoints := []

/-- Back to the start of a program. The listing and the breakpoints belong to the host and stay. -/
def reset (c : Cpu) : Cpu :=
  { initial c.debug with breakpoints := c.breakpoints }

def flagReg : Reg := Fin.last 15

def reg (c : Cpu) (x : Reg) : UInt8 :=
  c.v.get x

def setReg (c : Cpu) (x : Reg) (value : UInt8) : Cpu :=
  { c with v := c.v.set x.val value }

theorem reg_setReg (c : Cpu) (x : Reg) (value : UInt8) (k : Reg) :
    (c.setReg x value).reg k = if k = x then value else c.reg k := by
  change (c.v.set x.val value)[k.val] = if k = x then value else c.v[k.val]
  simp only [Vector.getElem_set, Fin.ext_iff, eq_comm]

/-- Registers that all hold the same are the same. -/
theorem ext_reg {c d : Cpu} (h : ∀ k, c.reg k = d.reg k) : c.v = d.v := by
  apply Vector.ext
  intro k hk
  exact h ⟨k, hk⟩

/-- Replaces the register with a given number, if there is one. -/
def setV (c : Cpu) (reg : Nat) (value : UInt8) : Outcome Cpu Unit :=
  if h : reg < 16 then (c.setReg ⟨reg, h⟩ value, .ok ()) else (c, .error (.invalidRegister reg))

/-- Sets a breakpoint. Setting it again changes nothing. -/
def setBreak (c : Cpu) (addr : Word) : Cpu :=
  if addr ∈ c.breakpoints then c else { c with breakpoints := c.breakpoints ++ [addr] }

def unsetBreak (c : Cpu) (addr : Word) : Cpu :=
  { c with breakpoints := c.breakpoints.filter (· != addr) }

def atBreakpoint (c : Cpu) : Bool :=
  decide (c.pc ∈ c.breakpoints)

def toggleDebug (c : Cpu) : Cpu :=
  { c with debug := !c.debug }

def advance (c : Cpu) : Cpu :=
  { c with pc := c.pc + 2 }

/-- The program counter moves on by one word, unless it stands at the end of its range. -/
theorem toNat_pc_advance {c : Cpu} (hpc : c.pc.toNat + 2 < 0x10000) :
    c.advance.pc.toNat = c.pc.toNat + 2 := by
  have hsum : c.advance.pc.toNat = (c.pc.toNat + 2) % 2 ^ 16 := UInt16.toNat_add c.pc 2
  omega

/-- The word of the next instruction. It has to lie in memory as a whole. -/
def fetch (c : Cpu) (m : Memory) : Except Error Word :=
  if Memory.size - 2 < c.pc.toNat then .error (.outOfBounds c.pc.toNat) else m.readWord c.pc.toNat

end Cpu

end Chip8
