import Chip8.Core.Basic
import Chip8.Instruction.Decode

namespace Chip8

namespace Core

def advance (c : Core) : Core :=
  { c with cpu := c.cpu.advance }

def countCycle (c : Core) : Core :=
  { c with cpu := { c.cpu with cycle := c.cpu.cycle + 1 } }

/-- Fetches and executes one instruction. The program counter moves on between the fetch and
everything else, and an instruction that faults is not counted. -/
def tick (c : Core) (roll : UInt8) : Outcome :=
  match c.cpu.fetch c.mem with
  | .error e => (c, .error e)
  | .ok word =>
    match Instruction.ofWord? word with
    | none => (c.advance, .error (.unimplementedOpcode word))
    | some insn =>
      match c.advance.execute roll insn with
      | (stopped, .error e) => (stopped, .error e)
      | (done, .ok ()) => (done.countCycle, .ok ())

end Core

end Chip8
