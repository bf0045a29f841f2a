import Chip8.Core.Tick
import Chip8.Instruction.Text
import Chip8.Text.Style

namespace Chip8

open Text

/-- The listing of one instruction that is about to execute. -/
structure TraceLine where
  /-- The cycle that the instruction will complete. -/
  cycle : Nat
  pc : Word
  insn : Instruction Reg
  word : Word
deriving DecidableEq, Repr

namespace TraceLine

/-- The line as it is printed, with the instruction set off by colour. -/
def render (t : TraceLine) : String :=
  dim (alignRight 3 (decimal t.cycle)) ++ " " ++ hex 3 t.pc.toNat ++ ": " ++ t.insn.listing ++
    dim (hex 4 t.word.toNat) ++ "\n"

end TraceLine

/-- The line that the next tick prints: one if listing is on and there is an instruction, even one
that will fault. -/
def Core.trace? (c : Core) : Option TraceLine :=
  if c.cpu.debug then
    match c.cpu.fetch c.mem with
    | .error _ => none
    | .ok word =>
      (Instruction.ofWord? word).map fun insn => ⟨c.cpu.cycle + 1, c.cpu.pc, insn, word⟩
  else none

end Chip8
