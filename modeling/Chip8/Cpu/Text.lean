import Chip8.Cpu.Basic
import Chip8.Text.Record

namespace Chip8

open Text

namespace Cpu

def dumpRegisters (c : Cpu) : String :=
  String.join (c.v.toList.zipIdx.map fun (value, x) =>
    "v" ++ upperHex x ++ ": " ++ hex 2 value.toNat ++ " " ++ (if x % 4 = 3 then "\n" else ""))

/-- The registers and the cycle count, for the user to read. -/
def dump (c : Cpu) : String :=
  "PC: " ++ hex 4 c.pc.toNat ++ ", SP: " ++ hex 4 c.stack.depth ++ ", I: " ++ hex 4 c.i.toNat ++
    "\n" ++ c.dumpRegisters ++ "CYC: " ++ alignRight 6 (decimal c.cycle) ++ "\n"

/-- The switches of the host, as a record. -/
def flagsRecord (c : Cpu) : String :=
  record "Flags" [("debug", truth c.debug)]

def wordListing (words : List Word) : String :=
  listing (words.map fun w => decimal w.toNat)

/-- The processor as a record, dead slots of the stack included. -/
def record (c : Cpu) : String :=
  Text.record "CPU"
    [("flags", c.flagsRecord), ("stack", wordListing c.stack.slots.toList),
      ("sp", decimal c.stack.depth), ("pc", decimal c.pc.toNat), ("i", decimal c.i.toNat),
      ("v", listing (c.v.toList.map fun value => decimal value.toNat)),
      ("cycle", decimal c.cycle), ("breakpoints", wordListing c.breakpoints)]

end Cpu

end Chip8
