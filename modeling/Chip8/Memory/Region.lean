namespace Chip8

/-- The two parts of memory: the font lies below the place where programs are loaded. -/
inductive Region where
  | charset
  | program
deriving DecidableEq, Repr

namespace Region

def start : Region → Nat
  | charset => 0
  | program => 0x200

def stop : Region → Nat
  | charset => 0x200
  | program => 0x1000

def size (r : Region) : Nat :=
  r.stop - r.start

def name : Region → String
  | charset => "Charset"
  | program => "Program"

end Region

end Chip8
