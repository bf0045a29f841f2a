import Chip8.Instruction.Basic

namespace Chip8

/-- The operation that the low nibble of an `8xy_` word selects. -/
def Alu.ofNibble? : Nat → Option Alu
  | 0x0 => some copy
  | 0x1 => some or
  | 0x2 => some and
  | 0x3 => some xor
  | 0x4 => some add
  | 0x5 => some sub
  | 0x6 => some shiftRight
  | 0x7 => some subReverse
  | 0xE => some shiftLeft
  | _ => none

namespace Instruction

/-- The instruction that a word encodes. The high nibble selects a family; where a family leaves
bits of the word without an operand, they have to match too. -/
def ofWord? (w : Word) : Option (Instruction Reg) :=
  match w.group with
  | 0x0 =>
    match w.nnn.toNat with
    | 0x0E0 => some clear
    | 0x0EE => some ret
    | _ => none
  | 0x1 => some (jump w.nnn)
  | 0x2 => some (call w.nnn)
  | 0x3 => some (skipEqByte w.nn w.x)
  | 0x4 => some (skipNeByte w.nn w.x)
  | 0x5 => if w.n = 0 then some (skipEq w.y w.x) else none
  | 0x6 => some (setByte w.nn w.x)
  | 0x7 => some (addByte w.nn w.x)
  | 0x8 => (Alu.ofNibble? w.n.toNat).map fun op => alu op w.y w.x
  | 0x9 => if w.n = 0 then some (skipNe w.y w.x) else none
  | 0xA => some (setIndex w.nnn)
  | 0xC => some (random w.nn w.x)
  | 0xD => some (draw w.y w.x w.n)
  | 0xF =>
    match w.nn.toNat with
    | 0x1E => some (addIndex w.x)
    | 0x55 => some (store w.x)
    | 0x65 => some (load w.x)
    | _ => none
  | _ => none

end Instruction

end Chip8
