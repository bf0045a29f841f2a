import Chip8.Instruction.Basic

namespace Chip8

/-- The low nibble of an `8xy_` word. -/
def Alu.nibble : Alu → Nat
  | copy => 0x0
  | or => 0x1
  | and => 0x2
  | xor => 0x3
  | add => 0x4
  | sub => 0x5
  | shiftRight => 0x6
  | subReverse => 0x7
  | shiftLeft => 0xE

namespace Instruction

/-- Operands that have room in a word: an address of twelve bits and a nibble for the number of
sprite rows. A byte and a register always fit. -/
def Fits : Instruction Reg → Prop
  | jump a | call a | setIndex a => a.toNat < 0x1000
  | draw _ _ n => n.toNat < 0x10
  | _ => True

/-- The sum of the fixed bits and the operands, each moved to its place. -/
def code : Instruction Reg → Nat
  | clear => 0x00E0
  | ret => 0x00EE
  | jump a => 0x1000 + a.toNat
  | call a => 0x2000 + a.toNat
  | skipEqByte b x => 0x3000 + 0x100 * x.val + b.toNat
  | skipNeByte b x => 0x4000 + 0x100 * x.val + b.toNat
  | skipEq y x => 0x5000 + 0x100 * x.val + 0x10 * y.val
  | setByte b x => 0x6000 + 0x100 * x.val + b.toNat
  | addByte b x => 0x7000 + 0x100 * x.val + b.toNat
  | alu op y x => 0x8000 + 0x100 * x.val + 0x10 * y.val + op.nibble
  | skipNe y x => 0x9000 + 0x100 * x.val + 0x10 * y.val
  | setIndex a => 0xA000 + a.toNat
  | random b x => 0xC000 + 0x100 * x.val + b.toNat
  | draw y x n => 0xD000 + 0x100 * x.val + 0x10 * y.val + n.toNat
  | addIndex x => 0xF01E + 0x100 * x.val
  | store x => 0xF055 + 0x100 * x.val
  | load x => 0xF065 + 0x100 * x.val

/-- The word of an instruction whose operands fit. -/
def toWord (i : Instruction Reg) : Word :=
  UInt16.ofNat i.code

/-- The bytes of a program, each word with its high byte first. -/
def assemble (program : List (Instruction Reg)) : List UInt8 :=
  program.flatMap fun i => [i.toWord.high, i.toWord.low]

end Instruction

end Chip8
