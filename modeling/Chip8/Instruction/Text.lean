import Chip8.Instruction.Basic
import Chip8.Text.Numeral
import Chip8.Text.Record

namespace Chip8

open Text

/-- The name of the operation in a listing. -/
def Alu.mnemonic : Alu → String
  | copy => "mov"
  | or => "or"
  | and => "and"
  | xor => "xor"
  | add => "add"
  | sub => "sub"
  | shiftRight => "shr"
  | subReverse => "bsub"
  | shiftLeft => "shl"

namespace Instruction

/-- An immediate operand. -/
def immediate (b : UInt8) : String :=
  "#" ++ hex 2 b.toNat

/-- A register operand. -/
def register (x : Nat) : String :=
  "v" ++ upperHex x

/-- One line of a listing: the mnemonic in a column of seven characters, then the operands with the
destination last. Four mnemonics stand for more than one instruction and are told apart by the form
of the first operand. -/
def text : Instruction Nat → String
  | clear => alignLeft 7 "cls"
  | ret => alignLeft 7 "ret"
  | jump a => alignLeft 7 "jmp" ++ hex 3 a.toNat
  | call a => alignLeft 7 "call" ++ hex 3 a.toNat
  | skipEqByte b x => alignLeft 7 "se" ++ immediate b ++ ", " ++ register x
  | skipNeByte b x => alignLeft 7 "sne" ++ immediate b ++ ", " ++ register x
  | skipEq y x => alignLeft 7 "se" ++ register y ++ ", " ++ register x
  | setByte b x => alignLeft 7 "mov" ++ immediate b ++ ", " ++ register x
  | addByte b x => alignLeft 7 "add" ++ immediate b ++ ", " ++ register x
  | alu op y x => alignLeft 7 op.mnemonic ++ register y ++ ", " ++ register x
  | skipNe y x => alignLeft 7 "sne" ++ register y ++ ", " ++ register x
  | setIndex a => alignLeft 7 "mov" ++ "$" ++ hex 3 a.toNat ++ ", I"
  | random b x => alignLeft 7 "rand" ++ immediate b ++ ", " ++ register x
  | draw y x n =>
    alignLeft 7 "draw" ++ "#" ++ hex 1 n.toNat ++ ", " ++ register x ++ ", " ++ register y
  | addIndex x => alignLeft 7 "add" ++ register x ++ ", I"
  | store x => alignLeft 7 "dmao" ++ register x
  | load x => alignLeft 7 "dmai" ++ register x

/-- The instruction as a record of its operands. Here every instruction has a name of its own. -/
def record : Instruction Nat → String
  | clear => Text.record "cls" []
  | ret => Text.record "ret" []
  | jump a => Text.record "jmp" [("A", decimal a.toNat)]
  | call a => Text.record "call" [("A", decimal a.toNat)]
  | skipEqByte b x => Text.record "seb" [("B", decimal b.toNat), ("x", decimal x)]
  | skipNeByte b x => Text.record "sneb" [("B", decimal b.toNat), ("x", decimal x)]
  | skipEq y x => Text.record "se" [("y", decimal y), ("x", decimal x)]
  | setByte b x => Text.record "movb" [("B", decimal b.toNat), ("x", decimal x)]
  | addByte b x => Text.record "addb" [("B", decimal b.toNat), ("x", decimal x)]
  | alu op y x => Text.record op.mnemonic [("y", decimal y), ("x", decimal x)]
  | skipNe y x => Text.record "sne" [("y", decimal y), ("x", decimal x)]
  | setIndex a => Text.record "movI" [("A", decimal a.toNat)]
  | random b x => Text.record "rand" [("B", decimal b.toNat), ("x", decimal x)]
  | draw y x n =>
    Text.record "draw" [("y", decimal y), ("x", decimal x), ("n", decimal n.toNat)]
  | addIndex x => Text.record "addI" [("x", decimal x)]
  | store x => Text.record "dmao" [("x", decimal x)]
  | load x => Text.record "dmai" [("x", decimal x)]

/-- The listing of an instruction of the processor. -/
def listing (i : Instruction Reg) : String :=
  (i.map Fin.val).text

end Instruction

/-- The fields of an instruction word, as a record. -/
def Word.record (w : Word) : String :=
  Text.record "InstructionWord"
    [("opcode", decimal w.toNat), ("nnn", decimal w.nnn.toNat), ("nn", decimal w.nn.toNat),
      ("n", decimal w.n.toNat), ("x", decimal w.x.val), ("y", decimal w.y.val)]

end Chip8
