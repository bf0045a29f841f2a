import Chip8.Word

namespace Chip8

/-- The operations on two registers, the instructions `8xy0` to `8xy7` and `8xyE`. -/
inductive Alu where
  | copy
  | or
  | and
  | xor
  | add
  | sub
  | shiftRight
  | subReverse
  | shiftLeft
deriving DecidableEq, Repr

/-- An instruction whose register operands are named by `R`. The processor executes instructions
over the sixteen registers it has; a listing may name any register number.

An operand `a` is an address, `b` an immediate byte, and `x` the register that is tested or
written. -/
inductive Instruction (R : Type) where
  /-- `00E0`: makes the screen dark. -/
  | clear
  /-- `00EE`: goes back to after the latest open call. -/
  | ret
  /-- `1AAA` -/
  | jump (a : Word)
  /-- `2AAA`: a jump that remembers where it came from. -/
  | call (a : Word)
  /-- `3xBB`: skips one instruction if `vx = b`. -/
  | skipEqByte (b : UInt8) (x : R)
  /-- `4xBB`: skips one instruction if `vx ≠ b`. -/
  | skipNeByte (b : UInt8) (x : R)
  /-- `5xy0`: skips one instruction if `vx = vy`. -/
  | skipEq (y x : R)
  /-- `6xBB` -/
  | setByte (b : UInt8) (x : R)
  /-- `7xBB` -/
  | addByte (b : UInt8) (x : R)
  /-- `8xy_` -/
  | alu (op : Alu) (y x : R)
  /-- `9xy0`: skips one instruction if `vx ≠ vy`. -/
  | skipNe (y x : R)
  /-- `AAAA`: points the index register at an address. -/
  | setIndex (a : Word)
  /-- `CxBB`: a random byte under the mask `b`. -/
  | random (b : UInt8) (x : R)
  /-- `Dxyn`: draws the `n` bytes at the index register as a sprite at `(vx, vy)`. -/
  | draw (y x : R) (n : UInt8)
  /-- `Fx1E`: moves the index register forward. -/
  | addIndex (x : R)
  /-- `Fx55`: stores `v0` to `vx` at the index register. -/
  | store (x : R)
  /-- `Fx65`: loads `v0` to `vx` from the index register. -/
  | load (x : R)
deriving DecidableEq, Repr

namespace Instruction

/-- The same instruction on registers that go by other names. -/
def map {R S : Type} (name : R → S) : Instruction R → Instruction S
  | clear => clear
  | ret => ret
  | jump a => jump a
  | call a => call a
  | skipEqByte b x => skipEqByte b (name x)
  | skipNeByte b x => skipNeByte b (name x)
  | skipEq y x => skipEq (name y) (name x)
  | setByte b x => setByte b (name x)
  | addByte b x => addByte b (name x)
  | alu op y x => alu op (name y) (name x)
  | skipNe y x => skipNe (name y) (name x)
  | setIndex a => setIndex a
  | random b x => random b (name x)
  | draw y x n => draw (name y) (name x) n
  | addIndex x => addIndex (name x)
  | store x => store (name x)
  | load x => load (name x)

end Instruction

end Chip8
