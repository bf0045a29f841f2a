namespace Chip8

/-- A sixteen-bit quantity: an instruction, an address or two bytes of memory. -/
abbrev Word := UInt16

/-- The number of a general register, `v0` to `vF`. -/
abbrev Reg := Fin 16

namespace Word

/-- The word whose high byte comes first in memory. -/
def ofBytes (high low : UInt8) : Word :=
  UInt16.ofNat (256 * high.toNat + low.toNat)

/-- Bits 8 to 15, the byte at the lower address. -/
def high (w : Word) : UInt8 :=
  UInt8.ofNat (w.toNat / 256)

/-- Bits 0 to 7, the byte at the higher address. -/
def low (w : Word) : UInt8 :=
  UInt8.ofNat (w.toNat % 256)

/-- The high nibble, which selects a family of instructions. -/
def group (w : Word) : Nat :=
  w.toNat / 0x1000

/-- The low twelve bits, an address operand. -/
def nnn (w : Word) : Word :=
  UInt16.ofNat (w.toNat % 0x1000)

def nn (w : Word) : UInt8 :=
  w.low

def n (w : Word) : UInt8 :=
  UInt8.ofNat (w.toNat % 0x10)

/-- The nibble below the high one, a register operand. -/
def x (w : Word) : Reg :=
  Fin.ofNat 16 (w.toNat / 0x100)

/-- The nibble above the low one, a register operand. -/
def y (w : Word) : Reg :=
  Fin.ofNat 16 (w.toNat / 0x10)

@[simp] theorem toNat_ofBytes (high low : UInt8) :
    (ofBytes high low).toNat = 256 * high.toNat + low.toNat := by
  have hhigh := high.toNat_lt
  have hlow := low.toNat_lt
  simp only [ofBytes, UInt16.toNat_ofNat']
  omega

@[simp] theorem toNat_high (w : Word) : w.high.toNat = w.toNat / 256 := by
  have hw := w.toNat_lt
  simp only [high, UInt8.toNat_ofNat']
  omega

/-- The low byte is the remainder of the word by 256. -/
@[simp] theorem toNat_low (w : Word) : w.low.toNat = w.toNat % 256 := by
  simp only [low, UInt8.toNat_ofNat']
  omega

@[simp] theorem toNat_nnn (w : Word) : w.nnn.toNat = w.toNat % 0x1000 := by
  simp only [nnn, UInt16.toNat_ofNat']
  omega

@[simp] theorem toNat_nn (w : Word) : w.nn.toNat = w.toNat % 256 :=
  toNat_low w

@[simp] theorem toNat_n (w : Word) : w.n.toNat = w.toNat % 0x10 := by
  simp only [n, UInt8.toNat_ofNat']
  omega

/-- The first register operand is the third hexadecimal digit from the right. -/
@[simp] theorem val_x (w : Word) : w.x.val = w.toNat / 0x100 % 16 := rfl

@[simp] theorem val_y (w : Word) : w.y.val = w.toNat / 0x10 % 16 := rfl

/-- Two bytes make a word that falls apart into the same bytes. -/
theorem high_ofBytes (high low : UInt8) : (ofBytes high low).high = high := by
  have hlow := low.toNat_lt
  apply UInt8.toNat_inj.mp
  simp only [toNat_high, toNat_ofBytes]
  omega

theorem low_ofBytes (high low : UInt8) : (ofBytes high low).low = low := by
  have hlow := low.toNat_lt
  apply UInt8.toNat_inj.mp
  simp only [toNat_low, toNat_ofBytes]
  omega

/-- A word is made up of its two bytes and nothing else. -/
theorem ofBytes_high_low (w : Word) : ofBytes w.high w.low = w := by
  apply UInt16.toNat_inj.mp
  simp only [toNat_ofBytes, toNat_high, toNat_low]
  omega

end Word

end Chip8
