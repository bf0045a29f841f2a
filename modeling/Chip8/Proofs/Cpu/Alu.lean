import Chip8.Cpu.Alu

/- What `Alu.eval` and the tests of the skips say of bytes, said of numbers. -/

namespace Chip8.Alu

theorem toNat_beq (a b : UInt8) : (a.toNat == b.toNat) = (a == b) := by
  rw [Bool.eq_iff_iff, beq_iff_eq, beq_iff_eq, UInt8.toNat_inj]

theorem toNat_bne (a b : UInt8) : (a.toNat != b.toNat) = (a != b) :=
  congrArg not (toNat_beq a b)

theorem toNat_toUInt8 (b : Bool) : b.toUInt8.toNat = b.toNat := by
  cases b <;> rfl

/-- A difference of bytes borrows 256 if it has to. -/
theorem toNat_difference (a b : UInt8) : (a - b).toNat = (a.toNat + 256 - b.toNat) % 256 := by
  have hb := b.toNat_lt
  rw [UInt8.toNat_sub]
  omega

theorem toNat_noBorrow (a b : UInt8) :
    (decide (b ≤ a)).toUInt8.toNat = (decide (b.toNat ≤ a.toNat)).toNat :=
  toNat_toUInt8 _

theorem toNat_halve (a : UInt8) : (a >>> 1).toNat = a.toNat / 2 := by
  simp only [UInt8.toNat_shiftRight, Nat.shiftRight_eq_div_pow]
  rfl

/-- A shift to the left doubles a byte, and what exceeds eight bits is lost. -/
theorem toNat_double (a : UInt8) : (a <<< 1).toNat = 2 * a.toNat % 256 := by
  simp only [UInt8.toNat_shiftLeft, Nat.shiftLeft_eq]
  exact congrArg (· % 256) (Nat.mul_comm a.toNat 2)

/-- The bit that falls out when a byte is halved. -/
theorem toNat_lowestBit (a : UInt8) : (a &&& 1).toNat = (decide (a.toNat % 2 = 1)).toNat := by
  have hbit : (a &&& 1).toNat = a.toNat % 2 := by
    rw [UInt8.toNat_and]
    exact Nat.and_one_is_mod a.toNat
  obtain heven | hodd := Nat.mod_two_eq_zero_or_one a.toNat
  · rw [hbit, heven]
    rfl
  · rw [hbit, hodd]
    rfl

/-- The bit that falls out when a byte is doubled. -/
theorem toNat_highestBit (a : UInt8) : (a >>> 7).toNat = (decide (128 ≤ a.toNat)).toNat := by
  have ha := a.toNat_lt
  have hbit : (a >>> 7).toNat = a.toNat / 128 := by
    simp only [UInt8.toNat_shiftRight, Nat.shiftRight_eq_div_pow]
    rfl
  rw [hbit]
  by_cases hhigh : 128 ≤ a.toNat
  · rw [decide_eq_true hhigh, Bool.toNat_true]
    omega
  · rw [decide_eq_false hhigh, Bool.toNat_false]
    omega

end Chip8.Alu
