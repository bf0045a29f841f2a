import Chip8.Instruction.Encode
import Chip8.Proofs.Instruction.Form

namespace Chip8

namespace Word

/-- An address operand is read off the last three digits. -/
theorem nnn_eq_iff (w a : Word) : w.nnn = a ↔ w.toNat % 0x1000 = a.toNat := by
  rw [← UInt16.toNat_inj, toNat_nnn]

theorem nn_eq_iff (w : Word) (b : UInt8) : w.nn = b ↔ w.toNat % 0x100 = b.toNat := by
  rw [← UInt8.toNat_inj, toNat_nn]

theorem n_eq_iff (w : Word) (n : UInt8) : w.n = n ↔ w.toNat % 0x10 = n.toNat := by
  rw [← UInt8.toNat_inj, toNat_n]

theorem x_eq_iff (w : Word) (x : Reg) : w.x = x ↔ w.toNat / 0x100 % 16 = x.val := by
  rw [Fin.ext_iff, val_x]

theorem y_eq_iff (w : Word) (y : Reg) : w.y = y ↔ w.toNat / 0x10 % 16 = y.val := by
  rw [Fin.ext_iff, val_y]

end Word

namespace Alu

/-- The nibble that selects an operation is one digit. -/
theorem nibble_lt (op : Alu) : op.nibble < 0x10 := by
  cases op <;> decide

/-- The form of an operation fixes the family of two registers and ends with the nibble. -/
theorem fits_form_iff (op : Alu) (w : Word) :
    w.Fits op.form ↔ w.toNat / 0x1000 = 8 ∧ w.toNat % 0x10 = op.nibble := by
  cases op <;> simp [Word.Fits, form, Word.digits, Form.digit?, List.idxOf?_cons, nibble]

end Alu

namespace Instruction

variable {i : Instruction Reg} {w : Word}

/-- An instruction with operands that fit their fields has a code of sixteen bits. -/
theorem code_lt (hfits : i.Fits) : i.code < 0x10000 := by
  cases i with
  | jump a | call a | setIndex a =>
    have ha : a.toNat < 0x1000 := hfits
    simp only [code]
    omega
  | skipEqByte b x | skipNeByte b x | setByte b x | addByte b x | random b x =>
    have hb := b.toNat_lt
    simp only [code]
    omega
  | alu op y x =>
    have hop := op.nibble_lt
    simp only [code]
    omega
  | draw y x n =>
    have hn : n.toNat < 0x10 := hfits
    simp only [code]
    omega
  | _ =>
    simp only [code]
    omega

/-- The word of such an instruction is its code, of which nothing is cut off. -/
theorem toNat_toWord (hfits : i.Fits) : i.toWord.toNat = i.code := by
  rw [toWord, UInt16.toNat_ofNat']
  exact Nat.mod_eq_of_lt (code_lt hfits)

/-- Operands that come from the fields of a word have room in a word. -/
theorem fits_withOperands (i : Instruction Reg) (w : Word) : (i.withOperands w).Fits := by
  cases i with
  | jump | call | setIndex =>
    change w.nnn.toNat < 0x1000
    rw [Word.toNat_nnn]
    exact Nat.mod_lt _ (by decide)
  | draw =>
    change w.n.toNat < 0x10
    rw [Word.toNat_n]
    exact Nat.mod_lt _ (by decide)
  | _ => trivial

/-- The word that has the fixed digits of an instruction and its operands in the fields is the one
that its code says: in no form do two operands share a digit, or an operand and a fixed digit. -/
theorem fits_form_and_operands_iff (hfits : i.Fits) :
    w.Fits i.form ∧ i.withOperands w = i ↔ w.toNat = i.code := by
  cases i with
  | jump a | call a | setIndex a =>
    have ha : a.toNat < 0x1000 := hfits
    simp [Word.Fits, form, Word.digits, Form.digit?, List.idxOf?_cons, withOperands,
      Word.nnn_eq_iff, code]
    omega
  | skipEqByte b x | skipNeByte b x | setByte b x | addByte b x | random b x =>
    have hb := b.toNat_lt
    simp [Word.Fits, form, Word.digits, Form.digit?, List.idxOf?_cons, withOperands,
      Word.nn_eq_iff, Word.x_eq_iff, code]
    omega
  | alu op y x =>
    have hop := op.nibble_lt
    rw [form, Alu.fits_form_iff]
    simp [withOperands, Word.y_eq_iff, Word.x_eq_iff, code]
    omega
  | draw y x n =>
    have hn : n.toNat < 0x10 := hfits
    simp [Word.Fits, form, Word.digits, Form.digit?, List.idxOf?_cons, withOperands,
      Word.n_eq_iff, Word.y_eq_iff, Word.x_eq_iff, code]
    omega
  | _ =>
    simp [Word.Fits, form, Word.digits, Form.digit?, List.idxOf?_cons, withOperands,
      Word.y_eq_iff, Word.x_eq_iff, code]
    omega

/-- Encoding and decoding are inverse to each other: a word is accepted as an instruction if and only
if it is the word of that instruction. -/
theorem ofWord?_eq_some_iff : ofWord? w = some i ↔ i.Fits ∧ i.toWord = w := by
  constructor
  · intro hdecode
    have hoperands := withOperands_of_ofWord? hdecode
    have hfits : i.Fits := hoperands ▸ fits_withOperands i w
    refine ⟨hfits, UInt16.toNat_inj.mp ?_⟩
    rw [toNat_toWord hfits]
    exact ((fits_form_and_operands_iff hfits).mp ⟨fits_form_of_ofWord? hdecode, hoperands⟩).symm
  · rintro ⟨hfits, rfl⟩
    obtain ⟨hform, hoperands⟩ := (fits_form_and_operands_iff hfits).mpr (toNat_toWord hfits)
    rw [ofWord?_of_fits_form hform, hoperands]

end Instruction

end Chip8
