import Chip8.Instruction.Decode

namespace Chip8

/-- The digit that a place of a form prescribes. The letters `X`, `Y` and `N` stand for operands and
prescribe none. -/
def Form.digit? (place : Char) : Option Nat :=
  "0123456789ABCDEF".toList.idxOf? place

namespace Word

/-- The hexadecimal digits of a word, the highest first. -/
def digits (w : Word) : List Nat :=
  [w.toNat / 0x1000, w.toNat / 0x100 % 16, w.toNat / 0x10 % 16, w.toNat % 16]

/-- Whether a word has a form such as `8XY4`, which gives its places from the highest digit on. -/
def Fits (w : Word) (form : String) : Prop :=
  ∀ place ∈ form.toList.zip w.digits, ∀ d ∈ Form.digit? place.1, place.2 = d

instance (w : Word) (form : String) : Decidable (w.Fits form) :=
  inferInstanceAs (Decidable (∀ place ∈ _, _))

end Word

def Alu.form : Alu → String
  | copy => "8XY0"
  | or => "8XY1"
  | and => "8XY2"
  | xor => "8XY3"
  | add => "8XY4"
  | sub => "8XY5"
  | shiftRight => "8XY6"
  | subReverse => "8XY7"
  | shiftLeft => "8XYE"

namespace Instruction

/-- The form of the words that stand for an instruction. -/
def form {R : Type} : Instruction R → String
  | clear => "00E0"
  | ret => "00EE"
  | jump _ => "1NNN"
  | call _ => "2NNN"
  | skipEqByte _ _ => "3XNN"
  | skipNeByte _ _ => "4XNN"
  | skipEq _ _ => "5XY0"
  | setByte _ _ => "6XNN"
  | addByte _ _ => "7XNN"
  | alu op _ _ => op.form
  | skipNe _ _ => "9XY0"
  | setIndex _ => "ANNN"
  | random _ _ => "CXNN"
  | draw _ _ _ => "DXYN"
  | addIndex _ => "FX1E"
  | store _ => "FX55"
  | load _ => "FX65"

/-- The same kind of instruction with its operands read from the fields of a word. -/
def withOperands (i : Instruction Reg) (w : Word) : Instruction Reg :=
  match i with
  | clear => clear
  | ret => ret
  | jump _ => jump w.nnn
  | call _ => call w.nnn
  | skipEqByte _ _ => skipEqByte w.nn w.x
  | skipNeByte _ _ => skipNeByte w.nn w.x
  | skipEq _ _ => skipEq w.y w.x
  | setByte _ _ => setByte w.nn w.x
  | addByte _ _ => addByte w.nn w.x
  | alu op _ _ => alu op w.y w.x
  | skipNe _ _ => skipNe w.y w.x
  | setIndex _ => setIndex w.nnn
  | random _ _ => random w.nn w.x
  | draw _ _ _ => draw w.y w.x w.n
  | addIndex _ => addIndex w.x
  | store _ => store w.x
  | load _ => load w.x

def forms : List String :=
  ["00E0", "00EE", "1NNN", "2NNN", "3XNN", "4XNN", "5XY0", "6XNN", "7XNN", "8XY0", "8XY1", "8XY2",
    "8XY3", "8XY4", "8XY5", "8XY6", "8XY7", "8XYE", "9XY0", "ANNN", "CXNN", "DXYN", "FX1E", "FX55",
    "FX65"]

theorem form_mem_forms {R : Type} (i : Instruction R) : i.form ∈ forms := by
  cases i with
  | alu op y x => cases op <;> simp [form, Alu.form, forms]
  | _ => simp [form, forms]

/-- Every form in the list is that of an instruction. -/
theorem exists_form_eq {f : String} (hf : f ∈ forms) : ∃ i : Instruction Reg, i.form = f := by
  have hall : forms = (([clear, ret, jump 0, call 0, skipEqByte 0 0, skipNeByte 0 0, skipEq 0 0,
      setByte 0 0, addByte 0 0] ++ [.copy, .or, .and, .xor, .add, .sub, .shiftRight, .subReverse,
      .shiftLeft].map (alu · 0 0) ++ [skipNe 0 0, setIndex 0, random 0 0, draw 0 0 0, addIndex 0,
      store 0, load 0] : List (Instruction Reg)).map form) := rfl
  rw [hall] at hf
  obtain ⟨i, _, hi⟩ := List.mem_map.mp hf
  exact ⟨i, hi⟩

private theorem n_eq_zero_iff (w : Word) : w.n = 0 ↔ w.toNat % 16 = 0 := by
  rw [← UInt8.toNat_inj, Word.toNat_n]
  rfl

/-- A word of the form of an instruction decodes to it, with the operands of the word. -/
theorem ofWord?_of_fits_form {w : Word} {i : Instruction Reg} (hfits : w.Fits i.form) :
    ofWord? w = some (i.withOperands w) := by
  cases i with
  | clear =>
    simp [Word.Fits, form, Word.digits, Form.digit?, List.idxOf?_cons] at hfits
    have hgroup : w.toNat / 0x1000 = 0 := by omega
    have hrest : w.toNat % 0x1000 = 0x0E0 := by omega
    simp [ofWord?, Word.group, hgroup, hrest, withOperands]
  | ret =>
    simp [Word.Fits, form, Word.digits, Form.digit?, List.idxOf?_cons] at hfits
    have hgroup : w.toNat / 0x1000 = 0 := by omega
    have hrest : w.toNat % 0x1000 = 0x0EE := by omega
    simp [ofWord?, Word.group, hgroup, hrest, withOperands]
  | alu op y x =>
    have hw : w.toNat / 0x1000 = 8 ∧ Alu.ofNibble? (w.toNat % 16) = some op := by
      cases op <;>
        simp [Word.Fits, form, Alu.form, Word.digits, Form.digit?, List.idxOf?_cons] at hfits <;>
        simp [hfits, Alu.ofNibble?]
    simp [ofWord?, Word.group, hw, withOperands]
  | addIndex x =>
    simp [Word.Fits, form, Word.digits, Form.digit?, List.idxOf?_cons] at hfits
    have hrest : w.toNat % 0x100 = 0x1E := by omega
    simp [ofWord?, Word.group, hfits.1, hrest, withOperands]
  | store x =>
    simp [Word.Fits, form, Word.digits, Form.digit?, List.idxOf?_cons] at hfits
    have hrest : w.toNat % 0x100 = 0x55 := by omega
    simp [ofWord?, Word.group, hfits.1, hrest, withOperands]
  | load x =>
    simp [Word.Fits, form, Word.digits, Form.digit?, List.idxOf?_cons] at hfits
    have hrest : w.toNat % 0x100 = 0x65 := by omega
    simp [ofWord?, Word.group, hfits.1, hrest, withOperands]
  | _ =>
    simp [Word.Fits, form, Word.digits, Form.digit?, List.idxOf?_cons] at hfits
    simp [ofWord?, Word.group, hfits, withOperands, n_eq_zero_iff]

/-- The last digit of a word in the family of two registers selects the operation. -/
private theorem fits_form_of_ofNibble? {w : Word} {op : Alu} (hgroup : w.toNat / 0x1000 = 8)
    (hop : Alu.ofNibble? w.n.toNat = some op) : w.Fits op.form := by
  rw [Word.toNat_n] at hop
  unfold Alu.ofNibble? at hop
  split at hop <;> cases hop <;>
    simp [Word.Fits, Alu.form, Word.digits, Form.digit?, List.idxOf?_cons, *]

/-- A word that decodes has the form of what it decodes to. -/
theorem fits_form_of_ofWord? {w : Word} {i : Instruction Reg} (h : ofWord? w = some i) :
    w.Fits i.form := by
  have hlt := w.toNat_lt
  unfold ofWord? Word.group at h
  split at h
  case h_9 hgroup =>
    obtain ⟨op, hop, rfl⟩ := Option.map_eq_some_iff.mp h
    exact fits_form_of_ofNibble? hgroup hop
  case h_15 => cases h
  -- Two families have no operand below the high nibble or only one, and fix the digits that remain.
  case h_1 hgroup | h_14 hgroup =>
    split at h <;> cases h
    all_goals
      next hrest =>
        simp only [Word.toNat_nnn, Word.toNat_nn] at hrest
        simp [Word.Fits, form, Word.digits, Form.digit?, List.idxOf?_cons]
        omega
  case h_6 hgroup | h_10 hgroup =>
    split at h <;> cases h
    next hn =>
      have hlow := (n_eq_zero_iff w).mp hn
      simp [Word.Fits, form, Word.digits, Form.digit?, List.idxOf?_cons, hgroup, hlow]
  all_goals
    next hgroup =>
      cases h
      simp [Word.Fits, form, Word.digits, Form.digit?, List.idxOf?_cons, hgroup]

/-- An instruction that a word encodes has all its operands from the fields of that word. -/
theorem withOperands_of_ofWord? {w : Word} {i : Instruction Reg} (h : ofWord? w = some i) :
    i.withOperands w = i := by
  have hfields := ofWord?_of_fits_form (fits_form_of_ofWord? h)
  exact Option.some.inj (hfields.symm.trans h)

/-- The words that do not decode are those of no form. -/
theorem ofWord?_eq_none_iff (w : Word) : ofWord? w = none ↔ ∀ f ∈ forms, ¬ w.Fits f := by
  constructor
  · intro hnone f hf hfits
    obtain ⟨i, rfl⟩ := exists_form_eq hf
    rw [ofWord?_of_fits_form hfits] at hnone
    cases hnone
  · intro hnone
    cases h : ofWord? w with
    | none => rfl
    | some i => exact absurd (fits_form_of_ofWord? h) (hnone _ i.form_mem_forms)

end Instruction

end Chip8
