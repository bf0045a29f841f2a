import Chip8.Proofs.Core.Refusal
import Mathlib.Logic.ExistsUnique

namespace Chip8

open Instruction (ofWord? ofWord?_of_fits_form fits_form_of_ofWord? forms)

/-- What can be wrong with the next instruction. -/
inductive Fault where
  | fetch
  | unknownWord
  | emptyStack
  | fullStack
  | sprite
  | block

namespace Fault

/-- The condition of a fault, in terms of the core before the instruction and of the word at the
program counter. -/
def Holds (c : Core) : Fault → Prop
  | fetch => 4094 < c.cpu.pc.toNat
  | unknownWord => c.cpu.pc.toNat ≤ 4094 ∧ ∀ f ∈ forms, ¬ c.word.Fits f
  | emptyStack => c.cpu.pc.toNat ≤ 4094 ∧ c.word.Fits "00EE" ∧ c.cpu.stack.toList = []
  | fullStack => c.cpu.pc.toNat ≤ 4094 ∧ c.word.Fits "2NNN" ∧ c.cpu.stack.toList.length = 12
  | sprite => c.cpu.pc.toNat ≤ 4094 ∧ c.word.Fits "DXYN" ∧ 1 ≤ c.operandN.toNat ∧
      4096 < c.cpu.i.toNat + c.visibleRows c.operandY c.operandN
  | block => c.cpu.pc.toNat ≤ 4094 ∧ (c.word.Fits "FX55" ∨ c.word.Fits "FX65") ∧
      4096 ≤ c.cpu.i.toNat + c.operandX.val

/-- The error that reports a fault. -/
def error (c : Core) : Fault → Error
  | fetch => .outOfBounds c.cpu.pc.toNat
  | unknownWord => .unimplementedOpcode c.word
  | emptyStack => .stackUnderflow c.cpu.pc
  | fullStack => .stackOverflow (UInt16.ofNat c.nnn)
  | sprite | block => .outOfBounds (max c.cpu.i.toNat 4096)

/-- The one fault that can stop an instruction after it was decoded, or the failure to decode. -/
def ofDecoded : Option (Instruction Reg) → Option Fault
  | none => some unknownWord
  | some .ret => some emptyStack
  | some (.call _) => some fullStack
  | some (.draw _ _ _) => some sprite
  | some (.store _) | some (.load _) => some block
  | some _ => none

variable {c : Core} {f g : Fault}

/-- Which fault it is can be told from what the word decodes to. -/
theorem ofDecoded_of_holds (hpc : c.cpu.pc.toNat ≤ 4094) (hf : f.Holds c) :
    ofDecoded (ofWord? c.word) = some f := by
  cases f with
  | fetch => exact absurd hf (Nat.not_lt.mpr hpc)
  | unknownWord =>
    rw [(Instruction.ofWord?_eq_none_iff c.word).mpr hf.2]
    rfl
  | emptyStack =>
    rw [ofWord?_of_fits_form (i := .ret) hf.2.1]
    rfl
  | fullStack =>
    rw [ofWord?_of_fits_form (i := .call 0) hf.2.1]
    rfl
  | sprite =>
    rw [ofWord?_of_fits_form (i := .draw 0 0 0) hf.2.1]
    rfl
  | block =>
    obtain ⟨_, hstore | hload, _⟩ := hf
    · rw [ofWord?_of_fits_form (i := .store 0) hstore]
      rfl
    · rw [ofWord?_of_fits_form (i := .load 0) hload]
      rfl

/-- No two faults come together. -/
theorem eq_of_holds (hf : f.Holds c) (hg : g.Holds c) : f = g := by
  by_cases hpc : c.cpu.pc.toNat ≤ 4094
  · have hsame := (ofDecoded_of_holds hpc hf).symm.trans (ofDecoded_of_holds hpc hg)
    exact Option.some.inj hsame
  · have hfetch (k : Fault) (hk : k.Holds c) : k = fetch := by
      cases k with
      | fetch => rfl
      | _ => exact absurd hk.1 hpc
    rw [hfetch f hf, hfetch g hg]

/-- Where a word has the form of an instruction, only this instruction can be refused. -/
theorem fault?_of_fits {i : Instruction Reg} (hpc : c.cpu.pc.toNat ≤ 4094)
    (hfits : c.word.Fits i.form) : c.fault? = c.advance.refusal? (i.withOperands c.word) := by
  rw [Core.fault?, if_neg (Nat.not_lt.mpr hpc), ofWord?_of_fits_form hfits]

/-- The condition of a fault suffices for its error. -/
theorem fault?_of_holds (hf : f.Holds c) : c.fault? = some (f.error c) := by
  cases f with
  | fetch => exact if_pos hf
  | unknownWord =>
    rw [Core.fault?, if_neg (Nat.not_lt.mpr hf.1),
      (Instruction.ofWord?_eq_none_iff c.word).mpr hf.2]
    rfl
  | emptyStack =>
    have hpc : c.cpu.pc + 2 - 2 = c.cpu.pc := UInt16.add_sub_cancel _ _
    rw [fault?_of_fits (i := .ret) hf.1 hf.2.1]
    simp only [Instruction.withOperands, Core.refusal?, Core.advance, Cpu.advance, hf.2.2, hpc,
      if_true, error]
  | fullStack =>
    rw [fault?_of_fits (i := .call 0) hf.1 hf.2.1]
    exact if_pos hf.2.2
  | sprite =>
    rw [fault?_of_fits (i := .draw 0 0 0) hf.1 hf.2.1]
    exact if_pos hf.2.2.2
  | block =>
    obtain ⟨hpc, hform, hspan⟩ := hf
    have hlong : 4096 < c.cpu.i.toNat + (c.operandX.val + 1) := by omega
    obtain hstore | hload := hform
    · rw [fault?_of_fits (i := .store 0) hpc hstore]
      exact if_pos hlong
    · rw [fault?_of_fits (i := .load 0) hpc hload]
      exact if_pos hlong

/-- A sprite has a row unless its last digit is zero. -/
private theorem n_pos_of_fits {w : Word} (hdraw : w.Fits "DXYN") (hrows : ¬ w.Fits "DXY0") :
    1 ≤ w.n.toNat := by
  rw [Word.toNat_n]
  apply Nat.pos_of_ne_zero
  intro hzero
  apply hrows
  simp [Word.Fits, Word.digits, Form.digit?, List.idxOf?_cons] at hdraw ⊢
  exact ⟨hdraw, hzero⟩

/-- Conversely every error comes from a fault, except that of a sprite without rows. -/
theorem exists_holds_of_fault? {e : Error} (he : c.fault? = some e)
    (hrows : c.cpu.pc.toNat ≤ 4094 → ¬ c.word.Fits "DXY0") : ∃ f : Fault, f.Holds c := by
  by_cases hpc : c.cpu.pc.toNat ≤ 4094
  · cases hinsn : ofWord? c.word with
    | none =>
      exact ⟨unknownWord, hpc, (Instruction.ofWord?_eq_none_iff c.word).mp hinsn⟩
    | some insn =>
      have hfits := fits_form_of_ofWord? hinsn
      rw [fault?_of_fits hpc hfits] at he
      cases insn with
      | ret =>
        simp only [Instruction.withOperands, Core.refusal?, Option.ite_none_right_eq_some] at he
        exact ⟨emptyStack, hpc, hfits, he.1⟩
      | call a =>
        simp only [Instruction.withOperands, Core.refusal?, Option.ite_none_right_eq_some] at he
        exact ⟨fullStack, hpc, hfits, he.1⟩
      | draw y x n =>
        have hlong := (Core.spanRefusal?_eq_some_iff.mp he).1
        exact ⟨sprite, hpc, hfits, n_pos_of_fits hfits (hrows hpc), hlong⟩
      | store x =>
        have hlong := (Core.spanRefusal?_eq_some_iff.mp he).1
        exact ⟨block, hpc, Or.inl hfits, Nat.lt_succ_iff.mp hlong⟩
      | load x =>
        have hlong := (Core.spanRefusal?_eq_some_iff.mp he).1
        exact ⟨block, hpc, Or.inr hfits, Nat.lt_succ_iff.mp hlong⟩
      | _ => cases he
  · exact ⟨fetch, Nat.not_le.mp hpc⟩

/-- A tick ends with an error exactly if one of the faults is there, and then no other is and the
error is the one that reports it. A sprite without rows is left out: it is the one word that can
fault for another reason. -/
theorem tick_error_iff_existsUnique_fault (c : Core) (roll : UInt8)
    (hrows : c.cpu.pc.toNat ≤ 4094 → ¬ c.word.Fits "DXY0") :
    ((∃ e, (c.tick roll).2 = .error e) ↔ ∃! f : Fault, f.Holds c) ∧
      (∀ f : Fault, f.Holds c → (c.tick roll).2 = .error (f.error c)) ∧
      ((∀ f : Fault, ¬ f.Holds c) → (c.tick roll).2 = .ok ()) := by
  have herror (f : Fault) (hf : f.Holds c) : (c.tick roll).2 = .error (f.error c) :=
    (c.tick_eq_error_iff roll _).mpr (fault?_of_holds hf)
  refine ⟨⟨?_, ?_⟩, herror, ?_⟩
  · rintro ⟨e, he⟩
    have hfault := (c.tick_eq_error_iff roll e).mp he
    obtain ⟨f, hf⟩ := exists_holds_of_fault? hfault hrows
    exact ⟨f, hf, fun g hg => eq_of_holds hg hf⟩
  · rintro ⟨f, hf, _⟩
    exact ⟨f.error c, herror f hf⟩
  · intro hnone
    cases hfault : c.fault? with
    | none => exact Core.tick_of_no_fault roll hfault
    | some e =>
      obtain ⟨f, hf⟩ := exists_holds_of_fault? hfault hrows
      exact absurd hf (hnone f)

/-- The next instruction is `F165` and its two bytes start at the last one of memory. -/
def blockAtEndOfMemory : Core :=
  .loaded { Cpu.initial false with i := 0xFFF } [0xF1, 0x65]

private theorem word_blockAtEndOfMemory : blockAtEndOfMemory.word = Word.ofBytes 0xF1 0x65 :=
  Core.word_loaded rfl 0xF1 0x65 []

theorem tick_error_iff_existsUnique_fault_block :
    (blockAtEndOfMemory.cpu.pc.toNat ≤ 4094 → ¬ blockAtEndOfMemory.word.Fits "DXY0") ∧
      (∃! f : Fault, f.Holds blockAtEndOfMemory) ∧
      (blockAtEndOfMemory.tick 0).2 = .error (.outOfBounds 0x1000) := by
  have hrows : ¬ blockAtEndOfMemory.word.Fits "DXY0" := by
    rw [word_blockAtEndOfMemory]
    decide
  have hblock : block.Holds blockAtEndOfMemory := by
    rw [Holds, Core.operandX_of_word word_blockAtEndOfMemory, word_blockAtEndOfMemory]
    decide
  obtain ⟨hiff, herror, _⟩ :=
    tick_error_iff_existsUnique_fault blockAtEndOfMemory 0 (fun _ => hrows)
  have hend := herror block hblock
  exact ⟨fun _ => hrows, hiff.mp ⟨_, hend⟩, hend⟩

end Fault

end Chip8
