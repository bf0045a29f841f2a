import Chip8.Proofs.Core.Fetch
import Chip8.Proofs.Instruction.RoundTrip
import Chip8.Proofs.Machine.Reload

namespace Chip8

namespace Instruction

variable {program : List (Instruction Reg)} {i : Instruction Reg}

theorem assemble_cons (i : Instruction Reg) (rest : List (Instruction Reg)) :
    assemble (i :: rest) = i.toWord.high :: i.toWord.low :: assemble rest := rfl

/-- Every instruction takes two bytes. -/
theorem length_assemble (program : List (Instruction Reg)) :
    (assemble program).length = 2 * program.length := by
  induction program with
  | nil => rfl
  | cons i rest ih =>
    rw [assemble_cons, List.length_cons, List.length_cons, List.length_cons, ih]
    omega

/-- The bytes of every instruction stand where its number says, the high one first. -/
theorem getElem?_assemble {k : Nat} (hi : program[k]? = some i) :
    (assemble program)[2 * k]? = some i.toWord.high ∧
      (assemble program)[2 * k + 1]? = some i.toWord.low := by
  induction program generalizing k with
  | nil => cases hi
  | cons first rest ih =>
    rw [assemble_cons]
    cases k with
    | zero =>
      cases hi
      exact ⟨rfl, rfl⟩
    | succ k => exact ih hi

end Instruction

namespace Machine

open Instruction (assemble ofWord? length_assemble getElem?_assemble ofWord?_eq_some_iff)

variable {program : List (Instruction Reg)} {i : Instruction Reg} {font : List UInt8} {m : Machine}

/-- An assembled program that was loaded has the words of its instructions one behind the other. -/
theorem Starts.fetch_assembled (h : m.Starts font (assemble program)) (hfont : font.length ≤ 512)
    (hprogram : program.length ≤ 1792) {k : Nat} (hi : program[k]? = some i) :
    ({ m.cpu with pc := UInt16.ofNat (0x200 + 2 * k) } : Cpu).fetch m.mem = .ok i.toWord := by
  have hbytes : (assemble program).length ≤ 3584 := by
    rw [length_assemble]
    omega
  have hk : k < program.length := (List.getElem?_eq_some_iff.mp hi).1
  have hpc : (UInt16.ofNat (0x200 + 2 * k)).toNat = 0x200 + 2 * k := by
    rw [UInt16.toNat_ofNat']
    omega
  obtain ⟨hhigh, hlow⟩ := getElem?_assemble hi
  have hfirst := Memory.getElem?_of_image h.memory hfont hbytes hhigh
  have hsecond := Memory.getElem?_of_image h.memory hfont hbytes hlow
  let c : Core := { m.toCore with cpu := { m.cpu with pc := UInt16.ofNat (0x200 + 2 * k) } }
  have hword : c.word = i.toWord := by
    change Word.ofBytes (m.mem.bytes[(UInt16.ofNat (0x200 + 2 * k)).toNat]?.getD 0)
      (m.mem.bytes[(UInt16.ofNat (0x200 + 2 * k)).toNat + 1]?.getD 0) = _
    rw [hpc, hfirst, Nat.add_assoc, hsecond]
    exact Word.ofBytes_high_low i.toWord
  rw [← hword]
  apply Core.fetch_of_le (c := c)
  change (UInt16.ofNat (0x200 + 2 * k)).toNat ≤ 4094
  omega

/-- A program comes back out of memory as it was before it was assembled. Every list of instructions
that memory has room for is taken, whatever was in the machine before, and the word at the place of
each of them decodes to it. The word of an instruction follows its form, with the operands in the
fields. And the other way round, a word that decodes is the word of what it decodes to, so that no two
words are the same instruction. -/
theorem assembled_program_reads_back (m : Machine) :
    (∀ program : List (Instruction Reg), program.length ≤ 1792 → (∀ i ∈ program, i.Fits) →
      ∃ loaded, m.loadProgram (assemble program) = (loaded, .ok ()) ∧
        ∀ k i, program[k]? = some i →
          ({ loaded.cpu with pc := UInt16.ofNat (0x200 + 2 * k) } : Cpu).fetch loaded.mem =
              .ok i.toWord ∧
            ofWord? i.toWord = some i) ∧
      (∀ i : Instruction Reg, i.Fits → i.toWord.Fits i.form ∧ i.withOperands i.toWord = i) ∧
      (∀ w i, ofWord? w = some i → i.Fits ∧ w = i.toWord) ∧
      ∀ w w' i, ofWord? w = some i → ofWord? w' = some i → w = w' := by
  have hback (w : Word) (i : Instruction Reg) (hdecode : ofWord? w = some i) :
      i.Fits ∧ w = i.toWord := by
    obtain ⟨hfits, hword⟩ := ofWord?_eq_some_iff.mp hdecode
    exact ⟨hfits, hword.symm⟩
  refine ⟨?_, ?_, hback, ?_⟩
  · intro program hlength hfits
    have hbytes : (assemble program).length ≤ 3584 := by
      rw [length_assemble]
      omega
    have hfont := Font.length_bytes_le
    obtain ⟨loaded, hload, hstarts, _⟩ := m.exists_load hfont hbytes
    refine ⟨loaded, hload, ?_⟩
    intro k i hi
    have hdecode := ofWord?_eq_some_iff.mpr ⟨hfits i (List.mem_of_getElem? hi), rfl⟩
    exact ⟨hstarts.fetch_assembled hfont hlength hi, hdecode⟩
  · intro i hfits
    exact (Instruction.fits_form_and_operands_iff hfits).mpr (Instruction.toNat_toWord hfits)
  · intro w w' i hdecode hdecode'
    exact (hback w i hdecode).2.trans (hback w' i hdecode').2.symm

/-- A machine that has quit, with a memory full of something else. -/
def worn : Machine :=
  { standard with mem := ⟨Vector.replicate Memory.size 0xFF⟩, state := .quit }

/-- The second of two instructions is found behind the first, with neither register in the place of
the other. -/
theorem assembled_program_reads_back_draw :
    assemble [.setIndex 0x2A4, .draw 1 2 5] = [0xA2, 0xA4, 0xD2, 0x15] ∧
      ∃ loaded, worn.loadProgram [0xA2, 0xA4, 0xD2, 0x15] = (loaded, .ok ()) ∧
        ({ loaded.cpu with pc := 0x202 } : Cpu).fetch loaded.mem = .ok 0xD215 ∧
        ofWord? 0xD215 = some (.draw 1 2 5) := by
  have hassemble : assemble [.setIndex 0x2A4, .draw 1 2 5] = [0xA2, 0xA4, 0xD2, 0x15] := by decide
  have hfits : ∀ i ∈ ([.setIndex 0x2A4, .draw 1 2 5] : List (Instruction Reg)), i.Fits := by
    intro i hi
    simp only [List.mem_cons, List.not_mem_nil, or_false] at hi
    obtain rfl | rfl := hi
    · exact (by decide : (0x2A4 : Word).toNat < 0x1000)
    · exact (by decide : (5 : UInt8).toNat < 0x10)
  obtain ⟨loaded, hload, hplaces⟩ := (assembled_program_reads_back worn).1
    [.setIndex 0x2A4, .draw 1 2 5] (by decide) hfits
  rw [hassemble] at hload
  exact ⟨hassemble, loaded, hload, hplaces 1 (.draw 1 2 5) rfl⟩

end Machine

end Chip8
