import Chip8.Core.Tick
import Chip8.Proofs.Instruction.Form

namespace Chip8.Core

open Instruction (ofWord? forms)

/-- The byte at an address of memory. A byte that memory lacks counts as zero. -/
def byteAt (c : Core) (addr : Nat) : Nat :=
  (c.mem.bytes[addr]?.getD 0).toNat

/-- The word at the program counter. The byte there is the high one. -/
def word (c : Core) : Word :=
  UInt16.ofNat (256 * c.byteAt c.cpu.pc.toNat + c.byteAt (c.cpu.pc.toNat + 1))

/-- The register that the second digit of the word names. -/
def operandX (c : Core) : Reg :=
  ⟨c.word.toNat / 0x100 % 16, Nat.mod_lt _ (by decide)⟩

/-- The register that the third digit of the word names. -/
def operandY (c : Core) : Reg :=
  ⟨c.word.toNat / 0x10 % 16, Nat.mod_lt _ (by decide)⟩

/-- The last digit of the word. -/
def operandN (c : Core) : UInt8 :=
  UInt8.ofNat (c.word.toNat % 16)

/-- The last two digits of the word. -/
def nn (c : Core) : Nat := c.word.toNat % 0x100

/-- The last three digits of the word. -/
def nnn (c : Core) : Nat := c.word.toNat % 0x1000

theorem word_eq_ofBytes (c : Core) : c.word =
    Word.ofBytes (c.mem.bytes[c.cpu.pc.toNat]?.getD 0) (c.mem.bytes[c.cpu.pc.toNat + 1]?.getD 0) :=
  rfl

/-- The register that is decoded from the word is the one that its second digit names. -/
theorem operandX_of_word {c : Core} {w : Word} (h : c.word = w) : c.operandX = w.x := by
  subst h
  rfl

theorem toNat_nn_word (c : Core) : c.word.nn.toNat = c.nn := Word.toNat_nn _

theorem toNat_nnn_word (c : Core) : c.word.nnn.toNat = c.nnn := Word.toNat_nnn _

/-- Inside memory a fetch answers with the word at the program counter. -/
theorem fetch_of_le {c : Core} (hpc : c.cpu.pc.toNat ≤ 4094) :
    c.cpu.fetch c.mem = .ok c.word := by
  have hfirst : c.cpu.pc.toNat < Memory.size := by
    change _ < 4096
    omega
  have hsecond : c.cpu.pc.toNat + 1 < Memory.size := by
    change _ < 4096
    omega
  have hinside : ¬ Memory.size - 2 < c.cpu.pc.toNat := Nat.not_lt.mpr hpc
  rw [Cpu.fetch, if_neg hinside, c.mem.readWord_of_lt hfirst hsecond]
  simp only [word_eq_ofBytes, Vector.getElem?_eq_getElem hfirst, Vector.getElem?_eq_getElem hsecond,
    Option.getD_some]

/-- Inside memory the program counter moves on without wrapping around. -/
theorem toNat_pc_advance {c : Core} (hpc : c.cpu.pc.toNat ≤ 4094) :
    c.advance.cpu.pc.toNat = c.cpu.pc.toNat + 2 :=
  Cpu.toNat_pc_advance (by omega)

/-- A processor with a program in memory and the screen dark. -/
def loaded (cpu : Cpu) (program : List UInt8) : Core where
  cpu := cpu
  mem := Memory.zeroed.blit 0x200 program
  screen := .standard

/-- A processor at the start of a program is about to execute its first two bytes. -/
theorem word_loaded {cpu : Cpu} (hpc : cpu.pc = Cpu.entry) (high low : UInt8)
    (rest : List UInt8) : (loaded cpu (high :: low :: rest)).word = Word.ofBytes high low := by
  have hentry : cpu.pc.toNat = 0x200 := congrArg UInt16.toNat hpc
  have hlength : (high :: low :: rest).length = rest.length + 2 := rfl
  have hsize : Memory.size = 0x1000 := rfl
  rw [word_eq_ofBytes, loaded]
  dsimp only
  rw [hentry, Memory.getElem?_blit, Memory.getElem?_blit, if_pos (by omega), if_pos (by omega)]
  rfl

/-- A word that would reach past the last byte of memory is not fetched, and nothing else happens. -/
theorem tick_of_lt {c : Core} (roll : UInt8) (hpc : 4094 < c.cpu.pc.toNat) :
    c.tick roll = (c, .error (.outOfBounds c.cpu.pc.toNat)) := by
  have hfetch : c.cpu.fetch c.mem = .error (.outOfBounds c.cpu.pc.toNat) := if_pos hpc
  rw [tick, hfetch]

/-- A word of no form is reported as it is. It has been fetched by then, so the program
counter is past it. -/
theorem tick_of_not_fits {c : Core} (roll : UInt8) (hpc : c.cpu.pc.toNat ≤ 4094)
    (hnone : ∀ f ∈ forms, ¬ c.word.Fits f) :
    c.tick roll = (c.advance, .error (.unimplementedOpcode c.word)) := by
  rw [tick, fetch_of_le hpc]
  dsimp only
  rw [(Instruction.ofWord?_eq_none_iff c.word).mpr hnone]

/-- A tick that executes an instruction to its end counts it. -/
theorem tick_of_execute_ok {c d : Core} {roll : UInt8} {insn : Instruction Reg}
    (hpc : c.cpu.pc.toNat ≤ 4094) (hinsn : ofWord? c.word = some insn)
    (hexecute : c.advance.execute roll insn = (d, .ok ())) :
    c.tick roll = (d.countCycle, .ok ()) := by
  rw [tick, fetch_of_le hpc]
  dsimp only
  rw [hinsn]
  dsimp only
  rw [hexecute]

/-- A tick whose instruction fails leaves what the instruction has left, and counts nothing. -/
theorem tick_of_execute_error {c d : Core} {roll : UInt8} {insn : Instruction Reg} {e : Error}
    (hpc : c.cpu.pc.toNat ≤ 4094) (hinsn : ofWord? c.word = some insn)
    (hexecute : c.advance.execute roll insn = (d, .error e)) :
    c.tick roll = (d, .error e) := by
  rw [tick, fetch_of_le hpc]
  dsimp only
  rw [hinsn]
  dsimp only
  rw [hexecute]

/-- What a tick has done that ended well. -/
theorem exists_execute_of_tick_ok {c : Core} {roll : UInt8} (htick : (c.tick roll).2 = .ok ()) :
    ∃ insn d, c.cpu.pc.toNat ≤ 4094 ∧ ofWord? c.word = some insn ∧
      c.advance.execute roll insn = (d, .ok ()) ∧ (c.tick roll).1 = d.countCycle := by
  by_cases hpc : c.cpu.pc.toNat ≤ 4094
  · cases hinsn : ofWord? c.word with
    | none =>
      rw [tick_of_not_fits roll hpc ((Instruction.ofWord?_eq_none_iff c.word).mp hinsn)] at htick
      cases htick
    | some insn =>
      cases hexecute : c.advance.execute roll insn with
      | mk d result =>
        cases result with
        | error e =>
          rw [tick_of_execute_error hpc hinsn hexecute] at htick
          cases htick
        | ok _ =>
          refine ⟨insn, d, hpc, rfl, hexecute, ?_⟩
          rw [tick_of_execute_ok hpc hinsn hexecute]
  · rw [tick_of_lt roll (Nat.not_le.mp hpc)] at htick
    cases htick

end Chip8.Core
