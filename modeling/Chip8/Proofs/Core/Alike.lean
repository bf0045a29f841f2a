import Chip8.Proofs.Core.Flow
import Chip8.Proofs.Core.Refusal
import Chip8.Proofs.Core.Watch

namespace Chip8.Core

/-- Two cores that a program cannot tell apart. What they may differ in are the slots that hold no open
call, and what the host keeps for watching programs. -/
structure Alike (c d : Core) : Prop where
  pc : c.cpu.pc = d.cpu.pc
  index : c.cpu.i = d.cpu.i
  registers : c.cpu.v = d.cpu.v
  openCalls : c.openCalls = d.openCalls
  mem : c.mem = d.mem
  screen : c.screen = d.screen

/-- The next instruction uses the byte that is rolled for it. -/
def Rolls (c : Core) : Prop := c.cpu.pc.toNat ≤ 4094 ∧ c.word.Fits "CXNN"

instance : DecidablePred Rolls := fun _ => inferInstanceAs (Decidable (_ ∧ _))

/-- The core after a number of ticks, whatever they answer. The byte `rolls k` is offered to the one
that comes after `k` others. -/
def after (c : Core) (rolls : Nat → UInt8) : Nat → Core
  | 0 => c
  | k + 1 => ((c.after rolls k).tick (rolls k)).1

/-- What the tick answers that comes after `k` others. -/
def answerAt (c : Core) (rolls : Nat → UInt8) (k : Nat) : Except Error Unit :=
  ((c.after rolls k).tick (rolls k)).2

variable {c d : Core} {roll roll' : UInt8} {rolls rolls' : Nat → UInt8}

/-- Of two cores that are alike, one is the other in disguise. -/
theorem Alike.eq_disguise (h : c.Alike d) : d = c.disguise d.cpu.stack d.cpu.watch := by
  obtain ⟨hpc, hindex, hregisters, _, hmem, hscreen⟩ := h
  simp only [disguise, hpc, hindex, hregisters, hmem, hscreen]
  rfl

/-- A disguise with the same open calls cannot be told apart. -/
theorem alike_disguise {t : CallStack} {watch : Bool × Nat × List Word}
    (hlive : t.toList = c.cpu.stack.toList) : c.Alike (c.disguise t watch) :=
  ⟨rfl, rfl, rfl, hlive.symm, rfl, rfl⟩

/-- Only one instruction looks at the byte of chance. -/
theorem execute_of_ne_random {insn : Instruction Reg} (hne : ∀ b x, insn ≠ .random b x) :
    c.execute roll insn = c.execute roll' insn := by
  cases insn with
  | random b x => exact absurd rfl (hne b x)
  | _ => rfl

/-- A byte that is not used does not matter. -/
theorem tick_of_not_rolls (hunused : ¬ c.Rolls) : c.tick roll = c.tick roll' := by
  by_cases hpc : c.cpu.pc.toNat ≤ 4094
  · rw [Core.tick, Core.tick, fetch_of_le hpc]
    dsimp only
    cases hinsn : Instruction.ofWord? c.word with
    | none => rfl
    | some insn =>
      have hne (b : UInt8) (x : Reg) : insn ≠ .random b x := by
        rintro rfl
        have hfits : c.word.Fits (Instruction.random b x).form :=
          Instruction.fits_form_of_ofWord? hinsn
        exact hunused ⟨hpc, hfits⟩
      have hexecute : c.advance.execute roll insn = c.advance.execute roll' insn :=
        execute_of_ne_random hne
      dsimp only
      rw [hexecute]
  · have hout := Nat.not_le.mp hpc
    rw [tick_of_lt roll hout, tick_of_lt roll' hout]

/-- A byte has to be the same only if it is used. -/
theorem tick_congr_roll (hused : c.Rolls → roll = roll') : c.tick roll = c.tick roll' := by
  by_cases hrolls : c.Rolls
  · rw [hused hrolls]
  · exact tick_of_not_rolls hrolls

/-- Cores that are alike tick alike if they use the same byte or none. -/
theorem Alike.tick (h : c.Alike d) (hused : c.Rolls → roll = roll') :
    (c.tick roll).2 = (d.tick roll').2 ∧ (c.tick roll).1.Alike (d.tick roll').1 := by
  obtain ⟨t', houtcome, hlive, _⟩ :=
    exists_tick_disguised (c := c) d.cpu.watch roll' h.openCalls.symm
  rw [← h.eq_disguise] at houtcome
  rw [tick_congr_roll hused, houtcome]
  exact ⟨rfl, alike_disguise hlive⟩

section Runs

variable {n k : Nat}

/-- The agreement is kept over any number of ticks. -/
theorem Alike.after (h : c.Alike d) (hk : k ≤ n)
    (hrolls : ∀ i < n, (c.after rolls i).Rolls → rolls i = rolls' i) :
    (c.after rolls k).Alike (d.after rolls' k) := by
  induction k with
  | zero => exact h
  | succ k ih =>
    have hearlier := ih (Nat.le_of_succ_le hk)
    exact (hearlier.tick (hrolls k hk)).2

/-- Each of the ticks answers the same. -/
theorem Alike.answerAt (h : c.Alike d) (hk : k < n)
    (hrolls : ∀ i < n, (c.after rolls i).Rolls → rolls i = rolls' i) :
    c.answerAt rolls k = d.answerAt rolls' k :=
  ((h.after (Nat.le_of_lt hk) hrolls).tick (hrolls k hk)).1

/-- Equal answers count equally many cycles. -/
theorem Alike.exists_cycles (h : c.Alike d) (hk : k ≤ n)
    (hrolls : ∀ i < n, (c.after rolls i).Rolls → rolls i = rolls' i) :
    ∃ m, (c.after rolls k).cpu.cycle = c.cpu.cycle + m ∧
      (d.after rolls' k).cpu.cycle = d.cpu.cycle + m := by
  induction k with
  | zero => exact ⟨0, rfl, rfl⟩
  | succ k ih =>
    obtain ⟨m, hc, hd⟩ := ih (Nat.le_of_succ_le hk)
    have hanswer := h.answerAt hk hrolls
    refine ⟨m + cyclesOf (c.answerAt rolls k), ?_, ?_⟩
    · rw [Core.after, cycle_tick, hc, Nat.add_assoc]
      rfl
    · rw [Core.after, cycle_tick, hd, Nat.add_assoc, hanswer]
      rfl

/-- What a program does depends on the program counter, the index register, the general registers, the
open calls, the memory and the screen alone. From two cores that agree on these every run of ticks gives
the same answers and keeps the agreement, and both count on by the same number of cycles. Of the bytes
of chance only those have to be the same that are used. -/
theorem alike_cores_run_alike (h : c.Alike d) (n : Nat)
    (hrolls : ∀ k < n, (c.after rolls k).Rolls → rolls k = rolls' k) :
    (∀ k < n, c.answerAt rolls k = d.answerAt rolls' k) ∧
      ∀ k ≤ n, (c.after rolls k).Alike (d.after rolls' k) ∧
        ∃ m, (c.after rolls k).cpu.cycle = c.cpu.cycle + m ∧
          (d.after rolls' k).cpu.cycle = d.cpu.cycle + m :=
  ⟨fun _ hk => h.answerAt hk hrolls,
    fun _ hk => ⟨h.after hk hrolls, h.exists_cycles hk hrolls⟩⟩

end Runs

/-- A program that calls `204`, returns from there, rolls for `v1` and returns once more. -/
def returnsTwice : Core :=
  .loaded (.initial false) [0x22, 0x04, 0xC1, 0xFF, 0x00, 0xEE]

/-- The same with an address in every slot of the stack, although no call is open. -/
def returnsTwiceStale : Core :=
  returnsTwice.disguise { CallStack.empty with slots := Vector.replicate 12 0x300 } (true, 77, [0x202])

/-- Bytes of chance that differ except for the one tick that rolls. -/
def otherBytes (k : Nat) : UInt8 := if k = 2 then 0x2A else 0xFF

/-- The second return finds no open call, whatever the slots hold. -/
theorem alike_cores_run_alike_stale :
    returnsTwice.Alike returnsTwiceStale ∧
      returnsTwice.cpu.stack.slots[0]? ≠ returnsTwiceStale.cpu.stack.slots[0]? ∧
      returnsTwiceStale.answerAt otherBytes 3 = .error (.stackUnderflow 0x204) ∧
      (returnsTwiceStale.after otherBytes 4).cpu.reg 1 = 0x2A := by
  obtain ⟨hrolls, hfault, hregister⟩ :
      (∀ k < 4, (returnsTwice.after (fun _ => 0x2A) k).Rolls → 0x2A = otherBytes k) ∧
        (returnsTwice.after (fun _ => 0x2A) 3).fault? = some (.stackUnderflow 0x204) ∧
        (returnsTwice.after (fun _ => 0x2A) 4).cpu.reg 1 = 0x2A := by
    decide +kernel
  have hnone : returnsTwice.openCalls = [] := CallStack.toList_empty
  have hnoneStale : returnsTwiceStale.openCalls = [] :=
    List.eq_nil_of_length_eq_zero (CallStack.length_toList _)
  have halike : returnsTwice.Alike returnsTwiceStale :=
    alike_disguise (hnoneStale.trans hnone.symm)
  obtain ⟨hanswers, hagree⟩ := alike_cores_run_alike halike 4 hrolls
  have hsame : (returnsTwice.after (fun _ => 0x2A) 4).cpu.reg 1 =
      (returnsTwiceStale.after otherBytes 4).cpu.reg 1 :=
    congrArg (·.get 1) (hagree 4 (Nat.le_refl 4)).1.registers
  refine ⟨halike, by decide, ?_, hsame.symm.trans hregister⟩
  rw [← hanswers 3 (by decide), answerAt, tick_eq_error_iff]
  exact hfault

end Chip8.Core
