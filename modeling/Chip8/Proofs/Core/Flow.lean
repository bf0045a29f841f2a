import Chip8.Proofs.Core.Fetch

namespace Chip8

open Instruction (ofWord? ofWord?_of_fits_form fits_form_of_ofWord?)

namespace Core

/-- The next instruction is a call. -/
def Calls (c : Core) : Prop := c.word.Fits "2NNN"

/-- The next instruction is a return. -/
def Returns (c : Core) : Prop := c.word.Fits "00EE"

instance : DecidablePred Calls := fun c => inferInstanceAs (Decidable (c.word.Fits _))

instance : DecidablePred Returns := fun c => inferInstanceAs (Decidable (c.word.Fits _))

/-- The return addresses of the open calls, oldest first. -/
def openCalls (c : Core) : List Word := c.cpu.stack.toList

theorem openCalls_advance (c : Core) : c.advance.openCalls = c.openCalls := rfl

theorem pc_countCycle (c : Core) : c.countCycle.cpu.pc = c.cpu.pc := rfl

variable {c d : Core} {roll : UInt8}

/-- Where an instruction goes that does not touch the open calls: on, past the next instruction, or
to its operand. -/
structure StaysLevel (c d : Core) (insn : Instruction Reg) : Prop where
  stack : d.cpu.stack = c.cpu.stack
  pc : d.cpu.pc = c.cpu.pc ∨ d.cpu.pc = c.cpu.advance.pc ∨ insn = .jump d.cpu.pc

/-- What an instruction does with the program counter, which is past it already, and with the open
calls. -/
theorem control_execute {insn : Instruction Reg} (h : c.execute roll insn = (d, .ok ())) :
    (∃ a, insn = .call a ∧ d.cpu.pc = a ∧ c.cpu.stack.push? c.cpu.pc = some d.cpu.stack) ∨
      (insn = .ret ∧ c.cpu.stack.pop? = some (d.cpu.pc, d.cpu.stack)) ∨
      (insn ≠ .ret ∧ (∀ a, insn ≠ .call a) ∧ StaysLevel c d insn) := by
  cases insn with
  | ret =>
    rw [execute, returnFromCall] at h
    split at h
    · cases h
    · next hpop =>
      cases h
      exact Or.inr (Or.inl ⟨rfl, hpop⟩)
  | call a =>
    rw [execute, callTo] at h
    split at h
    · cases h
    · next hpush =>
      cases h
      exact Or.inl ⟨a, rfl, rfl, hpush⟩
  | jump a =>
    cases h
    exact Or.inr (Or.inr ⟨nofun, nofun, rfl, Or.inr (Or.inr rfl)⟩)
  | skipEqByte | skipNeByte | skipEq | skipNe =>
    cases h
    refine Or.inr (Or.inr ⟨nofun, nofun, Cpu.stack_skipIf _ _, ?_⟩)
    rw [Cpu.pc_skipIf]
    split
    · exact Or.inr (Or.inl rfl)
    · exact Or.inl rfl
  | alu op y x =>
    rw [execute, Cpu.operate] at h
    split at h <;> cases h <;> exact Or.inr (Or.inr ⟨nofun, nofun, rfl, Or.inl rfl⟩)
  | draw y x n =>
    rw [execute, drawSprite] at h
    dsimp only at h
    split at h <;> cases h
    exact Or.inr (Or.inr ⟨nofun, nofun, rfl, Or.inl rfl⟩)
  | store x =>
    obtain rfl := congrArg Prod.fst h
    exact Or.inr (Or.inr ⟨nofun, nofun, rfl, Or.inl rfl⟩)
  | load x =>
    rw [execute, loadRegisters] at h
    split at h <;> cases h
    refine Or.inr (Or.inr ⟨nofun, nofun, Cpu.stack_setLeading _ _, Or.inl ?_⟩)
    exact Cpu.pc_setLeading _ _
  | _ =>
    cases h
    exact Or.inr (Or.inr ⟨nofun, nofun, rfl, Or.inl rfl⟩)

/-- The ways in which a tick goes on that ends well, with all addresses as numbers, so that no sum
wraps around unseen. -/
inductive Flows (c d : Core) : Prop where
  | call (hcalls : c.Calls) (hreturns : ¬ c.Returns) (hpc : d.cpu.pc.toNat < 0x1000)
      {addr : Word} (haddr : addr.toNat = c.cpu.pc.toNat + 2)
      (hopen : d.openCalls = c.openCalls ++ [addr])
  | ret (hcalls : ¬ c.Calls) (hreturns : c.Returns) (hopen : c.openCalls = d.openCalls ++ [d.cpu.pc])
  | level (hcalls : ¬ c.Calls) (hreturns : ¬ c.Returns) (hopen : d.openCalls = c.openCalls)
      (hpc : d.cpu.pc.toNat = c.cpu.pc.toNat + 2 ∨ d.cpu.pc.toNat = c.cpu.pc.toNat + 4 ∨
        d.cpu.pc.toNat < 0x1000)

/-- Two words on there is still no need to wrap around. -/
theorem toNat_pc_advance_advance (hpc : c.cpu.pc.toNat ≤ 4094) :
    c.advance.cpu.advance.pc.toNat = c.cpu.pc.toNat + 4 := by
  have hnext := toNat_pc_advance hpc
  have hafter := Cpu.toNat_pc_advance (c := c.advance.cpu) (by omega)
  omega

/-- No tick that ends well goes on in another way. -/
theorem flows_of_tick_ok (htick : (c.tick roll).2 = .ok ()) :
    c.cpu.pc.toNat ≤ 4094 ∧ c.Flows (c.tick roll).1 := by
  obtain ⟨insn, d, hpc, hinsn, hexecute, hdone⟩ := exists_execute_of_tick_ok htick
  refine ⟨hpc, ?_⟩
  rw [hdone]
  have hnext := toNat_pc_advance hpc
  have hoperands := Instruction.withOperands_of_ofWord? hinsn
  -- A word that has the form of another instruction would also decode to that one.
  have hcalls : c.Calls → ∃ a, insn = .call a := fun h =>
    ⟨c.word.nnn, Option.some.inj (hinsn.symm.trans (ofWord?_of_fits_form (i := .call 0) h))⟩
  have hreturns : c.Returns → insn = .ret := fun h =>
    Option.some.inj (hinsn.symm.trans (ofWord?_of_fits_form (i := .ret) h))
  have hnnn : c.word.nnn.toNat < 0x1000 := by
    rw [Word.toNat_nnn]
    exact Nat.mod_lt _ (by decide)
  obtain ⟨a, rfl, hgoes, hpush⟩ | ⟨rfl, hpop⟩ | ⟨hret, hcall, hstack, hgoes⟩ :=
    control_execute hexecute
  · have ha : c.word.nnn = a := Instruction.call.inj hoperands
    have hopen : d.openCalls = c.advance.openCalls ++ [c.advance.cpu.pc] :=
      CallStack.toList_of_push? hpush
    rw [openCalls_advance] at hopen
    have hcall : c.Calls := fits_form_of_ofWord? (i := .call a) hinsn
    have hnot : ¬ c.Returns := fun h => nomatch hreturns h
    refine .call hcall hnot ?_ hnext hopen
    rw [pc_countCycle, hgoes, ← ha]
    exact hnnn
  · have hopen : c.advance.openCalls = d.openCalls ++ [d.cpu.pc] := CallStack.toList_of_pop? hpop
    rw [openCalls_advance] at hopen
    have hret : c.Returns := fits_form_of_ofWord? (i := .ret) hinsn
    have hnot : ¬ c.Calls := by
      intro h
      obtain ⟨a, ha⟩ := hcalls h
      cases ha
    exact .ret hnot hret hopen
  · have hopen : d.openCalls = c.advance.openCalls := congrArg CallStack.toList hstack
    rw [openCalls_advance] at hopen
    have hnot : ¬ c.Calls := by
      intro h
      obtain ⟨a, ha⟩ := hcalls h
      exact hcall a ha
    refine .level hnot (fun h => hret (hreturns h)) hopen ?_
    · rw [pc_countCycle]
      obtain hsame | hskip | hjump := hgoes
      · rw [hsame]
        exact Or.inl hnext
      · rw [hskip]
        exact Or.inr (Or.inl (toNat_pc_advance_advance hpc))
      · subst hjump
        have ha : c.word.nnn = d.cpu.pc := Instruction.jump.inj hoperands
        rw [← ha]
        exact Or.inr (Or.inr hnnn)

end Core

end Chip8
