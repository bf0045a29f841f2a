import Chip8.Proofs.Core.Fetch

namespace Chip8.Core

open Instruction (ofWord? forms)

/-- The number of rows of a sprite that lie above the lower edge of the screen. -/
def visibleRows (c : Core) (y : Reg) (n : UInt8) : Nat :=
  min n.toNat (c.screen.height - (c.cpu.reg y).toNat % c.screen.height)

/-- The fault of an access to as many bytes from the index register on, if they leave memory. -/
def spanRefusal? (c : Core) (length : Nat) : Option Error :=
  if 4096 < c.cpu.i.toNat + length then some (.outOfBounds (max c.cpu.i.toNat 4096)) else none

/-- The fault with which an instruction is refused, read off a core that has moved past it. -/
def refusal? (c : Core) : Instruction Reg → Option Error
  | .ret => if c.cpu.stack.toList = [] then some (.stackUnderflow (c.cpu.pc - 2)) else none
  | .call a => if c.cpu.stack.toList.length = 12 then some (.stackOverflow a) else none
  | .draw y _ n => c.spanRefusal? (c.visibleRows y n)
  | .store x | .load x => c.spanRefusal? (x.val + 1)
  | _ => none

section Span

variable {c : Core} {length : Nat} {e : Error}

theorem spanRefusal?_eq_some_iff : c.spanRefusal? length = some e ↔
    4096 < c.cpu.i.toNat + length ∧ .outOfBounds (max c.cpu.i.toNat 4096) = e := by
  rw [spanRefusal?, Option.ite_none_right_eq_some, Option.some.injEq]

/-- A span is refused exactly where memory refuses it, with the same error. -/
theorem spanRefusal?_eq_some (h : c.spanRefusal? length = some e) :
    ¬ Memory.Within c.cpu.i.toNat (c.cpu.i.toNat + length) ∧ e = Memory.spanError c.cpu.i.toNat := by
  obtain ⟨hlong, rfl⟩ := spanRefusal?_eq_some_iff.mp h
  refine ⟨?_, rfl⟩
  rw [Memory.within_add_iff]
  exact Nat.not_le.mpr hlong

/-- What is not refused lies in memory. -/
theorem spanRefusal?_eq_none (h : c.spanRefusal? length = none) :
    Memory.Within c.cpu.i.toNat (c.cpu.i.toNat + length) := by
  unfold spanRefusal? at h
  split at h
  · cases h
  · next hshort =>
    rw [Memory.within_add_iff]
    exact Nat.not_lt.mp hshort

theorem slice_of_refusal (h : c.spanRefusal? length = some e) :
    c.mem.slice c.cpu.i.toNat (c.cpu.i.toNat + length) = .error e := by
  obtain ⟨hout, rfl⟩ := spanRefusal?_eq_some h
  exact if_neg hout

theorem slice_of_no_refusal (h : c.spanRefusal? length = none) :
    ∃ bytes, c.mem.slice c.cpu.i.toNat (c.cpu.i.toNat + length) = .ok bytes :=
  ⟨_, if_pos (spanRefusal?_eq_none h)⟩

end Span

/-- Up to and including `vx` there is one register more than its number says. -/
theorem length_leading (c : Core) (x : Reg) :
    (c.cpu.v.toList.take (x.val + 1)).length = x.val + 1 := by
  rw [List.length_take, Vector.length_toList]
  have hx := x.isLt
  omega

/-- A refused instruction has written nothing when it faults. Each handler checks before its first
write, the stack ones their slot and the others the whole span of memory. -/
theorem execute_of_refusal {c : Core} {insn : Instruction Reg} {e : Error} (roll : UInt8)
    (h : c.refusal? insn = some e) : c.execute roll insn = (c, .error e) := by
  cases insn with
  | ret =>
    simp only [refusal?, Option.ite_none_right_eq_some, Option.some.injEq] at h
    obtain ⟨hempty, rfl⟩ := h
    have hpop := (CallStack.pop?_eq_none_iff c.cpu.stack).mpr hempty
    rw [execute, returnFromCall, hpop]
  | call a =>
    simp only [refusal?, Option.ite_none_right_eq_some, Option.some.injEq,
      CallStack.length_toList] at h
    obtain ⟨hfull, rfl⟩ := h
    have hpush := (CallStack.push?_eq_none_iff c.cpu.stack c.cpu.pc).mpr hfull
    rw [execute, callTo, hpush]
  | draw y x n =>
    have hslice := slice_of_refusal h
    simp only [visibleRows] at hslice
    simp only [execute, drawSprite, hslice]
  | store x =>
    obtain ⟨hout, rfl⟩ := spanRefusal?_eq_some h
    rw [execute, storeRegisters, Memory.store, length_leading, if_neg hout]
  | load x =>
    have hslice := slice_of_refusal h
    rw [execute, loadRegisters, Nat.add_assoc, hslice]
  | _ => cases h

/-- An instruction that is not refused executes to completion. -/
theorem execute_of_no_refusal {c : Core} {insn : Instruction Reg} (roll : UInt8)
    (h : c.refusal? insn = none) : (c.execute roll insn).2 = .ok () := by
  cases insn with
  | ret =>
    simp only [refusal?, ite_eq_right_iff, reduceCtorEq, imp_false] at h
    cases hpop : c.cpu.stack.pop? with
    | none => exact absurd ((CallStack.pop?_eq_none_iff _).mp hpop) h
    | some top => simp only [execute, returnFromCall, hpop]
  | call a =>
    simp only [refusal?, ite_eq_right_iff, reduceCtorEq, imp_false, CallStack.length_toList] at h
    cases hpush : c.cpu.stack.push? c.cpu.pc with
    | none => exact absurd ((CallStack.push?_eq_none_iff _ _).mp hpush) h
    | some stack => simp only [execute, callTo, hpush]
  | draw y x n =>
    obtain ⟨sprite, hslice⟩ := slice_of_no_refusal h
    simp only [visibleRows] at hslice
    simp only [execute, drawSprite, hslice]
  | store x =>
    have hinside := spanRefusal?_eq_none h
    rw [execute, storeRegisters, Memory.store, length_leading, if_pos hinside]
  | load x =>
    obtain ⟨values, hslice⟩ := slice_of_no_refusal h
    rw [execute, loadRegisters, Nat.add_assoc, hslice]
  | _ => rfl

/-- The fault with which the next tick ends, if it does. -/
def fault? (c : Core) : Option Error :=
  if 4094 < c.cpu.pc.toNat then some (.outOfBounds c.cpu.pc.toNat)
  else
    match ofWord? c.word with
    | none => some (.unimplementedOpcode c.word)
    | some insn => c.advance.refusal? insn

/-- A tick that faults moves the program counter at most, and does that unless the fetch failed. -/
theorem tick_of_fault {c : Core} {e : Error} (roll : UInt8) (h : c.fault? = some e) :
    c.tick roll = (if 4094 < c.cpu.pc.toNat then c else c.advance, .error e) := by
  unfold fault? at h
  by_cases hpc : 4094 < c.cpu.pc.toNat
  · rw [if_pos hpc] at h ⊢
    cases h
    exact tick_of_lt roll hpc
  · rw [if_neg hpc] at h ⊢
    have hle := Nat.not_lt.mp hpc
    cases hinsn : ofWord? c.word with
    | none =>
      rw [hinsn] at h
      cases h
      exact tick_of_not_fits roll hle ((Instruction.ofWord?_eq_none_iff c.word).mp hinsn)
    | some insn =>
      rw [hinsn] at h
      exact tick_of_execute_error hle hinsn (execute_of_refusal roll h)

/-- Without a fault the tick ends well. -/
theorem tick_of_no_fault {c : Core} (roll : UInt8) (h : c.fault? = none) :
    (c.tick roll).2 = .ok () := by
  unfold fault? at h
  by_cases hpc : 4094 < c.cpu.pc.toNat
  · rw [if_pos hpc] at h
    cases h
  · rw [if_neg hpc] at h
    cases hinsn : ofWord? c.word with
    | none =>
      rw [hinsn] at h
      cases h
    | some insn =>
      rw [hinsn] at h
      have hexecute : c.advance.execute roll insn = ((c.advance.execute roll insn).1, .ok ()) :=
        Prod.ext rfl (execute_of_no_refusal roll h)
      rw [tick_of_execute_ok (Nat.not_lt.mp hpc) hinsn hexecute]

/-- A tick fails with the fault that can be told before it, and for no other reason. -/
theorem tick_eq_error_iff (c : Core) (roll : UInt8) (e : Error) :
    (c.tick roll).2 = .error e ↔ c.fault? = some e := by
  cases h : c.fault? with
  | none => simp [tick_of_no_fault roll h]
  | some e' => simp [tick_of_fault roll h]

end Chip8.Core
