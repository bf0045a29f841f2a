import Chip8.Cpu.Basic
import Mathlib.Data.List.Induction
import Mathlib.Data.List.Nodup

namespace Chip8.Cpu

variable {c : Cpu} {addr a : Word}

theorem breakpoints_setBreak_of_mem (h : addr ∈ c.breakpoints) :
    (c.setBreak addr).breakpoints = c.breakpoints := by
  rw [setBreak, if_pos h]

/-- A new breakpoint comes behind the others. -/
theorem breakpoints_setBreak_of_not_mem (h : addr ∉ c.breakpoints) :
    (c.setBreak addr).breakpoints = c.breakpoints ++ [addr] := by
  rw [setBreak, if_neg h]

/-- Afterwards the address is among the breakpoints, and the others have stayed. -/
theorem mem_breakpoints_setBreak (c : Cpu) (addr a : Word) :
    a ∈ (c.setBreak addr).breakpoints ↔ a = addr ∨ a ∈ c.breakpoints := by
  by_cases hset : addr ∈ c.breakpoints
  · rw [breakpoints_setBreak_of_mem hset]
    constructor
    · exact Or.inr
    · rintro (rfl | ha)
      · exact hset
      · exact ha
  · rw [breakpoints_setBreak_of_not_mem hset, List.mem_append, List.mem_singleton, or_comm]

/-- Every occurrence of the address is gone. -/
theorem mem_breakpoints_unsetBreak (c : Cpu) (addr a : Word) :
    a ∈ (c.unsetBreak addr).breakpoints ↔ a ∈ c.breakpoints ∧ a ≠ addr := by
  rw [unsetBreak, List.mem_filter, bne_iff_ne]

/-- No address is put there twice. -/
theorem nodup_setBreak (h : c.breakpoints.Nodup) (addr : Word) :
    (c.setBreak addr).breakpoints.Nodup := by
  by_cases hset : addr ∈ c.breakpoints
  · rw [breakpoints_setBreak_of_mem hset]
    exact h
  · rw [breakpoints_setBreak_of_not_mem hset, ← List.concat_eq_append]
    exact h.concat hset

/-- Breakpoints that are set one after the other are all there, with those that were there before. -/
theorem mem_breakpoints_foldl_setBreak (c : Cpu) (addrs : List Word) (a : Word) :
    a ∈ (addrs.foldl setBreak c).breakpoints ↔ a ∈ addrs ∨ a ∈ c.breakpoints := by
  induction addrs generalizing c with
  | nil => simp
  | cons addr rest ih =>
    rw [List.foldl_cons, ih, mem_breakpoints_setBreak, List.mem_cons, or_assoc, or_left_comm]

/-- Setting breakpoints changes nothing else in a processor. -/
theorem foldl_setBreak_eq (c : Cpu) (addrs : List Word) :
    addrs.foldl setBreak c = { c with breakpoints := (addrs.foldl setBreak c).breakpoints } := by
  induction addrs generalizing c with
  | nil => rfl
  | cons addr rest ih =>
    rw [List.foldl_cons, ih]
    unfold setBreak
    split <;> rfl

/-- Of an address that is set more than once the first time counts. -/
theorem breakpoints_foldl_setBreak (hnone : c.breakpoints = []) (addrs : List Word) :
    (addrs.foldl setBreak c).breakpoints = addrs.eraseDups := by
  induction addrs using List.reverseRecOn with
  | nil => rw [List.foldl_nil, hnone, List.eraseDups_nil]
  | append_singleton addrs addr ih =>
    rw [List.foldl_append, List.foldl_cons, List.foldl_nil, List.eraseDups_append]
    by_cases hset : addr ∈ addrs
    · have hgone : [addr].removeAll addrs = [] := by simp [List.removeAll, hset]
      rw [breakpoints_setBreak_of_mem (ih ▸ List.mem_eraseDups.mpr hset), ih, hgone,
        List.eraseDups_nil, List.append_nil]
    · have hstays : [addr].removeAll addrs = [addr] := by simp [List.removeAll, hset]
      rw [breakpoints_setBreak_of_not_mem (ih ▸ mt List.mem_eraseDups.mp hset), ih, hstays]
      rfl

end Chip8.Cpu
