import Chip8.Machine.Basic
import Chip8.Proofs.Core.Fault

namespace Chip8.Machine

variable {m : Machine} {e : Error}

/-- A step that faults can be told in full before it is made. -/
theorem step_of_fault (roll : UInt8) (hrun : m.state = .running) (hfault : m.toCore.fault? = some e) :
    m.step roll =
      ({ m with
        toCore := if 4094 < m.cpu.pc.toNat then m.toCore else m.toCore.advance
        state := .quit }, .error e) := by
  rw [step, if_pos hrun, Core.tick_of_fault roll hfault]

/-- Without a fault the step ends well. -/
theorem step_of_no_fault (roll : UInt8) (hrun : m.state = .running)
    (hfault : m.toCore.fault? = none) : ∃ state, (m.step roll).2 = .ok state := by
  have htick := Core.tick_of_no_fault roll hfault
  rw [step, if_pos hrun]
  cases h : m.toCore.tick roll with
  | mk core result =>
    rw [h] at htick
    change result = .ok () at htick
    subst htick
    exact ⟨_, rfl⟩

/-- A step reports the fault that its instruction has, and no other. -/
theorem fault?_of_step_error {roll : UInt8} (hrun : m.state = .running)
    (herror : (m.step roll).2 = .error e) : m.toCore.fault? = some e := by
  cases hfault : m.toCore.fault? with
  | none =>
    obtain ⟨state, hok⟩ := step_of_no_fault roll hrun hfault
    rw [hok] at herror
    cases herror
  | some e' =>
    rw [step_of_fault roll hrun hfault] at herror
    cases herror
    rfl

/-- A step that faults makes the machine quit and changes nothing else but the program counter. That
stays where it is if the fetch failed, and otherwise has passed the instruction. -/
theorem step_fault_changes_only_pc (m : Machine) (roll : UInt8) (hrun : m.state = .running)
    {e : Error} (herror : (m.step roll).2 = .error e) :
    ∃ pc : Word, (m.step roll).1 = { m with cpu := { m.cpu with pc := pc }, state := .quit } ∧
      (4094 < m.cpu.pc.toNat → m.cpu.fetch m.mem = .error e ∧ pc = m.cpu.pc) ∧
      (m.cpu.pc.toNat ≤ 4094 → (∃ word, m.cpu.fetch m.mem = .ok word) ∧
        pc.toNat = m.cpu.pc.toNat + 2) := by
  have hfault := fault?_of_step_error hrun herror
  rw [step_of_fault roll hrun hfault]
  by_cases hpc : 4094 < m.cpu.pc.toNat
  · refine ⟨m.cpu.pc, ?_, fun _ => ⟨?_, rfl⟩, fun hle => absurd hpc (Nat.not_lt.mpr hle)⟩
    · rw [if_pos hpc]
    · have hfetch : m.toCore.fault? = some (.outOfBounds m.cpu.pc.toNat) := if_pos hpc
      rw [hfetch] at hfault
      cases hfault
      exact if_pos hpc
  · have hle := Nat.not_lt.mp hpc
    refine ⟨m.cpu.pc + 2, ?_, fun h => absurd h hpc, fun _ => ⟨⟨_, Core.fetch_of_le hle⟩, ?_⟩⟩
    · rw [if_neg hpc]
      rfl
    · exact Cpu.toNat_pc_advance (c := m.cpu) (by omega)

/-- The next instruction is `FF55`, which would store sixteen registers, and memory has room for the
first eight of them only. -/
def storeAcrossEndOfMemory : Machine where
  toCore := .loaded { Cpu.initial false with i := 0xFF8 } [0xFF, 0x55]
  timers := .zero
  keypad := .released
  state := .running

/-- Not even the registers that memory has room for are stored. -/
theorem step_fault_changes_only_pc_store :
    storeAcrossEndOfMemory.state = .running ∧
      (storeAcrossEndOfMemory.step 0).2 = .error (.outOfBounds 0x1000) ∧
      (storeAcrossEndOfMemory.step 0).1.mem = storeAcrossEndOfMemory.mem := by
  have hword : storeAcrossEndOfMemory.toCore.word = Word.ofBytes 0xFF 0x55 :=
    Core.word_loaded rfl 0xFF 0x55 []
  have hblock : Fault.block.Holds storeAcrossEndOfMemory.toCore := by
    rw [Fault.Holds, Core.operandX_of_word hword, hword]
    decide
  have herror : (storeAcrossEndOfMemory.step 0).2 = .error (.outOfBounds 0x1000) := by
    rw [step_of_fault 0 rfl (Fault.fault?_of_holds hblock)]
    rfl
  obtain ⟨pc, hafter, _⟩ := step_fault_changes_only_pc storeAcrossEndOfMemory 0 rfl herror
  exact ⟨rfl, herror, congrArg (fun m => m.mem) hafter⟩

end Chip8.Machine
