import Chip8.Proofs.Cpu.Breakpoints
import Chip8.Proofs.Machine.Lifecycle
import Chip8.Terminal.Setup

namespace Chip8

namespace Terminal

variable {o : Options} {rom : List UInt8} {noise : Noise} {told : List Notice} {s : Session}

/-- A session that was set up starts with the machine that was prepared for it. -/
theorem Session.exists_prepare_of_setUp (h : setUp o rom noise = (told, .ok s)) :
    ∃ loaded, Machine.standard.loadProgram rom = (loaded, .ok ()) ∧
      s = .start o (prepare o loaded).1 noise := by
  unfold setUp at h
  split at h
  · cases h
  · next loaded hload =>
    split at h
    · cases h
    · refine ⟨loaded, hload, ?_⟩
      dsimp only at h
      cases hkeys : (prepare o loaded).2 with
      | error e =>
        rw [hkeys] at h
        cases h
      | ok _ =>
        rw [hkeys] at h
        cases h
        rfl

/-- How a session starts: nothing is told, the machine runs, and it stops at the breakpoints that were
asked for. -/
structure Session.Fresh (s : Session) (o : Options) : Prop where
  frames : s.frames = o.frames
  ipf : s.ipf = o.ipf
  notices : s.notices = #[]
  state : s.run.machine.state = .running
  breakpoints : ∀ a, a ∈ s.run.machine.cpu.breakpoints ↔ a ∈ o.breakpoints

/-- However a session was set up, it starts fresh. -/
theorem Session.fresh_of_setUp (h : setUp o rom noise = (told, .ok s)) : s.Fresh o := by
  obtain ⟨loaded, hload, rfl⟩ := exists_prepare_of_setUp h
  obtain ⟨mem, rfl⟩ := Machine.eq_of_load hload
  refine ⟨rfl, rfl, rfl, rfl, ?_⟩
  intro a
  refine (Cpu.mem_breakpoints_foldl_setBreak _ _ a).trans (or_iff_left ?_)
  exact List.not_mem_nil

end Terminal

end Chip8
