import Chip8.Proofs.Core.Flow
import Chip8.Proofs.Core.Refusal
import Chip8.Proofs.Machine.Operation
import Chip8.Proofs.Machine.Stop

namespace Chip8

namespace Core

variable {c : Core} {roll : UInt8}

/-- Every open call returns to behind an instruction that lies in memory. -/
def ReturnsInRange (c : Core) : Prop :=
  ∀ addr ∈ c.openCalls, 2 ≤ addr.toNat ∧ addr.toNat ≤ 0x1000

/-- The sums and differences of addresses that a tick forms once it has fetched its word are those of
the numbers: the step to the next instruction, the further step of a skip, and the step back with
which a return names itself. -/
structure NoWrap (c : Core) : Prop where
  next : c.advance.cpu.pc.toNat = c.cpu.pc.toNat + 2
  skip : ∀ condition, (c.advance.cpu.skipIf condition).pc.toNat =
    c.cpu.pc.toNat + if condition then 4 else 2
  back : (c.advance.cpu.pc - 2).toNat = c.cpu.pc.toNat

/-- Only a word that lies in memory as a whole is fetched. -/
theorem pc_le_of_fetch {word : Word} (h : c.cpu.fetch c.mem = .ok word) :
    c.cpu.pc.toNat ≤ 4094 := by
  unfold Cpu.fetch at h
  split at h
  · cases h
  · next hinside => exact Nat.not_lt.mp hinside

/-- Where a word was fetched, there is room behind it for a step and for a skip. -/
theorem noWrap_of_fetch {word : Word} (h : c.cpu.fetch c.mem = .ok word) : c.NoWrap := by
  have hpc := pc_le_of_fetch h
  refine ⟨toNat_pc_advance hpc, ?_, ?_⟩
  · intro condition
    cases condition with
    | true => exact toNat_pc_advance_advance hpc
    | false => exact toNat_pc_advance hpc
  · exact congrArg UInt16.toNat (UInt16.add_sub_cancel c.cpu.pc 2)

/-- A tick that faults leaves the open calls alone. -/
theorem openCalls_tick_of_error {e : Error} (herror : (c.tick roll).2 = .error e) :
    (c.tick roll).1.openCalls = c.openCalls := by
  rw [tick_of_fault roll ((c.tick_eq_error_iff roll e).mp herror)]
  split <;> rfl

/-- A tick opens a call only where it has fetched an instruction. -/
theorem ReturnsInRange.tick (h : c.ReturnsInRange) (roll : UInt8) :
    (c.tick roll).1.ReturnsInRange := by
  cases hanswer : (c.tick roll).2 with
  | error e =>
    intro addr haddr
    rw [openCalls_tick_of_error hanswer] at haddr
    exact h addr haddr
  | ok _ =>
    obtain ⟨hpc, hflows⟩ := flows_of_tick_ok hanswer
    intro addr haddr
    cases hflows with
    | call _ _ _ hbehind hopen =>
      rw [hopen, List.mem_append, List.mem_singleton] at haddr
      obtain hold | rfl := haddr
      · exact h addr hold
      · omega
    | ret _ _ hopen =>
      apply h
      rw [hopen]
      exact List.mem_append_left _ haddr
    | level _ _ hopen _ =>
      apply h
      rw [← hopen]
      exact haddr

/-- A tick that ends well goes to an operand, to a return address, or a little further than the
instruction, which lay in memory. -/
theorem ReturnsInRange.pc_tick_le (h : c.ReturnsInRange) (hok : (c.tick roll).2 = .ok ()) :
    (c.tick roll).1.cpu.pc.toNat ≤ 0x1002 := by
  obtain ⟨hpc, hflows⟩ := flows_of_tick_ok hok
  cases hflows with
  | call _ _ hgoes _ _ => omega
  | ret _ _ hopen =>
    have hmem : (c.tick roll).1.cpu.pc ∈ c.openCalls := by
      rw [hopen]
      exact List.mem_append_right _ (List.mem_singleton_self _)
    have hrange := (h _ hmem).2
    omega
  | level _ _ _ hgoes => omega

end Core

namespace Run

variable {r : Run}

theorem returnsInRange_tick (h : r.machine.toCore.ReturnsInRange) :
    r.tick.1.machine.toCore.ReturnsInRange := by
  rw [toCore_tick]
  exact h.tick _

theorem returnsInRange_step (h : r.machine.toCore.ReturnsInRange) :
    r.step.1.machine.toCore.ReturnsInRange := by
  have hends := r.step_ends
  generalize r.step = o at hends ⊢
  cases hends with
  | stopped _ => exact h
  | faulted _ _ => exact returnsInRange_tick h
  | paused _ _ _ => exact returnsInRange_tick h
  | completed _ _ _ => exact returnsInRange_tick h

/-- However many steps are taken, every return address is that of a call. -/
theorem returnsInRange_multistep (h : r.machine.toCore.ReturnsInRange) (n : Nat) :
    (r.multistep n).1.machine.toCore.ReturnsInRange := by
  induction n generalizing r with
  | zero => exact h
  | succ n ih =>
    by_cases hanswer : r.step.2 = .ok .running
    · rw [multistep_succ_of_running hanswer]
      exact ih (returnsInRange_step h)
    · rw [multistep_succ_of_stopped hanswer]
      exact returnsInRange_step h

theorem returnsInRange_ticks (h : r.machine.toCore.ReturnsInRange) (j : Nat) :
    (r.ticks j).machine.toCore.ReturnsInRange := by
  induction j with
  | zero => exact h
  | succ j ih => exact returnsInRange_tick ih

end Run

theorem Core.returnsInRange_of_empty {c : Core} (h : c.cpu.stack = .empty) : c.ReturnsInRange := by
  intro addr haddr
  rw [openCalls, h, CallStack.toList_empty] at haddr
  cases haddr

namespace Machine

theorem IsNew.stack_eq {m : Machine} (h : m.IsNew) : m.cpu.stack = .empty := by
  obtain ⟨screen, rfl⟩ := h.exists_withScreen
  rfl

/-- A load closes all calls or, if it is refused, leaves them as they are. -/
theorem returnsInRange_load {m : Machine} (h : m.toCore.ReturnsInRange) (font program : List UInt8) :
    (m.load font program).1.toCore.ReturnsInRange := by
  have hends := m.load_ends font program
  generalize m.load font program = o at hends
  cases hends with
  | refused mem e => exact h
  | loaded mem => exact Core.returnsInRange_of_empty rfl

end Machine

namespace Run

variable {r : Run}

/-- No operation of the host reaches the open calls, except that a reset closes them all. -/
theorem returnsInRange_handle (r : Run) (op : Operation) (h : r.machine.toCore.ReturnsInRange) :
    (r.handle op).1.machine.toCore.ReturnsInRange := by
  cases op with
  | load font program => exact Machine.returnsInRange_load h font program
  | loadProgram program => exact Machine.returnsInRange_load h Font.bytes program
  | tick => exact returnsInRange_tick h
  | step => exact returnsInRange_step h
  | multistep n => exact returnsInRange_multistep h n
  | pause =>
    change r.machine.pause.toCore.ReturnsInRange
    unfold Machine.pause
    split <;> exact h
  | resume =>
    change r.machine.resume.toCore.ReturnsInRange
    unfold Machine.resume
    split <;> exact h
  | cpu op =>
    cases op with
    | setV reg value =>
      change Core.ReturnsInRange { r.machine.toCore with cpu := (Cpu.setV _ _ _).1 }
      unfold Cpu.setV
      split <;> exact h
    | setBreak addr =>
      change Core.ReturnsInRange { r.machine.toCore with cpu := Cpu.setBreak _ _ }
      unfold Cpu.setBreak
      split <;> exact h
    | reset => exact Core.returnsInRange_of_empty rfl
    | setPc | setI | unsetBreak | toggleDebug | stack => exact h
  | memory | screen | timers | keypad => exact h

/-- No call is open in a new machine, and nothing that a host can do opens one out of range. -/
theorem Reachable.returnsInRange (h : r.Reachable) : r.machine.toCore.ReturnsInRange := by
  obtain ⟨m, noise, ops, hnew, rfl⟩ := h
  apply handleAll_keeps returnsInRange_handle
  exact Core.returnsInRange_of_empty hnew.stack_eq

/-- Where a machine pauses, a tick has just ended well. -/
theorem pc_le_of_paused (h : r.machine.toCore.ReturnsInRange) (hrun : r.machine.state = .running)
    {n : Nat} (hpaused : (r.multistep n).2 = .ok .paused) :
    (r.multistep n).1.machine.cpu.pc ∈ r.machine.cpu.breakpoints ∧
      (r.multistep n).1.machine.cpu.pc.toNat ≤ 0x1002 := by
  cases n with
  | zero =>
    have hstate : r.machine.state = .paused := Except.ok.inj hpaused
    rw [hrun] at hstate
    cases hstate
  | succ n =>
    obtain ⟨k, hk⟩ := r.exists_stopsAt (Nat.succ_pos n)
    have hexecutes := executes_of_stopsAt hrun hk
    generalize r.multistep (n + 1) = o at hexecutes hpaused
    cases hexecutes with
    | faulted _ _ => cases hpaused
    | completed _ _ _ => cases hpaused
    | paused hanswer hbreak _ =>
      refine ⟨hbreak, ?_⟩
      obtain ⟨j, rfl⟩ : ∃ j, k = j + 1 := ⟨k - 1, by have hpos := hk.pos; omega⟩
      have hok : ((r.ticks j).machine.toCore.tick (r.ticks j).noise.next).2 = .ok () :=
        (answer_tick _).symm.trans hanswer
      have hle := (returnsInRange_ticks h j).pc_tick_le hok
      rw [← toCore_tick] at hle
      exact hle

/-- A single step that pauses is the first of several. -/
theorem pc_le_of_step_paused (h : r.machine.toCore.ReturnsInRange)
    (hrun : r.machine.state = .running) (hpaused : r.step.2 = .ok .paused) :
    r.step.1.machine.cpu.pc ∈ r.machine.cpu.breakpoints ∧
      r.step.1.machine.cpu.pc.toNat ≤ 0x1002 := by
  have hone : r.multistep 1 = r.step := multistep_succ_of_stopped (by simp [hpaused]) 0
  rw [← hone] at hpaused ⊢
  exact pc_le_of_paused h hrun hpaused

/-- Whatever a host does with a new machine, the return addresses of the open calls lie in memory
behind an instruction, and a tick that ends well leads to `0x1002` at most. So no sum or difference of
addresses wraps around within a tick, and a machine only ever pauses at breakpoints up to there. -/
theorem addresses_stay_in_range (r : Run) (h : r.Reachable) :
    (∀ addr ∈ r.machine.toCore.openCalls, 2 ≤ addr.toNat ∧ addr.toNat ≤ 0x1000) ∧
      (r.tick.2 = .ok () → r.tick.1.machine.cpu.pc.toNat ≤ 0x1002) ∧
      (∀ word, r.machine.cpu.fetch r.machine.mem = .ok word → r.machine.toCore.NoWrap) ∧
      (r.machine.state = .running → ∀ o, (o = r.step ∨ ∃ n, o = r.multistep n) →
        o.2 = .ok .paused →
          o.1.machine.cpu.pc ∈ r.machine.cpu.breakpoints ∧
            ∀ addr, 0x1002 < addr.toNat → o.1.machine.cpu.pc ≠ addr) := by
  have hrange := h.returnsInRange
  refine ⟨hrange, ?_, fun _ => Core.noWrap_of_fetch, ?_⟩
  · intro hok
    rw [answer_tick] at hok
    rw [toCore_tick]
    exact hrange.pc_tick_le hok
  · intro hrun o hdrive hpaused
    have hstop : o.1.machine.cpu.pc ∈ r.machine.cpu.breakpoints ∧
        o.1.machine.cpu.pc.toNat ≤ 0x1002 := by
      obtain rfl | ⟨n, rfl⟩ := hdrive
      · exact pc_le_of_step_paused hrange hrun hpaused
      · exact pc_le_of_paused hrange hrun hpaused
    refine ⟨hstop.1, ?_⟩
    rintro addr hbeyond rfl
    exact absurd hstop.2 (Nat.not_le.mpr hbeyond)

/-- The last word of memory is a skip whose condition holds, and the machine stands there. -/
def skipAtEndOfMemory : Run :=
  ((start .standard (.ofSeed 0)).handleAll
    [.memory (.write 0xFFE 0x30), .cpu (.setPc 0xFFE), .cpu (.setBreak 0x1002)]).1

/-- The bound is reached, and a breakpoint there pauses the machine. -/
theorem addresses_stay_in_range_skip_at_end :
    skipAtEndOfMemory.Reachable ∧ skipAtEndOfMemory.tick.2 = .ok () ∧
      skipAtEndOfMemory.tick.1.machine.cpu.pc.toNat = 0x1002 ∧
      skipAtEndOfMemory.machine.toCore.NoWrap ∧
      (skipAtEndOfMemory.multistep 3).2 = .ok .paused ∧
      (skipAtEndOfMemory.multistep 3).1.machine.cpu.pc ∈
        skipAtEndOfMemory.machine.cpu.breakpoints := by
  have hreachable : skipAtEndOfMemory.Reachable := ⟨.standard, .ofSeed 0, _, Or.inl rfl, rfl⟩
  obtain ⟨hok, hpc, hfetch, hrun, hpaused⟩ :
      skipAtEndOfMemory.tick.2 = .ok () ∧
        skipAtEndOfMemory.tick.1.machine.cpu.pc.toNat = 0x1002 ∧
        skipAtEndOfMemory.machine.cpu.fetch skipAtEndOfMemory.machine.mem = .ok 0x3000 ∧
        skipAtEndOfMemory.machine.state = .running ∧
        (skipAtEndOfMemory.multistep 3).2 = .ok .paused := by
    decide +kernel
  obtain ⟨_, _, hwrap, hstop⟩ := addresses_stay_in_range skipAtEndOfMemory hreachable
  exact ⟨hreachable, hok, hpc, hwrap _ hfetch, hpaused,
    (hstop hrun _ (Or.inr ⟨3, rfl⟩) hpaused).1⟩

end Run

end Chip8
