import Chip8.Proofs.Core.Fetch
import Chip8.Proofs.Core.Watch
import Chip8.Proofs.Machine.Steps
import Mathlib.Data.Nat.Find
import Mathlib.Logic.ExistsUnique

namespace Chip8.Run

/-- A number of ticks one after the other, whatever they answer. -/
def ticks (r : Run) : Nat → Run
  | 0 => r
  | j + 1 => (r.ticks j).tick.1

/-- The `j`-th of a sequence of ticks, counted from one: what it leaves and how it ended. -/
def nthTick (r : Run) (j : Nat) : Run × Except Error Unit :=
  (r.ticks (j - 1)).tick

theorem nthTick_one (r : Run) : r.nthTick 1 = r.tick := rfl

/-- The `j`-th of a sequence of ticks faults, or succeeds and arrives at a breakpoint. -/
def Halts (r : Run) (j : Nat) : Prop :=
  (∃ e, (r.nthTick j).2 = .error e) ∨
    (r.nthTick j).2 = .ok () ∧ (r.nthTick j).1.machine.cpu.pc ∈ r.machine.cpu.breakpoints

/-- The first tick of at most `n` that halts is the `k`-th, or none halts and `k` is `n`. -/
structure StopsAt (r : Run) (n k : Nat) : Prop where
  pos : 1 ≤ k
  le : k ≤ n
  before : ∀ j, 1 ≤ j → j < k → ¬ r.Halts j
  last : k = n ∨ r.Halts k

/-- What at most `n` steps come to if exactly `k` ticks are executed: these ticks and nothing else
happen, and the last of them decides on the run state and on the answer. A tick that faults is not
counted as a cycle. -/
inductive Executes (r : Run) (n k : Nat) : Run × Except Error RunState → Prop where
  | faulted {e : Error} (hanswer : (r.nthTick k).2 = .error e)
      (hcycle : (r.ticks k).machine.cpu.cycle = r.machine.cpu.cycle + (k - 1)) :
      Executes r n k ((r.ticks k).withState .quit, .error e)
  | paused (hanswer : (r.nthTick k).2 = .ok ())
      (hbreak : (r.ticks k).machine.cpu.pc ∈ r.machine.cpu.breakpoints)
      (hcycle : (r.ticks k).machine.cpu.cycle = r.machine.cpu.cycle + k) :
      Executes r n k ((r.ticks k).withState .paused, .ok .paused)
  | completed (hall : k = n) (hquiet : ∀ j, 1 ≤ j → j ≤ n → ¬ r.Halts j)
      (hcycle : (r.ticks k).machine.cpu.cycle = r.machine.cpu.cycle + k) :
      Executes r n k ((r.ticks k).withState .running, .ok .running)

variable {r : Run} {n k : Nat}

/-- There is always a tick to stop at, since the last one that is asked for will do. -/
theorem exists_stopsAt (r : Run) (hn : 1 ≤ n) : ∃ k, r.StopsAt n k := by
  classical
  have hsome : ∃ k, 1 ≤ k ∧ (k = n ∨ r.Halts k) := ⟨n, hn, Or.inl rfl⟩
  obtain ⟨hpos, hlast⟩ := Nat.find_spec hsome
  refine ⟨Nat.find hsome, hpos, Nat.find_min' hsome ⟨hn, Or.inl rfl⟩, ?_, hlast⟩
  intro j hj hlt hhalts
  exact Nat.find_min hsome hlt ⟨hj, Or.inr hhalts⟩

/-- Neither of two such numbers comes before the other: the smaller would be `n` or halt. -/
theorem StopsAt.le_of_stopsAt {k' : Nat} (h : r.StopsAt n k) (h' : r.StopsAt n k') : k ≤ k' := by
  by_contra hlt
  have hbefore := h.before k' h'.pos (Nat.not_le.mp hlt)
  obtain rfl | hhalts := h'.last
  · exact hlt h.le
  · exact hbefore hhalts

theorem state_ticks (r : Run) (j : Nat) : (r.ticks j).machine.state = r.machine.state := by
  induction j with
  | zero => rfl
  | succ j ih => rw [ticks, state_tick, ih]

/-- No instruction sets or unsets a breakpoint. -/
theorem breakpoints_tick (r : Run) :
    r.tick.1.machine.cpu.breakpoints = r.machine.cpu.breakpoints := by
  rw [toCore_tick]
  exact Core.breakpoints_tick _ _

/-- A program cannot reach the breakpoints, however long it runs. -/
theorem breakpoints_ticks (r : Run) (j : Nat) :
    (r.ticks j).machine.cpu.breakpoints = r.machine.cpu.breakpoints := by
  induction j with
  | zero => rfl
  | succ j ih => rw [ticks, breakpoints_tick, ih]

theorem cycle_tick_of_ok (hok : r.tick.2 = .ok ()) :
    r.tick.1.machine.cpu.cycle = r.machine.cpu.cycle + 1 := by
  rw [answer_tick] at hok
  rw [toCore_tick, Core.cycle_tick, hok]
  rfl

theorem cycle_tick_of_error {e : Error} (herror : r.tick.2 = .error e) :
    r.tick.1.machine.cpu.cycle = r.machine.cpu.cycle := by
  rw [answer_tick] at herror
  rw [toCore_tick, Core.cycle_tick, herror]
  rfl

/-- The breakpoints are the same from the first tick to the last. -/
theorem atBreakpoint_ticks_iff (r : Run) (j : Nat) :
    (r.ticks j).machine.cpu.atBreakpoint = true ↔
      (r.ticks j).machine.cpu.pc ∈ r.machine.cpu.breakpoints := by
  rw [Cpu.atBreakpoint, decide_eq_true_iff, breakpoints_ticks]

/-- A tick that does not halt has succeeded and arrived somewhere else than at a breakpoint. -/
theorem not_halts_iff (r : Run) (j : Nat) : ¬ r.Halts (j + 1) ↔
    (r.ticks j).tick.2 = .ok () ∧ (r.ticks (j + 1)).machine.cpu.atBreakpoint = false := by
  have hhalts : r.Halts (j + 1) ↔ (∃ e, (r.ticks j).tick.2 = .error e) ∨
      (r.ticks j).tick.2 = .ok () ∧ (r.ticks (j + 1)).machine.cpu.atBreakpoint = true := by
    rw [atBreakpoint_ticks_iff]
    rfl
  rw [hhalts]
  cases (r.ticks j).tick.2 with
  | error e => simp
  | ok _ => simp

/-- As long as no tick halts, the steps are the ticks, and each completes a cycle. -/
theorem multistep_of_quiet (hrun : r.machine.state = .running) (n : Nat) {j : Nat}
    (hquiet : ∀ i, 1 ≤ i → i ≤ j → ¬ r.Halts i) :
    r.multistep (j + n) = (r.ticks j).multistep n ∧
      (r.ticks j).machine.cpu.cycle = r.machine.cpu.cycle + j := by
  induction j generalizing n with
  | zero =>
    rw [Nat.zero_add]
    exact ⟨rfl, rfl⟩
  | succ j ih =>
    have hearlier (i : Nat) (hpos : 1 ≤ i) (hle : i ≤ j) : ¬ r.Halts i :=
      hquiet i hpos (Nat.le_succ_of_le hle)
    obtain ⟨hsteps, hcycle⟩ := ih (n + 1) hearlier
    have hlast := hquiet (j + 1) (Nat.succ_pos j) (Nat.le_refl _)
    obtain ⟨hok, hclear⟩ := (r.not_halts_iff j).mp hlast
    have hstep := step_of_tick_clear ((r.state_ticks j).trans hrun) hok hclear
    constructor
    · rw [Nat.succ_add_eq_add_succ, hsteps, multistep_succ_of_running (by rw [hstep]), hstep]
      rfl
    · rw [ticks, cycle_tick_of_ok hok, hcycle]
      rfl

/-- Up to the first tick that halts nothing stops the machine, and that tick does. -/
theorem executes_of_stopsAt (hrun : r.machine.state = .running) (h : r.StopsAt n k) :
    r.Executes n k (r.multistep n) := by
  obtain ⟨hpos, hle, hbefore, hlast⟩ := h
  obtain ⟨j, rfl⟩ : ∃ j, k = j + 1 := ⟨k - 1, by omega⟩
  obtain ⟨m, rfl⟩ : ∃ m, n = j + (m + 1) := ⟨n - (j + 1), by omega⟩
  have hquiet (i : Nat) (hi : 1 ≤ i) (hij : i ≤ j) : ¬ r.Halts i :=
    hbefore i hi (Nat.lt_succ_of_le hij)
  obtain ⟨hsteps, hcycle⟩ := multistep_of_quiet hrun (m + 1) hquiet
  have hstate := (r.state_ticks j).trans hrun
  rw [hsteps]
  -- What is left begins with the tick that halts, unless it is the last one and nothing halts.
  cases hanswer : (r.ticks j).tick.2 with
  | error e =>
    have hstep := step_of_tick_error hstate hanswer
    rw [multistep_succ_of_stopped (by simp [hstep]), hstep]
    exact .faulted hanswer ((cycle_tick_of_error hanswer).trans hcycle)
  | ok _ =>
    have hcount : (r.ticks (j + 1)).machine.cpu.cycle = r.machine.cpu.cycle + (j + 1) :=
      (cycle_tick_of_ok hanswer).trans (congrArg (· + 1) hcycle)
    cases hbreak : (r.ticks (j + 1)).machine.cpu.atBreakpoint with
    | true =>
      have hstep := step_of_tick_breakpoint hstate hanswer hbreak
      rw [multistep_succ_of_stopped (by simp [hstep]), hstep]
      exact .paused hanswer ((r.atBreakpoint_ticks_iff (j + 1)).mp hbreak) hcount
    | false =>
      have hstep := step_of_tick_clear hstate hanswer hbreak
      have hclear := (r.not_halts_iff j).mpr ⟨hanswer, hbreak⟩
      obtain rfl : m = 0 := by
        obtain hall | hhalts := hlast
        · omega
        · exact absurd hhalts hclear
      rw [multistep_succ_of_running (by rw [hstep]), hstep]
      have hrunning := (r.state_ticks (j + 1)).trans hrun
      have hdone : (r.ticks (j + 1)).multistep 0 =
          ((r.ticks (j + 1)).withState .running, .ok .running) := by
        rw [withState_of_state hrunning, multistep, hrunning]
      refine hdone ▸ .completed rfl ?_ hcount
      intro i hi hle
      obtain hlt | rfl := Nat.lt_or_eq_of_le hle
      · exact hbefore i hi hlt
      · exact hclear

/-- `multistep` executes exactly the ticks up to the first that halts. A breakpoint at which a machine
already stands is not one at which it arrives, so that a machine which resumes there goes on. -/
theorem multistep_stops_at_first_halt (n : Nat) (hn : 1 ≤ n) :
    (∀ r : Run, r.machine.state = .running →
      (∃! k, r.StopsAt n k) ∧ ∀ k, r.StopsAt n k → r.Executes n k (r.multistep n)) ∧
    ∀ r : Run, r.machine.state = .paused →
      ∃ k, 1 ≤ k ∧ (r.mapMachine .resume).Executes n k ((r.mapMachine .resume).multistep n) := by
  constructor
  · intro r hrun
    obtain ⟨k, hk⟩ := r.exists_stopsAt hn
    have hunique (k' : Nat) (hk' : r.StopsAt n k') : k' = k :=
      Nat.le_antisymm (hk'.le_of_stopsAt hk) (hk.le_of_stopsAt hk')
    exact ⟨⟨k, hk, hunique⟩, fun k' hk' => executes_of_stopsAt hrun hk'⟩
  · intro r hpaused
    have hrun : (r.mapMachine .resume).machine.state = .running := by
      rw [mapMachine, Machine.resume, if_pos hpaused]
    obtain ⟨k, hk⟩ := (r.mapMachine .resume).exists_stopsAt hn
    exact ⟨k, hk.pos, executes_of_stopsAt hrun hk⟩

/-- A machine at a breakpoint whose instruction jumps to itself. -/
def selfJump (state : RunState) : Run :=
  let core := Core.loaded { Cpu.initial false with breakpoints := [Cpu.entry] } [0x12, 0x00]
  .start ⟨core, .zero, .released, state⟩ (.ofSeed 0)

private theorem tick_selfJump (state : RunState) : (selfJump state).tick.2 = .ok () ∧
    (selfJump state).tick.1.machine.cpu.pc = Cpu.entry := by
  have hword : (selfJump state).machine.toCore.word = Word.ofBytes 0x12 0x00 :=
    Core.word_loaded rfl 0x12 0x00 []
  have hinsn : Instruction.ofWord? (selfJump state).machine.toCore.word = some (.jump 0x200) := by
    rw [hword]
    rfl
  have hpc : (selfJump state).machine.cpu.pc.toNat ≤ 4094 := by
    change (0x200 : Nat) ≤ 4094
    decide
  rw [answer_tick, toCore_tick, Core.tick_of_execute_ok hpc hinsn rfl]
  exact ⟨rfl, rfl⟩

/-- The machine leaves the breakpoint and comes back to it at once. -/
theorem multistep_stops_at_first_halt_self_jump :
    (selfJump .running).machine.cpu.atBreakpoint = true ∧
      (selfJump .running).machine.state = .running ∧ (selfJump .running).StopsAt 5 1 ∧
      ((selfJump .running).multistep 5).2 = .ok .paused ∧
      ((selfJump .running).multistep 5).1.machine.cpu.cycle =
        (selfJump .running).machine.cpu.cycle + 1 ∧
      (selfJump .paused).machine.state = .paused ∧
      ∃ k, 1 ≤ k ∧ ((selfJump .paused).mapMachine .resume).Executes 5 k
        (((selfJump .paused).mapMachine .resume).multistep 5) := by
  obtain ⟨hok, hpc⟩ := tick_selfJump .running
  have harrives : (selfJump .running).tick.1.machine.cpu.pc ∈ [Cpu.entry] := by
    rw [hpc]
    exact List.mem_singleton_self _
  have hhalts : (selfJump .running).Halts 1 := by
    rw [Halts, nthTick_one]
    exact Or.inr ⟨hok, harrives⟩
  have hstops : (selfJump .running).StopsAt 5 1 :=
    ⟨Nat.le_refl 1, by decide, fun j hj hlt => absurd hj (Nat.not_le.mpr hlt), Or.inr hhalts⟩
  obtain ⟨hrunning, hpaused⟩ := multistep_stops_at_first_halt 5 (by decide)
  have hexecutes := (hrunning (selfJump .running) rfl).2 1 hstops
  refine ⟨by decide, rfl, hstops, ?_⟩
  generalize (selfJump .running).multistep 5 = o at hexecutes
  cases hexecutes with
  | faulted herror hcycle => exact nomatch hok.symm.trans herror
  | paused _ _ hcycle =>
    rw [toCore_withState]
    exact ⟨rfl, hcycle, rfl, hpaused (selfJump .paused) rfl⟩
  | completed hall _ _ => exact absurd hall (by decide)

end Chip8.Run
