import Chip8.Proofs.Core.Alike
import Chip8.Proofs.Machine.Stop

namespace Chip8

namespace Core

/-- The same core with other breakpoints. -/
def withBreakpoints (c : Core) (breakpoints : List Word) : Core :=
  { c with cpu := { c.cpu with breakpoints := breakpoints } }

/-- The same core without breakpoints. -/
def withoutBreakpoints (c : Core) : Core :=
  c.withBreakpoints []

variable (c : Core) (rolls : Nat → UInt8)

/-- A tick does the same whatever the host wants to watch. -/
theorem tick_withoutBreakpoints (roll : UInt8) :
    c.withoutBreakpoints.tick roll = ((c.tick roll).1.withoutBreakpoints, (c.tick roll).2) :=
  c.tick_rewatch (fun watch => (watch.1, watch.2.1, [])) (fun _ _ => rfl) roll

/-- Ticks do the same whatever the host wants to watch. -/
theorem after_withoutBreakpoints (k : Nat) :
    c.withoutBreakpoints.after rolls k = (c.after rolls k).withoutBreakpoints := by
  induction k with
  | zero => rfl
  | succ k ih => rw [after, ih, tick_withoutBreakpoints, after]

theorem answerAt_withoutBreakpoints (k : Nat) :
    c.withoutBreakpoints.answerAt rolls k = c.answerAt rolls k := by
  rw [answerAt, after_withoutBreakpoints, tick_withoutBreakpoints, answerAt]

/-- Ticks can be taken in two portions, with the bytes of chance continued. -/
theorem after_add (a b : Nat) :
    c.after rolls (a + b) = (c.after rolls a).after (fun k => rolls (a + k)) b := by
  induction b with
  | zero => rfl
  | succ b ih => rw [← Nat.add_assoc, after, ih, after]

theorem answerAt_add (a b : Nat) :
    c.answerAt rolls (a + b) = (c.after rolls a).answerAt (fun k => rolls (a + k)) b := by
  rw [answerAt, after_add, answerAt]

end Core

namespace Noise

/-- The byte that comes after `k` others. -/
def upcoming (n : Noise) (k : Nat) : UInt8 :=
  n.byteAt (n.drawn + k)

/-- The source after `k` bytes were taken from it. -/
def skip (n : Noise) (k : Nat) : Noise :=
  { n with drawn := n.drawn + k }

theorem upcoming_skip (n : Noise) (a : Nat) :
    (n.skip a).upcoming = fun k => n.upcoming (a + k) := by
  funext k
  rw [upcoming, upcoming, skip, Nat.add_assoc]

theorem skip_skip (n : Noise) (a b : Nat) : (n.skip a).skip b = n.skip (a + b) := by
  rw [skip, skip, skip, Nat.add_assoc]

end Noise

namespace Run

/-- What `k` ticks make of the core if it has no breakpoints. -/
def plain (r : Run) (k : Nat) : Core :=
  r.machine.toCore.withoutBreakpoints.after r.noise.upcoming k

/-- What the tick then answers that comes after `k` others. -/
def plainAnswer (r : Run) (k : Nat) : Except Error Unit :=
  r.machine.toCore.withoutBreakpoints.answerAt r.noise.upcoming k

/-- `next` stands where the plain run of `r` comes to after `k` ticks. -/
structure StandsAt (r : Run) (k : Nat) (next : Run) : Prop where
  core : next.machine.toCore.withoutBreakpoints = r.plain k
  breakpoints : next.machine.cpu.breakpoints = r.machine.cpu.breakpoints
  noise : next.noise = r.noise.skip k

variable {r s t : Run} {a b k : Nat}

theorem StandsAt.refl (r : Run) : r.StandsAt 0 r :=
  ⟨rfl, rfl, rfl⟩

/-- From where a run stands, its plain run is the rest of the first one. -/
theorem StandsAt.plain_eq (h : r.StandsAt a s) (k : Nat) : s.plain k = r.plain (a + k) := by
  rw [plain, plain, h.core, h.noise, Noise.upcoming_skip, Core.after_add]
  rfl

theorem StandsAt.plainAnswer_eq (h : r.StandsAt a s) (k : Nat) :
    s.plainAnswer k = r.plainAnswer (a + k) := by
  rw [plainAnswer, plainAnswer, h.core, h.noise, Noise.upcoming_skip, Core.answerAt_add]
  rfl

/-- Two stretches of a plain run make one. -/
theorem StandsAt.trans (h : r.StandsAt a s) (h' : s.StandsAt b t) : r.StandsAt (a + b) t := by
  refine ⟨h'.core.trans (h.plain_eq b), h'.breakpoints.trans h.breakpoints, ?_⟩
  rw [h'.noise, h.noise, Noise.skip_skip]

/-- No tick faults before a run stands somewhere, and none of those that follow. -/
theorem StandsAt.quiet_add (h : r.StandsAt a s) (hbefore : ∀ i < a, r.plainAnswer i = .ok ())
    (hafter : ∀ i < b, s.plainAnswer i = .ok ()) (i : Nat) (hi : i < a + b) :
    r.plainAnswer i = .ok () := by
  by_cases hlt : i < a
  · exact hbefore i hlt
  · obtain ⟨k, rfl⟩ := Nat.exists_eq_add_of_le (Nat.not_lt.mp hlt)
    rw [← h.plainAnswer_eq]
    exact hafter k (Nat.add_lt_add_iff_left.mp hi)

/-- Where a run stands does not depend on the run state, the peripherals and the listing. -/
theorem StandsAt.congr (h : r.StandsAt k s) (hcore : t.machine.toCore = s.machine.toCore)
    (hnoise : t.noise = s.noise) : r.StandsAt k t :=
  ⟨by rw [hcore, h.core], by rw [hcore, h.breakpoints], by rw [hnoise, h.noise]⟩

/-- The core with its breakpoints is known from where a run stands. -/
theorem StandsAt.toCore_eq (h : r.StandsAt k s) (h' : r.StandsAt k t) :
    s.machine.toCore = t.machine.toCore := by
  have hplain := h.core.trans h'.core.symm
  have hpoints := h.breakpoints.trans h'.breakpoints.symm
  have hrestore (c : Core) : c = c.withoutBreakpoints.withBreakpoints c.cpu.breakpoints := rfl
  rw [hrestore s.machine.toCore, hplain, hpoints, ← hrestore]

/-- Every tick takes one byte of chance, used or not. -/
theorem noise_tick (r : Run) : r.tick.1.noise = r.noise.skip 1 := by
  change r.listNext.noise.rest = _
  rw [noise_listNext]
  rfl

theorem timers_tick (r : Run) : r.tick.1.machine.timers = r.machine.timers := by
  change r.listNext.machine.timers = _
  rw [machine_listNext]

/-- A tick goes one step along the plain run. -/
theorem stands_tick (r : Run) : r.StandsAt 1 r.tick.1 := by
  refine ⟨?_, r.breakpoints_tick, r.noise_tick⟩
  rw [toCore_tick, plain, Core.after_withoutBreakpoints]
  rfl

/-- Ticks go along the plain run, as far as there are ticks. -/
theorem stands_ticks (r : Run) (k : Nat) : r.StandsAt k (r.ticks k) := by
  induction k with
  | zero => exact .refl r
  | succ k ih => exact ih.trans (stands_tick _)

/-- However many instructions are executed, the timers wait for the host. -/
theorem timers_ticks (r : Run) (k : Nat) :
    (r.ticks k).machine.timers = r.machine.timers := by
  induction k with
  | zero => rfl
  | succ k ih => rw [ticks, timers_tick, ih]

/-- The answers of the ticks are those of the plain run. The ticks are counted from one and
the answers from zero. -/
theorem answer_nthTick (r : Run) (j : Nat) : (r.nthTick (j + 1)).2 = r.plainAnswer j := by
  have h := (r.stands_ticks j).plainAnswer_eq 0
  rw [nthTick, Nat.add_sub_cancel, answer_tick]
  rw [plainAnswer, Core.answerAt_withoutBreakpoints] at h
  exact h

theorem pc_ticks (r : Run) (k : Nat) : (r.ticks k).machine.cpu.pc = (r.plain k).cpu.pc := by
  rw [← (r.stands_ticks k).core]
  rfl

/-- A tick halts if its answer in the plain run is a fault, or if it leads to a breakpoint. -/
theorem not_halts_iff_plain (r : Run) (j : Nat) : ¬ r.Halts (j + 1) ↔
    r.plainAnswer j = .ok () ∧ (r.plain (j + 1)).cpu.pc ∉ r.machine.cpu.breakpoints := by
  rw [not_halts_iff, ← Bool.not_eq_true, atBreakpoint_ticks_iff, pc_ticks, ← answer_nthTick]
  rfl

/-- What at most `n` steps make of a running machine, told by its plain run: they follow it to the first
tick that faults or leads to a breakpoint, or to the end if there is none. -/
inductive Advances (r : Run) (n : Nat) : Run × Except Error RunState → Prop where
  | faulted {j : Nat} {e : Error} (hj : j < n) (hquiet : ∀ i < j, r.plainAnswer i = .ok ())
      (hanswer : r.plainAnswer j = .error e) :
      Advances r n ((r.ticks (j + 1)).withState .quit, .error e)
  | paused {j : Nat} (hj : j < n) (hquiet : ∀ i < j + 1, r.plainAnswer i = .ok ())
      (hbreak : (r.plain (j + 1)).cpu.pc ∈ r.machine.cpu.breakpoints) :
      Advances r n ((r.ticks (j + 1)).withState .paused, .ok .paused)
  | completed (hquiet : ∀ i < n, r.plainAnswer i = .ok ())
      (hclear : 0 < n → (r.plain n).cpu.pc ∉ r.machine.cpu.breakpoints) :
      Advances r n ((r.ticks n).withState .running, .ok .running)

/-- Whatever `multistep` does to a running machine can be told from its plain run. -/
theorem multistep_advances (hrun : r.machine.state = .running) (n : Nat) :
    r.Advances n (r.multistep n) := by
  cases n with
  | zero =>
    have hnone : r.multistep 0 = ((r.ticks 0).withState .running, .ok .running) := by
      rw [ticks, withState_of_state hrun, multistep, hrun]
    rw [hnone]
    exact .completed (fun _ h => absurd h (Nat.not_lt_zero _)) (fun h => absurd h (Nat.lt_irrefl 0))
  | succ n =>
    obtain ⟨k, hk⟩ := r.exists_stopsAt (Nat.succ_pos n)
    have hexecutes := executes_of_stopsAt hrun hk
    obtain ⟨hpos, hle, hbefore, _⟩ := hk
    -- The answer to tick `k` is the one that comes after `k - 1` others.
    obtain ⟨j, rfl⟩ : ∃ j, k = j + 1 := Nat.exists_eq_add_one.mpr hpos
    have hquiet (i : Nat) (hi : i < j) : r.plainAnswer i = .ok () :=
      ((r.not_halts_iff_plain i).mp (hbefore (i + 1) (Nat.succ_pos i) (Nat.succ_lt_succ hi))).1
    generalize r.multistep (n + 1) = o at hexecutes
    cases hexecutes with
    | faulted hanswer _ =>
      rw [answer_nthTick] at hanswer
      exact .faulted hle hquiet hanswer
    | paused hanswer hbreak _ =>
      rw [answer_nthTick] at hanswer
      rw [pc_ticks] at hbreak
      refine .paused hle (fun i hi => ?_) hbreak
      obtain hlt | rfl := Nat.lt_succ_iff_lt_or_eq.mp hi
      · exact hquiet i hlt
      · exact hanswer
    | completed hall hclear _ =>
      obtain rfl := Nat.succ_inj.mp hall
      have hnot (i : Nat) (hi : i < j + 1) :=
        (r.not_halts_iff_plain i).mp (hclear (i + 1) (Nat.succ_pos i) hi)
      exact .completed (fun i hi => (hnot i hi).1) (fun _ => (hnot j (Nat.lt_succ_self j)).2)

end Run

end Chip8
