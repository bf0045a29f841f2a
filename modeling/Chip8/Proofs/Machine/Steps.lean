import Chip8.Machine.Run

namespace Chip8.Run

/-- The same run with its machine changed by the host. -/
def mapMachine (r : Run) (f : Machine → Machine) : Run :=
  { r with machine := f r.machine }

/-- The same run with its machine in another run state. -/
def withState (r : Run) (state : RunState) : Run :=
  r.mapMachine fun m => { m with state := state }

def isFault : Except Error RunState → Bool
  | .error _ => true
  | .ok _ => false

variable {r : Run} {e : Error} {state : RunState}

@[simp] theorem state_withState (r : Run) (state : RunState) :
    (r.withState state).machine.state = state := rfl

@[simp] theorem toCore_withState (r : Run) (state : RunState) :
    (r.withState state).machine.toCore = r.machine.toCore := rfl

theorem withState_of_state (h : r.machine.state = state) : r.withState state = r := by
  subst h
  rfl

/-- Listing the next instruction does not touch the machine. -/
@[simp] theorem machine_listNext (r : Run) : r.listNext.machine = r.machine := by
  unfold listNext
  split <;> rfl

@[simp] theorem noise_listNext (r : Run) : r.listNext.noise = r.noise := by
  unfold listNext
  split <;> rfl

/-- What a tick makes of the core has nothing to do with what it lists. -/
theorem toCore_tick (r : Run) :
    r.tick.1.machine.toCore = (r.machine.toCore.tick r.noise.next).1 := by
  change (r.listNext.machine.toCore.tick r.listNext.noise.next).1 = _
  rw [machine_listNext, noise_listNext]

theorem answer_tick (r : Run) : r.tick.2 = (r.machine.toCore.tick r.noise.next).2 := by
  change (r.listNext.machine.toCore.tick r.listNext.noise.next).2 = _
  rw [machine_listNext, noise_listNext]

/-- A tick leaves the run state alone. It is for the step to set it. -/
@[simp] theorem state_tick (r : Run) : r.tick.1.machine.state = r.machine.state := by
  change r.listNext.machine.state = r.machine.state
  rw [machine_listNext]

/-- A machine that is not running answers its run state and does nothing else. -/
theorem step_of_stopped (hstopped : r.machine.state ≠ .running) :
    r.step = (r, .ok r.machine.state) :=
  if_neg hstopped

/-- A step of a running machine is a tick that sets the run state by the way it ended. -/
theorem step_of_running (hrun : r.machine.state = .running) :
    r.step =
      match r.tick with
      | (next, .error e) => (next.withState .quit, .error e)
      | (next, .ok ()) =>
        let state := if next.machine.cpu.atBreakpoint then RunState.paused else .running
        (next.withState state, .ok state) := by
  have hlisted : r.listNext.machine.state = .running := by rw [machine_listNext, hrun]
  unfold step tick Machine.step Machine.tick
  dsimp only
  rw [if_pos hrun, if_pos hlisted]
  cases r.listNext.machine.toCore.tick r.listNext.noise.next with
  | mk core result =>
    cases result with
    | error e => rfl
    | ok _ => rfl

/-- A fault stops the machine for good, and the step reports it. -/
theorem step_of_tick_error (hrun : r.machine.state = .running) (hanswer : r.tick.2 = .error e) :
    r.step = (r.tick.1.withState .quit, .error e) := by
  have htick : r.tick = (r.tick.1, .error e) := Prod.ext rfl hanswer
  rw [step_of_running hrun, htick]

/-- The breakpoint is looked for after the tick, at the address of the next instruction. -/
theorem step_of_tick_breakpoint (hrun : r.machine.state = .running) (hanswer : r.tick.2 = .ok ())
    (hbreak : r.tick.1.machine.cpu.atBreakpoint = true) :
    r.step = (r.tick.1.withState .paused, .ok .paused) := by
  have htick : r.tick = (r.tick.1, .ok ()) := Prod.ext rfl hanswer
  rw [step_of_running hrun, htick]
  simp only [hbreak, if_true]

/-- A tick that ends well and leads to no breakpoint leaves the machine running. -/
theorem step_of_tick_clear (hrun : r.machine.state = .running) (hanswer : r.tick.2 = .ok ())
    (hclear : r.tick.1.machine.cpu.atBreakpoint = false) : r.step = (r.tick.1, .ok .running) := by
  have htick : r.tick = (r.tick.1, .ok ()) := Prod.ext rfl hanswer
  have hstate := withState_of_state (r.state_tick.trans hrun)
  rw [step_of_running hrun, htick]
  simp only [hclear, Bool.false_eq_true, if_false, hstate]

/-- The ways in which a step ends: the machine was not running, or its tick faulted, or it arrived at
a breakpoint, or it may go on. -/
inductive StepEnds (r : Run) : Run × Except Error RunState → Prop where
  | stopped (hstopped : r.machine.state ≠ .running) : StepEnds r (r, .ok r.machine.state)
  | faulted (hrun : r.machine.state = .running) {e : Error} (htick : r.tick.2 = .error e) :
      StepEnds r (r.tick.1.withState .quit, .error e)
  | paused (hrun : r.machine.state = .running) (htick : r.tick.2 = .ok ())
      (hbreak : r.tick.1.machine.cpu.atBreakpoint = true) :
      StepEnds r (r.tick.1.withState .paused, .ok .paused)
  | completed (hrun : r.machine.state = .running) (htick : r.tick.2 = .ok ())
      (hclear : r.tick.1.machine.cpu.atBreakpoint = false) :
      StepEnds r (r.tick.1, .ok .running)

/-- No step ends in any other way. -/
theorem step_ends (r : Run) : r.StepEnds r.step := by
  by_cases hrun : r.machine.state = .running
  · cases htick : r.tick.2 with
    | error e =>
      rw [step_of_tick_error hrun htick]
      exact .faulted hrun htick
    | ok _ =>
      cases hbreak : r.tick.1.machine.cpu.atBreakpoint with
      | true =>
        rw [step_of_tick_breakpoint hrun htick hbreak]
        exact .paused hrun htick hbreak
      | false =>
        rw [step_of_tick_clear hrun htick hbreak]
        exact .completed hrun htick hbreak
  · rw [step_of_stopped hrun]
    exact .stopped hrun

/-- As long as a step leaves the machine running the others follow it. -/
theorem multistep_succ_of_running (hanswer : r.step.2 = .ok .running) (n : Nat) :
    r.multistep (n + 1) = r.step.1.multistep n := by
  have hstep : r.step = (r.step.1, .ok .running) := Prod.ext rfl hanswer
  rw [multistep, hstep]

/-- The first step that leaves the machine in another state is the last, and answers for all. -/
theorem multistep_succ_of_stopped (hanswer : r.step.2 ≠ .ok .running) (n : Nat) :
    r.multistep (n + 1) = r.step := by
  rw [multistep]
  split
  · next heq => exact absurd (congrArg Prod.snd heq) hanswer
  · rfl

/-- A machine that is not running takes no step, however many are asked for. -/
theorem multistep_of_stopped (hstopped : r.machine.state ≠ .running) (n : Nat) :
    r.multistep n = (r, .ok r.machine.state) := by
  have hstep := step_of_stopped hstopped
  cases n with
  | zero => rfl
  | succ n =>
    rw [multistep_succ_of_stopped (by simp [hstep, hstopped]), hstep]

/-- A number of calls of `step`, one after the other whatever they answer, with all their answers. -/
def steps (r : Run) : Nat → Run × List (Except Error RunState)
  | 0 => (r, [])
  | n + 1 =>
    let (next, answer) := r.step
    let (last, answers) := next.steps n
    (last, answer :: answers)

theorem steps_succ (r : Run) (n : Nat) :
    r.steps (n + 1) = ((r.step.1.steps n).1, r.step.2 :: (r.step.1.steps n).2) := rfl

/-- Steps of a machine that is not running all answer the same. -/
theorem steps_of_stopped (hstopped : r.machine.state ≠ .running) (n : Nat) :
    r.steps n = (r, List.replicate n (.ok r.machine.state)) := by
  induction n with
  | zero => rfl
  | succ n ih =>
    rw [steps_succ, step_of_stopped hstopped]
    dsimp only
    rw [ih, List.replicate_succ]

/-- Steps can be taken in two portions. -/
theorem steps_add (r : Run) (a b : Nat) : (r.steps (a + b)).1 = ((r.steps a).1.steps b).1 := by
  induction a generalizing r with
  | zero => rw [Nat.zero_add, steps]
  | succ a ih =>
    rw [Nat.succ_add, steps_succ, steps_succ]
    exact ih r.step.1

/-- `o` sums up a sequence of steps: it leaves the same, and its answer is the fault of the only step
that has one or else the run state at the end. -/
structure SumsUp (o : Run × Except Error RunState)
    (s : Run × List (Except Error RunState)) : Prop where
  run : o.1 = s.1
  faults : s.2.filter isFault = [o.2].filter isFault
  state : ∀ state, o.2 = .ok state → state = s.1.machine.state

/-- After a step that stops the machine the others do nothing and answer no fault. -/
theorem SumsUp.of_stopped {next : Run} {answer : Except Error RunState}
    (hstopped : next.machine.state ≠ .running)
    (hstate : ∀ state, answer = .ok state → state = next.machine.state) (n : Nat) :
    SumsUp (next, answer) ((next.steps n).1, answer :: (next.steps n).2) := by
  rw [steps_of_stopped hstopped]
  refine ⟨rfl, ?_, hstate⟩
  have hquiet : (List.replicate n (Except.ok next.machine.state)).filter isFault = [] := by
    simp [isFault]
  rw [List.filter_cons, List.filter_cons, hquiet, List.filter_nil]

/-- However it is stopped, a call of `multistep` sums up as many calls of `step`. -/
theorem multistep_sumsUp (r : Run) (n : Nat) : SumsUp (r.multistep n) (r.steps n) := by
  induction n generalizing r with
  | zero => exact ⟨rfl, rfl, fun state h => (Except.ok.inj h).symm⟩
  | succ n ih =>
    by_cases hrun : r.machine.state = .running
    · have hends := r.step_ends
      rw [multistep, steps_succ]
      generalize r.step = o at hends ⊢
      cases hends with
      | stopped hstopped => exact absurd hrun hstopped
      | faulted _ htick => exact .of_stopped (by simp) (by simp) n
      | paused _ htick hbreak => exact .of_stopped (by simp) (by simp) n
      | completed _ htick hclear =>
        obtain ⟨hsame, hfaults, hstate⟩ := ih r.tick.1
        refine ⟨hsame, ?_, hstate⟩
        rw [← hfaults]
        rfl
    · rw [multistep_of_stopped hrun, steps_succ, step_of_stopped hrun]
      exact .of_stopped hrun (by simp) n

/-- A fault is reported exactly if one of the steps has reported it. -/
theorem SumsUp.error_iff {o : Run × Except Error RunState}
    {s : Run × List (Except Error RunState)} (h : SumsUp o s) (e : Error) :
    o.2 = .error e ↔ .error e ∈ s.2 := by
  have hmem : .error e ∈ s.2 ↔ .error e ∈ [o.2].filter isFault := by
    rw [← h.faults, List.mem_filter]
    simp [isFault]
  rw [hmem, List.mem_filter, List.mem_singleton]
  simp [isFault, eq_comm]

/-- Without a fault the answer is the run state that the steps have come to. -/
theorem SumsUp.ok_iff {o : Run × Except Error RunState}
    {s : Run × List (Except Error RunState)} (h : SumsUp o s) (state : RunState) :
    o.2 = .ok state ↔ (∀ e, .error e ∉ s.2) ∧ state = s.1.machine.state := by
  have herror := h.error_iff
  have hstate := h.state
  cases hanswer : o.2 with
  | error e =>
    have hmem := (herror e).mp hanswer
    simp only [reduceCtorEq, false_iff, not_and]
    exact fun hnone => absurd hmem (hnone e)
  | ok last =>
    have hlast := hstate last hanswer
    have hnone (e : Error) : .error e ∉ s.2 := by
      rw [← herror, hanswer]
      simp
    simp only [Except.ok.injEq]
    exact ⟨fun heq => ⟨hnone, heq ▸ hlast⟩, fun heq => hlast.trans heq.2.symm⟩

/-- Calling `step` over and over and calling `multistep` once is the same: the same is left, the only
fault among the answers is that of the one answer, and without a fault the one answer is the run state
at the end. So it does not matter in which portions the steps are asked for. -/
theorem multistep_eq_steps (r : Run) :
    (∀ n, (r.multistep n).1 = (r.steps n).1 ∧
      (∀ e, (r.multistep n).2 = .error e ↔ .error e ∈ (r.steps n).2) ∧
      (r.steps n).2.countP isFault ≤ 1 ∧
      (∀ state, (r.multistep n).2 = .ok state ↔
        (∀ e, .error e ∉ (r.steps n).2) ∧ state = (r.steps n).1.machine.state)) ∧
    ∀ a b, ((r.multistep a).1.multistep b).1 = (r.multistep (a + b)).1 := by
  constructor
  · intro n
    have hsum := r.multistep_sumsUp n
    refine ⟨hsum.run, hsum.error_iff, ?_, hsum.ok_iff⟩
    rw [List.countP_eq_length_filter, hsum.faults]
    exact List.length_filter_le _ _
  · intro a b
    rw [(multistep_sumsUp _ b).run, (r.multistep_sumsUp a).run, ← steps_add,
      (r.multistep_sumsUp (a + b)).run]

end Chip8.Run
