import Chip8.Proofs.Checked.Core
import Chip8.Proofs.Machine.Stop

namespace Chip8

namespace Checked

/-- A machine as it is stored. The keypad looks a key up before it moves it, and the timers stop at
zero, so that these two are the same as ever. -/
structure Machine extends Core where
  timers : Timers
  keypad : Keypad
  state : RunState

namespace Machine

/-- A new machine relies on the built-in font to fit. -/
def withScreen (screen : Screen) : Guarded Machine := do
  match ← loadMemory .zeroed Font.bytes [] with
  | (_, .error _) => .error .font
  | (mem, .ok ()) =>
    return {
      cpu := .initial
      mem := mem
      screen := screen
      timers := .zero
      keypad := .released
      state := .initial }

def standard : Guarded Machine := do
  withScreen (← Screen.standard)

def ofSize (width height : Nat) : Guarded (Except Error Machine) := do
  match ← Screen.ofSize width height with
  | .error e => return .error e
  | .ok screen => return .ok (← withScreen screen)

def load (m : Machine) (font program : List UInt8) : Guarded (Outcome Machine Unit) := do
  match ← loadMemory m.mem font program with
  | (mem, .error e) => return ({ m with mem := mem }, .error e)
  | (mem, .ok ()) =>
    return ({ m with
        cpu := m.cpu.reset
        mem := mem
        screen := m.screen.clear
        timers := .zero
        state := .running }, .ok ())

def pause (m : Machine) : Machine :=
  if m.state = .running then { m with state := .paused } else m

def resume (m : Machine) : Machine :=
  if m.state = .paused then { m with state := .running } else m

end Machine

/-- A machine in operation. What it has listed is left out. -/
structure Run where
  machine : Machine
  noise : Noise

namespace Run

def withMachine (r : Run) (machine : Machine) : Run :=
  { r with machine := machine }

def withState (r : Run) (state : RunState) : Run :=
  r.withMachine { r.machine with state := state }

def tick (r : Run) : Guarded (Outcome Run Unit) := do
  let (core, result) ← r.machine.toCore.tick r.noise.next
  return ({ machine := { r.machine with toCore := core }, noise := r.noise.rest }, result)

def step (r : Run) : Guarded (Outcome Run RunState) :=
  if r.machine.state = .running then do
    match ← r.tick with
    | (next, .error e) => return (next.withState .quit, .error e)
    | (next, .ok ()) =>
      let state := if next.machine.cpu.atBreakpoint then RunState.paused else .running
      return (next.withState state, .ok state)
  else return (r, .ok r.machine.state)

def multistep (r : Run) : Nat → Guarded (Outcome Run RunState)
  | 0 => return (r, .ok r.machine.state)
  | n + 1 => do
    match ← r.step with
    | (next, .ok .running) => next.multistep n
    | stopped => return stopped

end Run

end Checked

/-- The memory of a new machine is one with the built-in font and an empty program. -/
theorem Memory.load_font : Memory.zeroed.load Font.bytes [] = (Machine.fontMemory, .ok ()) := by
  rw [load_eq_blit _ Font.length_bytes_le (by decide), blit_nil]
  rfl

namespace Machine

/-- The machine without what is known about it. -/
def bare (m : Machine) : Checked.Machine :=
  { m.toCore.bare with timers := m.timers, keypad := m.keypad, state := m.state }

@[simp] theorem sp_bare (m : Machine) : m.bare.cpu.sp = m.cpu.stack.depth := rfl

@[simp] theorem state_bare (m : Machine) : m.bare.state = m.state := rfl

/-- The built-in font fits into its region. -/
theorem withScreen_bare (screen : Screen) :
    Checked.Machine.withScreen screen.bare = .ok (withScreen screen).bare := by
  rw [Checked.Machine.withScreen, Memory.load_checked, Memory.load_font]
  rfl

theorem standard_bare : Checked.Machine.standard = .ok standard.bare := by
  rw [Checked.Machine.standard, Screen.standard_bare]
  exact withScreen_bare .standard

/-- A machine of a given size can be made without a trap, or is refused for having no pixels. -/
theorem ofSize_bare {width height : Nat} (harea : width * height < Screen.areaLimit) :
    Checked.Machine.ofSize width height = .ok ((ofSize width height harea).map bare) := by
  rw [Checked.Machine.ofSize, Screen.ofSize_bare harea, ofSize]
  cases Screen.ofSize width height harea with
  | error e => rfl
  | ok screen =>
    simp only [Checked.ok_bind, Except.map, withScreen_bare]
    rfl

/-- A load comes to the same as without the checks, refused or not. -/
theorem load_bare (m : Machine) (font program : List UInt8) :
    m.bare.load font program = .ok ((m.load font program).1.bare, (m.load font program).2) := by
  have hmem : Checked.loadMemory m.bare.mem font program = .ok (m.mem.load font program) :=
    m.mem.load_checked font program
  rw [Checked.Machine.load, hmem, load]
  generalize m.mem.load font program = o
  obtain ⟨mem, result⟩ := o
  cases result with
  | error e => rfl
  | ok _ =>
    have hscreen : m.bare.screen.clear = m.screen.clear.bare := m.screen.clear_bare
    simp only [Checked.ok_bind, hscreen]
    rfl

theorem pause_bare (m : Machine) : m.bare.pause = m.pause.bare := by
  by_cases hrun : m.state = .running
  · rw [pause, if_pos hrun]
    exact if_pos hrun
  · rw [pause, if_neg hrun]
    exact if_neg hrun

theorem resume_bare (m : Machine) : m.bare.resume = m.resume.bare := by
  by_cases hpaused : m.state = .paused
  · rw [resume, if_pos hpaused]
    exact if_pos hpaused
  · rw [resume, if_neg hpaused]
    exact if_neg hpaused

end Machine

namespace Run

/-- The run without what is known about its machine. -/
def bare (r : Run) : Checked.Run :=
  ⟨r.machine.bare, r.noise⟩

theorem bare_tick (r : Run) :
    r.tick.1.bare =
      { machine := { r.machine.bare with
          toCore := (r.machine.toCore.tick r.noise.next).1.bare }
        noise := r.noise.rest } := by
  unfold tick Machine.tick
  dsimp only
  rw [machine_listNext, noise_listNext]
  rfl

/-- With fewer pixels than the limit a tick completes. -/
theorem tick_bare {r : Run} (harea : r.machine.screen.area < Checked.limit) :
    Checked.Completes r.bare.tick (r.tick.1.bare, r.tick.2) r.tick.1.machine.cpu.counted := by
  rw [bare_tick, answer_tick, toCore_tick]
  exact (Core.tick_bare harea r.noise.next).bind (Or.inl rfl)

/-- What instructions keep of a run: the size of the screen stays, and no cycle is taken back. -/
structure Continues (r next : Run) : Prop where
  area : next.machine.screen.area = r.machine.screen.area
  counted : r.machine.cpu.counted ≤ next.machine.cpu.counted

theorem Continues.refl (r : Run) : r.Continues r :=
  ⟨rfl, Nat.le_refl _⟩

theorem Continues.trans {r next last : Run} (h : r.Continues next) (h' : next.Continues last) :
    r.Continues last :=
  ⟨h'.area.trans h.area, Nat.le_trans h.counted h'.counted⟩

/-- A tick keeps the size of the screen and counts on. -/
theorem tick_continues (r : Run) : r.Continues r.tick.1 := by
  refine ⟨?_, ?_⟩
  · rw [toCore_tick]
    exact Core.area_tick _ _
  · rw [toCore_tick]
    exact Core.counted_le_tick _ _

/-- The run state that a step sets is not part of what is kept. -/
theorem step_continues (r : Run) : r.Continues r.step.1 := by
  have htick := r.tick_continues
  have hends := r.step_ends
  generalize r.step = o at hends
  cases hends with
  | stopped _ => exact .refl r
  | faulted _ _ => exact ⟨htick.area, htick.counted⟩
  | paused _ _ _ => exact ⟨htick.area, htick.counted⟩
  | completed _ _ _ => exact htick

/-- However many steps are taken, they keep what each of them keeps. -/
theorem multistep_continues (r : Run) (n : Nat) : r.Continues (r.multistep n).1 := by
  induction n generalizing r with
  | zero => exact .refl r
  | succ n ih =>
    by_cases hanswer : r.step.2 = .ok .running
    · rw [multistep_succ_of_running hanswer]
      exact r.step_continues.trans (ih r.step.1)
    · rw [multistep_succ_of_stopped hanswer]
      exact r.step_continues

/-- A step completes if its tick does, and a machine that is not running has nothing to trap. -/
theorem step_bare {r : Run} (harea : r.machine.screen.area < Checked.limit) :
    Checked.Completes r.bare.step (r.step.1.bare, r.step.2) r.step.1.machine.cpu.counted := by
  by_cases hrun : r.machine.state = .running
  · rw [Checked.Run.step, if_pos (show r.bare.machine.state = .running from hrun),
      step_of_running hrun]
    have htick := tick_bare harea
    cases hanswer : r.tick with
    | mk next result =>
      rw [hanswer] at htick
      cases result with
      | error e => exact htick.bind (Or.inl rfl)
      | ok _ => exact htick.bind (Or.inl rfl)
  · rw [step_of_stopped hrun]
    exact Or.inl (if_neg hrun)

/-- The counts that single steps form are not above that of the last one. -/
theorem multistep_bare {r : Run} (harea : r.machine.screen.area < Checked.limit) (n : Nat) :
    Checked.Completes (r.bare.multistep n) ((r.multistep n).1.bare, (r.multistep n).2)
      (r.multistep n).1.machine.cpu.counted := by
  induction n generalizing r with
  | zero => exact Or.inl rfl
  | succ n ih =>
    have hstep := step_bare harea
    rw [Checked.Run.multistep]
    by_cases hanswer : r.step.2 = .ok .running
    · have hrest := ih (r := r.step.1) (by rwa [r.step_continues.area])
      rw [multistep_succ_of_running hanswer]
      rw [hanswer] at hstep
      exact (hstep.mono (r.step.1.multistep_continues n).counted).bind hrest
    · rw [multistep_succ_of_stopped hanswer]
      refine hstep.bind (Or.inl ?_)
      split
      · next heq => exact absurd (congrArg Prod.snd heq) hanswer
      · rfl

end Run

end Chip8
