import Chip8.Proofs.Core.Fetch
import Chip8.Proofs.Machine.Steps
import Mathlib.Data.List.DropRight

namespace Chip8

/-- What a host can do with a machine. An edit puts anything in the place of the parts that the host
may write to, which are all but the run state. -/
inductive HostCall where
  | load (font program : List UInt8)
  | loadProgram (program : List UInt8)
  | step
  | multistep (n : Nat)
  | tickTimers
  | pause
  | resume
  | edit (core : Core) (timers : Timers) (keypad : Keypad)

/-- What a call answers: the outcome of a load, that of a step or several, or nothing. -/
inductive HostAnswer where
  | silent
  | loaded (result : Except Error Unit)
  | stepped (result : Except Error RunState)

namespace HostAnswer

def reportsLoad : HostAnswer → Bool
  | loaded (.ok _) => true
  | _ => false

def reportsFault : HostAnswer → Bool
  | stepped result => Run.isFault result
  | _ => false

/-- The answers since the latest load that succeeded, or all of them if none did. -/
def sinceLoad (answers : List HostAnswer) : List HostAnswer :=
  answers.rtakeWhile fun answer => !answer.reportsLoad

/-- A load that succeeds begins the answers anew, itself left out. -/
theorem sinceLoad_concat (answers : List HostAnswer) (answer : HostAnswer) :
    sinceLoad (answers ++ [answer]) =
      if answer.reportsLoad then [] else sinceLoad answers ++ [answer] := by
  rw [sinceLoad, List.rtakeWhile_concat]
  cases answer.reportsLoad <;> rfl

end HostAnswer

namespace Machine

variable {m : Machine}

/-- A machine that has just been constructed. -/
def IsNew (m : Machine) : Prop :=
  m = .standard ∨ ∃ width height harea, ofSize width height harea = .ok m

/-- New machines differ in nothing but their screens. -/
theorem IsNew.exists_withScreen (h : m.IsNew) : ∃ screen, m = withScreen screen := by
  obtain rfl | ⟨width, height, harea, hsize⟩ := h
  · exact ⟨.standard, rfl⟩
  · unfold ofSize Screen.ofSize at hsize
    split at hsize <;> cases hsize
    exact ⟨_, rfl⟩

theorem IsNew.state_eq (h : m.IsNew) : m.state = .running := by
  obtain ⟨screen, rfl⟩ := h.exists_withScreen
  rfl

/-- What a load makes of a machine. One that succeeds starts it afresh, and one that fails touches
nothing but memory. -/
inductive LoadEnds (m : Machine) : Outcome Machine Unit → Prop where
  | refused (mem : Memory) (e : Error) : LoadEnds m ({ m with mem := mem }, .error e)
  | loaded (mem : Memory) :
      LoadEnds m
        ({ m with
            cpu := m.cpu.reset
            mem := mem
            screen := m.screen.clear
            timers := .zero
            state := .running }, .ok ())

/-- A load ends in one of these two ways. -/
theorem load_ends (m : Machine) (font program : List UInt8) :
    m.LoadEnds (m.load font program) := by
  unfold load
  split
  · exact .refused _ _
  · exact .loaded _

/-- What a load that succeeds has put in place of the parts. Only memory depends on the
program. -/
theorem eq_of_load {font program : List UInt8} {loaded : Machine}
    (h : m.load font program = (loaded, .ok ())) :
    ∃ mem, loaded = { m with
      cpu := m.cpu.reset
      mem := mem
      screen := m.screen.clear
      timers := .zero
      state := .running } := by
  have hends := m.load_ends font program
  rw [h] at hends
  cases hends
  exact ⟨_, rfl⟩

theorem state_pause (hrun : m.state = .running) : m.pause.state = .paused := by
  rw [pause, if_pos hrun]

/-- A machine that has quit cannot be paused. -/
theorem pause_eq_quit_iff (m : Machine) : m.pause.state = .quit ↔ m.state = .quit := by
  unfold pause
  split <;> simp_all

/-- A machine that has quit cannot be resumed. -/
theorem resume_eq_quit_iff (m : Machine) : m.resume.state = .quit ↔ m.state = .quit := by
  unfold resume
  split <;> simp_all

/-- A pause of a running machine is undone by resuming it. -/
theorem resume_pause (hrun : m.state = .running) : m.pause.resume = m := by
  rw [resume, if_pos (state_pause hrun), pause, if_pos hrun, ← hrun]

end Machine

namespace Run

def perform (r : Run) : HostCall → Run × HostAnswer
  | .load font program =>
    let (machine, result) := r.machine.load font program
    (r.mapMachine fun _ => machine, .loaded result)
  | .loadProgram program =>
    let (machine, result) := r.machine.loadProgram program
    (r.mapMachine fun _ => machine, .loaded result)
  | .step => (r.step.1, .stepped r.step.2)
  | .multistep n => ((r.multistep n).1, .stepped (r.multistep n).2)
  | .tickTimers => (r.mapMachine .tickTimers, .silent)
  | .pause => (r.mapMachine .pause, .silent)
  | .resume => (r.mapMachine .resume, .silent)
  | .edit core timers keypad => (r.mapMachine fun m => ⟨core, timers, keypad, m.state⟩, .silent)

/-- Calls one after the other, with all their answers. -/
def performAll (r : Run) : List HostCall → Run × List HostAnswer
  | [] => (r, [])
  | call :: rest =>
    let (next, answer) := r.perform call
    let (last, answers) := next.performAll rest
    (last, answer :: answers)

theorem performAll_cons (r : Run) (call : HostCall) (rest : List HostCall) :
    r.performAll (call :: rest) =
      (((r.perform call).1.performAll rest).1,
        (r.perform call).2 :: ((r.perform call).1.performAll rest).2) := rfl

theorem performAll_concat (r : Run) (calls : List HostCall) (call : HostCall) :
    r.performAll (calls ++ [call]) =
      (((r.performAll calls).1.perform call).1,
        (r.performAll calls).2 ++ [((r.performAll calls).1.perform call).2]) := by
  induction calls generalizing r with
  | nil => rfl
  | cons first rest ih =>
    rw [List.cons_append, performAll_cons, ih, performAll_cons, List.cons_append]

/-- One if the machine has quit and zero otherwise. -/
def quits (r : Run) : Nat :=
  if r.machine.state = .quit then 1 else 0

variable {r : Run}

theorem quits_of_running (hrun : r.machine.state = .running) : r.quits = 0 := by
  rw [quits, hrun]
  rfl

theorem quits_congr {next : Run} (h : next.machine.state = .quit ↔ r.machine.state = .quit) :
    next.quits = r.quits := by
  simp only [quits, h]

/-- A step makes a machine quit exactly if it reports a fault, and one that has quit reports none. -/
theorem quits_step (r : Run) : r.step.1.quits = r.quits + (isFault r.step.2).toNat := by
  have hends := r.step_ends
  generalize r.step = o at hends ⊢
  cases hends with
  | stopped hstopped => rfl
  | faulted hrun htick =>
    rw [quits_of_running hrun]
    rfl
  | paused hrun htick hbreak =>
    rw [quits_of_running hrun]
    rfl
  | completed hrun htick hclear =>
    rw [quits_of_running (r.state_tick.trans hrun), quits_of_running hrun]
    rfl

/-- The same for several steps: the one that faults, if any, is the last of them. -/
theorem quits_multistep (r : Run) (n : Nat) :
    (r.multistep n).1.quits = r.quits + (isFault (r.multistep n).2).toNat := by
  induction n generalizing r with
  | zero => rfl
  | succ n ih =>
    have hstep := r.quits_step
    by_cases hanswer : r.step.2 = .ok .running
    · rw [multistep_succ_of_running hanswer, ih, hstep, hanswer]
      rfl
    · rw [multistep_succ_of_stopped hanswer, hstep]

/-- Only a load that succeeds brings a machine back. -/
theorem quits_load (r : Run) (font program : List UInt8) :
    (r.perform (.load font program)).1.quits =
      if (r.perform (.load font program)).2.reportsLoad then 0
      else r.quits + (r.perform (.load font program)).2.reportsFault.toNat := by
  have hends := r.machine.load_ends font program
  rw [perform]
  generalize r.machine.load font program = o at hends ⊢
  cases hends with
  | refused mem e => rfl
  | loaded mem => rfl

/-- What a call does to the run state. A load that succeeds revives the machine. Any other call makes
it quit exactly if it reports a fault, and never brings it back. -/
theorem quits_perform (r : Run) (call : HostCall) :
    (r.perform call).1.quits =
      if (r.perform call).2.reportsLoad then 0
      else r.quits + (r.perform call).2.reportsFault.toNat := by
  cases call with
  | load font program => exact r.quits_load font program
  | loadProgram program => exact r.quits_load Font.bytes program
  | step => exact r.quits_step
  | multistep n => exact r.quits_multistep n
  | tickTimers => rfl
  | pause => exact quits_congr r.machine.pause_eq_quit_iff
  | resume => exact quits_congr r.machine.resume_eq_quit_iff
  | edit core timers keypad => rfl

/-- A machine that ran at first has quit as many times as it reported a fault since the latest load. -/
theorem quits_performAll (hrun : r.machine.state = .running) (calls : List HostCall) :
    (r.performAll calls).1.quits =
      (HostAnswer.sinceLoad (r.performAll calls).2).countP HostAnswer.reportsFault := by
  induction calls using List.reverseRecOn with
  | nil => exact quits_of_running hrun
  | append_singleton calls call ih =>
    have hperform := (r.performAll calls).1.quits_perform call
    rw [performAll_concat, hperform, ih, HostAnswer.sinceLoad_concat]
    -- A load that succeeds begins the count anew.
    split
    · rfl
    · rw [List.countP_append, List.countP_singleton]
      cases ((r.performAll calls).1.perform call).2.reportsFault <;> rfl

/-- Driving a machine that does not run leaves it as it is. -/
theorem performAll_of_stopped (hstopped : r.machine.state ≠ .running) {drives : List HostCall}
    (hdrives : ∀ call ∈ drives, call = .step ∨ ∃ n, call = .multistep n) :
    (r.performAll drives).1 = r := by
  induction drives with
  | nil => rfl
  | cons call rest ih =>
    have hstill : (r.perform call).1 = r := by
      obtain rfl | ⟨n, rfl⟩ := hdrives call List.mem_cons_self
      · exact congrArg Prod.fst (step_of_stopped hstopped)
      · exact congrArg Prod.fst (multistep_of_stopped hstopped n)
    rw [performAll_cons, hstill]
    exact ih fun other hother => hdrives other (List.mem_cons_of_mem _ hother)

/-- However a host drives a new machine and whatever it writes into it, the machine has quit exactly
if it has reported a fault since the latest load, and it reports one at most. As long as it does not
run it stays as it is, and pausing it for a while changes nothing. -/
theorem run_state_over_calls :
    (∀ (m : Machine) (noise : Noise) (calls : List HostCall), m.IsNew →
      (HostAnswer.sinceLoad ((start m noise).performAll calls).2).countP
          HostAnswer.reportsFault ≤ 1 ∧
        (((start m noise).performAll calls).1.machine.state = .quit ↔
          ∃ answer ∈ HostAnswer.sinceLoad ((start m noise).performAll calls).2,
            answer.reportsFault = true)) ∧
    (∀ r : Run, r.machine.state = .paused ∨ r.machine.state = .quit →
      r.step = (r, .ok r.machine.state) ∧ ∀ n, r.multistep n = (r, .ok r.machine.state)) ∧
    ∀ (r : Run) (drives : List HostCall), r.machine.state = .running →
      (∀ call ∈ drives, call = .step ∨ ∃ n, call = .multistep n) →
      (r.performAll (.pause :: drives ++ [.resume])).1 = r := by
  refine ⟨?_, ?_, ?_⟩
  · intro m noise calls hnew
    have hrun : (start m noise).machine.state = .running := hnew.state_eq
    rw [← List.countP_pos_iff, ← quits_performAll hrun calls, quits]
    split <;> simp_all
  · intro r hstate
    have hstopped : r.machine.state ≠ .running := by
      obtain hpaused | hquit := hstate
      · simp [hpaused]
      · simp [hquit]
    exact ⟨step_of_stopped hstopped, multistep_of_stopped hstopped⟩
  · intro r drives hrun hdrives
    have hpaused := Machine.state_pause hrun
    have hstopped : (r.mapMachine .pause).machine.state ≠ .running := by
      simp [mapMachine, hpaused]
    have hstill := performAll_of_stopped hstopped hdrives
    rw [List.cons_append, performAll_cons, performAll_concat]
    change ((r.mapMachine .pause).performAll drives).1.mapMachine .resume = r
    rw [hstill]
    exact congrArg (fun m => r.mapMachine fun _ => m) (Machine.resume_pause hrun)

/-- A new machine without a program. Its first word is zero, which is no instruction. -/
def unloaded : Run :=
  start .standard (.ofSeed 0)

private theorem word_unloaded : unloaded.machine.toCore.word = Word.ofBytes 0 0 := by
  have hbyte (addr : Nat) (haddr : 0x200 ≤ addr) (hsize : addr < Memory.size) :
      Machine.fontMemory.bytes[addr]? = some 0 := by
    have hfont : Region.charset.start + Font.bytes.length = 80 := rfl
    rw [Machine.fontMemory, Memory.getElem?_blit, if_neg (by omega)]
    exact Vector.getElem?_replicate.trans (if_pos hsize)
  have hpc : unloaded.machine.cpu.pc.toNat = 0x200 := rfl
  have hmem : unloaded.machine.mem = Machine.fontMemory := rfl
  rw [Core.word_eq_ofBytes, hpc, hmem, hbyte _ (by decide) (by decide),
    hbyte _ (by decide) (by decide)]
  rfl

private theorem step_unloaded : unloaded.step.1.machine.state = .quit ∧
    isFault unloaded.step.2 = true := by
  have hnone : ∀ f ∈ Instruction.forms, ¬ unloaded.machine.toCore.word.Fits f := by
    rw [word_unloaded]
    decide
  have hpc : unloaded.machine.cpu.pc.toNat ≤ 4094 := by decide
  have hanswer : unloaded.tick.2 = .error (.unimplementedOpcode unloaded.machine.toCore.word) := by
    rw [answer_tick, Core.tick_of_not_fits _ hpc hnone]
  rw [step_of_tick_error rfl hanswer]
  exact ⟨rfl, rfl⟩

/-- The fault is reported once, and it outlasts a call of `resume`. -/
theorem run_state_over_calls_unloaded :
    Machine.standard.IsNew ∧ unloaded.machine.state = .running ∧
      unloaded.step.1.machine.state = .quit ∧
      (unloaded.performAll [.step, .resume, .step]).1.machine.state = .quit ∧
      unloaded.step.1.step = (unloaded.step.1, .ok .quit) ∧
      (unloaded.performAll [.pause, .step, .multistep 3, .resume]).1 = unloaded := by
  obtain ⟨hquit, hfault⟩ := step_unloaded
  obtain ⟨hcalls, hstopped, hpause⟩ := run_state_over_calls
  have hnew : Machine.standard.IsNew := Or.inl rfl
  have hanswer (r : Run) : .stepped r.step.2 ∈
      HostAnswer.sinceLoad (r.performAll [.step, .resume, .step]).2 := List.mem_cons_self
  refine ⟨hnew, rfl, hquit, ?_, ?_, ?_⟩
  · obtain ⟨_, hiff⟩ := hcalls .standard (.ofSeed 0) [.step, .resume, .step] hnew
    rw [unloaded] at hfault ⊢
    exact hiff.mpr ⟨_, hanswer _, hfault⟩
  · rw [(hstopped _ (Or.inr hquit)).1, hquit]
  · apply hpause unloaded [.step, .multistep 3] rfl
    simp

end Run

end Chip8
