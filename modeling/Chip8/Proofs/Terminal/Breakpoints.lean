import Chip8.Proofs.Terminal.Frame
import Chip8.Proofs.Terminal.Setup
import Mathlib.Algebra.Order.BigOperators.Group.List
import Mathlib.Algebra.Order.Group.Nat

namespace Chip8.Terminal.Session

/-- What at most `n` frames come to, of which those that began executed the given numbers of
instructions. Everything is told by the plain run of the machine, which has no breakpoints. -/
structure Divides (s : Session) (n : Nat) (counts : List Nat) (o : Session × Except Error Unit) :
    Prop where
  length_le : counts.length ≤ n
  bounds : ∀ count ∈ counts, count ≤ s.ipf ∧ (0 < s.ipf → 0 < count)
  /-- Each frame begins where the frames before it lead, with the machine running. -/
  tops : ∀ j < counts.length, ∃ top, s.Progress (counts.take j) top ∧ top.frame.2 ≠ .halted
  core : o.1.run.machine.toCore.withoutBreakpoints = s.run.plain counts.sum
  /-- None but the last instruction faults. -/
  quiet : ∀ i, i + 1 < counts.sum → s.run.plainAnswer i = .ok ()
  told : o.1.interruptions = s.interruptions ++ (s.run.landings 0 counts).map .breakpoint
  ok : o.2 = .ok () → counts.length = n ∧ (∀ i < counts.sum, s.run.plainAnswer i = .ok ()) ∧
    o.1.run.machine.state = .running ∧
    s.run.machine.timers.CountedDown n o.1.run.machine.timers
  error : ∀ e, o.2 = .error e →
    (∃ j, counts.sum = j + 1 ∧ s.run.plainAnswer j = .error e) ∧
    o.1.run.machine.state = .quit ∧
    s.run.machine.timers.CountedDown (counts.length - 1) o.1.run.machine.timers

variable {s t next : Session} {counts : List Nat} {n j : Nat} {e : Error}
  {o : Session × Except Error Unit}

/-- Where the next frame begins after the first `j`. It cannot be halted, since the machine runs. -/
theorem Completes.exists_top (hrun : s.run.machine.state = .running) (h : s.Completes counts t)
    (j : Nat) : ∃ top, s.Progress (counts.take j) top ∧ top.frame.2 ≠ .halted := by
  obtain ⟨top, htop⟩ := h.exists_take j
  have hprogress := htop.progress hrun
  refine ⟨top, hprogress, ?_⟩
  obtain ⟨count, next, hframe⟩ | ⟨j, e, next, hframe⟩ := frame_ends hprogress.state
  · rw [hframe.frame]
    exact nofun
  · rw [hframe.frame]
    exact nofun

/-- Frames that all complete divide the plain run without a rest. -/
theorem Completes.divides (hrun : s.run.machine.state = .running) (h : s.Completes counts t) :
    s.Divides counts.length counts (t, .ok ()) := by
  have hprogress := h.progress hrun
  exact {
    length_le := Nat.le_refl _
    bounds := hprogress.bounds
    tops := fun j _ => h.exists_top hrun j
    core := hprogress.stands.core
    quiet := fun i hi => hprogress.quiet i (Nat.lt_of_succ_lt hi)
    told := hprogress.told
    ok := fun _ => ⟨rfl, hprogress.quiet, hprogress.state, hprogress.timers⟩
    error := nofun }

/-- The frame that faults counts as well, up to and including the instruction that does. -/
theorem Completes.divides_of_fault (hrun : s.run.machine.state = .running) (h : s.Completes counts t)
    (hlt : counts.length < n) (hframe : t.FaultsInFrame j e next) :
    s.Divides n (counts ++ [j + 1]) (next, .error e) := by
  have hprogress := h.progress hrun
  have hlength : (counts ++ [j + 1]).length = counts.length + 1 := List.length_append
  have hsum : (counts ++ [j + 1]).sum = counts.sum + j + 1 := by simp [Nat.add_assoc]
  obtain ⟨hquiet, hfault, hstands⟩ := hprogress.first_fault hframe
  constructor
  case length_le => exact hlength ▸ hlt
  case bounds =>
    refine List.forall_mem_append.mpr ⟨hprogress.bounds, List.forall_mem_singleton.mpr ?_⟩
    rw [← hprogress.ipf]
    exact ⟨hframe.lt_ipf, fun _ => Nat.succ_pos j⟩
  case tops =>
    intro i hi
    rw [hlength, Nat.lt_succ_iff] at hi
    rw [List.take_append_of_le_length hi]
    exact h.exists_top hrun i
  case core =>
    rw [hsum]
    exact hstands.core
  case quiet =>
    intro i hi
    rw [hsum] at hi
    exact hquiet i (Nat.succ_lt_succ_iff.mp hi)
  case told =>
    have hnone : s.run.landing? counts.sum (j + 1) = none := by
      refine if_neg fun hlanding => ?_
      exact nomatch hfault.symm.trans hlanding.2.1
    rw [hframe.told, hprogress.told, Run.landings_concat, Nat.zero_add, hnone, Option.toList_none,
      List.append_nil]
  case ok => exact nofun
  case error =>
    intro e' he
    cases he
    refine ⟨⟨counts.sum + j, hsum, hfault⟩, hframe.state, ?_⟩
    rw [hlength, Nat.add_sub_cancel, hframe.timers]
    exact hprogress.timers

/-- Whatever breakpoints there are, they do not change what the frames of a running machine execute, but
only where they end. -/
theorem exists_divides (hrun : s.run.machine.state = .running) (n : Nat) :
    ∃ counts, s.Divides n counts (s.runFrames n) := by
  have hends := runFrames_ends hrun n
  generalize s.runFrames n = o at hends
  cases hends with
  | @completed counts t h hall =>
    subst hall
    exact ⟨counts, h.divides hrun⟩
  | @faulted counts t next j e h hlt hframe =>
    exact ⟨counts ++ [j + 1], h.divides_of_fault hrun hlt hframe⟩

/-- No frame executes more instructions than it may. -/
theorem Divides.sum_le (h : s.Divides n counts o) : counts.sum ≤ n * s.ipf := by
  calc counts.sum ≤ counts.length * s.ipf :=
        List.sum_le_card_nsmul counts s.ipf fun count hcount => (h.bounds count hcount).1
    _ ≤ n * s.ipf := Nat.mul_le_mul_right _ h.length_le

/-- What stands on the error channel after the frames of a new session: one line for each frame that has
led to a breakpoint. -/
theorem Divides.errors (h : s.Divides n counts o) (hnew : s.notices = #[]) :
    Transcript.textOn .errors o.1.notices.toList =
      String.join ((s.run.landings 0 counts).map fun pc =>
        "Breakpoint hit: " ++ Text.hex 3 pc.toNat ++ "\n") := by
  have htold := h.told
  have hnone : s.interruptions = [] := by rw [interruptions, hnew, List.filter_nil]
  rw [hnone, List.nil_append] at htold
  rw [Transcript.textOn]
  change String.join (o.1.interruptions.map Notice.text) = _
  rw [htold, List.map_map]
  rfl

/-- Breakpoints do not change what a new session executes, but only divide it into frames in another
way. Each frame begins with a running machine. In the end the machine runs, or it has quit with the
first fault, and its core is what the plain run comes to after as many instructions as the frames have
executed. On the error channel there is one line for each frame whose last instruction has led to a
breakpoint, and the timers were counted down once for each frame that did not fault. -/
theorem breakpoints_divide_plain_run {o : Options} {rom : List UInt8} {noise : Noise}
    {told : List Notice} {s : Session} (hset : setUp o rom noise = (told, .ok s)) :
    s.frames = o.frames ∧ s.ipf = o.ipf ∧
      (∀ a, a ∈ s.run.machine.cpu.breakpoints ↔ a ∈ o.breakpoints) ∧
      ∃ counts, s.Divides o.frames counts (s.runFrames s.frames) ∧
        counts.sum ≤ o.frames * o.ipf ∧
        Transcript.textOn .errors (s.runFrames s.frames).1.notices.toList =
          String.join ((s.run.landings 0 counts).map fun pc =>
            "Breakpoint hit: " ++ Text.hex 3 pc.toNat ++ "\n") := by
  obtain ⟨hframes, hipf, hnew, hrun, hbreakpoints⟩ := fresh_of_setUp hset
  obtain ⟨counts, hdivides⟩ := exists_divides hrun s.frames
  refine ⟨hframes, hipf, hbreakpoints, counts, hframes ▸ hdivides, ?_, hdivides.errors hnew⟩
  rw [← hframes, ← hipf]
  exact hdivides.sum_le

/-- Three frames of two instructions, with a breakpoint that is asked for twice. -/
def stopping : Options :=
  { Options.default with frames := 3, ipf := 2, breakpoints := [0x202, 0x202, 0x300] }

/-- A program that sets a register and then jumps to where it is. -/
def setThenStay : List UInt8 := [0x60, 0x05, 0x12, 0x02]

/-- The session of this program, with its memory written out. -/
def stoppingSession : Session :=
  let cpu := { Cpu.initial false with breakpoints := [0x202, 0x300] }
  let mem := (Memory.zeroed.blit Region.charset.start Font.bytes).blit Region.program.start setThenStay
  .start stopping ⟨⟨cpu, mem, Screen.standard.clear⟩, .zero, .released, .running⟩ (.ofSeed 0)

/-- Every frame comes to the breakpoint with its first instruction, and says so. -/
theorem breakpoints_divide_plain_run_stopping :
    setUp stopping setThenStay (.ofSeed 0) = ([], .ok stoppingSession) ∧
      (stoppingSession.runFrames 3).2 = .ok () ∧
      ∃ counts, stoppingSession.Divides 3 counts (stoppingSession.runFrames 3) ∧
        counts.sum ≤ 6 ∧
        String.join ((stoppingSession.run.landings 0 counts).map fun pc =>
            "Breakpoint hit: " ++ Text.hex 3 pc.toNat ++ "\n") =
          "Breakpoint hit: 202\nBreakpoint hit: 202\nBreakpoint hit: 202\n" := by
  have hset : setUp stopping setThenStay (.ofSeed 0) = ([], .ok stoppingSession) := by
    rw [setUp, Machine.loadProgram, Machine.load, Memory.load_eq_blit _ (by decide) (by decide)]
    rfl
  obtain ⟨hanswer, htext⟩ : (stoppingSession.runFrames 3).2 = .ok () ∧
      Transcript.textOn .errors (stoppingSession.runFrames 3).1.notices.toList =
        "Breakpoint hit: 202\nBreakpoint hit: 202\nBreakpoint hit: 202\n" := by
    decide +kernel
  have hframes : stoppingSession.frames = 3 := rfl
  obtain ⟨_, _, _, counts, hdivides, hsum, herrors⟩ := breakpoints_divide_plain_run hset
  rw [hframes] at hdivides herrors
  exact ⟨hset, hanswer, counts, hdivides, hsum, herrors.symm.trans htext⟩

end Chip8.Terminal.Session
