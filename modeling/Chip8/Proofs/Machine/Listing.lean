import Chip8.Proofs.Core.Listing
import Chip8.Proofs.Instruction.Reading
import Chip8.Proofs.Machine.Steps

namespace Chip8

/-- The same machine with listing switched on or off. -/
def Machine.withDebug (m : Machine) (on : Bool) : Machine :=
  { m with toCore := m.toCore.withDebug on }

/-- A step does the same with listing on and off, and leaves it as it was. -/
theorem Machine.step_withDebug (m : Machine) (on : Bool) (roll : UInt8) :
    (m.withDebug on).step roll = ((m.step roll).1.withDebug on, (m.step roll).2) := by
  have hcore : (m.withDebug on).toCore = m.toCore.withDebug on := rfl
  have hstate : (m.withDebug on).state = m.state := rfl
  rw [step, step, hcore, hstate, Core.tick_withDebug]
  split
  · generalize m.toCore.tick roll = o
    obtain ⟨core, answer⟩ := o
    cases answer <;> rfl
  · rfl

namespace Run

/-- The same run with listing switched on or off. -/
def withDebug (r : Run) (on : Bool) : Run :=
  r.mapMachine fun m => m.withDebug on

/-- What a run has printed. -/
def printed (r : Run) : String :=
  String.join (r.trace.toList.map TraceLine.render)

/-- The line that the next step prints. -/
def line? (r : Run) : Option TraceLine :=
  if r.machine.state = .running then r.machine.toCore.trace? else none

/-- The step that comes after `j` others is made by a running machine and fetches and decodes an
instruction, and `line` tells about it. What becomes of the instruction does not matter. -/
structure Lists (r : Run) (j : Nat) (line : TraceLine) : Prop where
  running : (r.steps j).1.machine.state = .running
  fetched : (r.steps j).1.machine.cpu.fetch (r.steps j).1.machine.mem = .ok line.word
  decoded : Instruction.ofWord? line.word = some line.insn
  address : line.pc = (r.steps j).1.machine.cpu.pc
  cycle : line.cycle = r.machine.cpu.cycle + (j + 1)

/-- Runs that differ in nothing but whether they list and in what they have listed. -/
structure SameButListing (r s : Run) : Prop where
  machine : r.machine.withDebug false = s.machine.withDebug false
  noise : r.noise = s.noise

variable {r s : Run} {line : TraceLine} {n j : Nat}

section Lines

/-- The line of the next instruction is put behind those that are there. -/
theorem trace_listNext (r : Run) :
    r.listNext.trace.toList = r.trace.toList ++ r.machine.toCore.trace?.toList := by
  unfold listNext
  split
  · next h => rw [h, Option.toList_none, List.append_nil]
  · next line h => rw [h, Option.toList_some, Array.toList_push]

/-- A step prints one line or none, behind those that are there. -/
theorem trace_step (r : Run) : r.step.1.trace.toList = r.trace.toList ++ r.line?.toList := by
  have hends := r.step_ends
  by_cases hrun : r.machine.state = .running
  · rw [line?, if_pos hrun, ← trace_listNext]
    generalize r.step = o at hends ⊢
    cases hends with
    | stopped hstopped => exact absurd hrun hstopped
    | _ => rfl
  · rw [step_of_stopped hrun, line?, if_neg hrun, Option.toList_none, List.append_nil]

/-- No instruction switches the listing. -/
theorem debug_step (r : Run) : r.step.1.machine.cpu.debug = r.machine.cpu.debug := by
  have hends := r.step_ends
  have htick : r.tick.1.machine.cpu.debug = r.machine.cpu.debug := by
    rw [toCore_tick]
    exact Core.debug_tick _ _
  generalize r.step = o at hends ⊢
  cases hends with
  | stopped => rfl
  | _ => exact htick

theorem steps_concat (r : Run) (n : Nat) : (r.steps (n + 1)).1 = (r.steps n).1.step.1 :=
  r.steps_add n 1

theorem debug_steps (r : Run) (n : Nat) :
    (r.steps n).1.machine.cpu.debug = r.machine.cpu.debug := by
  induction n with
  | zero => rfl
  | succ n ih => rw [steps_concat, debug_step, ih]

theorem line?_of_silent (hdebug : r.machine.cpu.debug = false) : r.line? = none := by
  rw [line?, Core.trace?_of_silent hdebug]
  exact ite_self _

/-- With listing off nothing is added to what was listed. -/
theorem trace_steps_of_silent (hdebug : r.machine.cpu.debug = false) (n : Nat) :
    (r.steps n).1.trace = r.trace := by
  apply Array.toList_inj.mp
  induction n with
  | zero => rfl
  | succ n ih =>
    rw [steps_concat, trace_step, ih, line?_of_silent ((r.debug_steps n).trans hdebug),
      Option.toList_none, List.append_nil]

/-- A machine that runs on after a step has run before it, and the step was a tick that ended well. -/
theorem tick_of_running_step (hnext : r.step.1.machine.state = .running) :
    r.machine.state = .running ∧ r.tick.2 = .ok () ∧ r.step.1 = r.tick.1 := by
  have hends := r.step_ends
  generalize r.step = o at hends hnext ⊢
  cases hends with
  | stopped hstopped => exact absurd hnext hstopped
  | faulted => cases hnext
  | paused => cases hnext
  | completed hrun htick => exact ⟨hrun, htick, rfl⟩

/-- A machine that still runs has done so all along. -/
theorem running_of_le (hrun : (r.steps n).1.machine.state = .running) (hj : j ≤ n) :
    (r.steps j).1.machine.state = .running := by
  induction n with
  | zero =>
    obtain rfl := Nat.le_zero.mp hj
    exact hrun
  | succ n ih =>
    obtain rfl | hlt := Nat.eq_or_lt_of_le hj
    · exact hrun
    · rw [steps_concat] at hrun
      exact ih (tick_of_running_step hrun).1 (Nat.le_of_lt_succ hlt)

/-- As long as the machine runs, every step counts a cycle. -/
theorem cycle_steps (hrun : (r.steps n).1.machine.state = .running) :
    (r.steps n).1.machine.cpu.cycle = r.machine.cpu.cycle + n := by
  induction n with
  | zero => rfl
  | succ n ih =>
    rw [steps_concat] at hrun ⊢
    obtain ⟨hbefore, hok, hstep⟩ := tick_of_running_step hrun
    rw [answer_tick] at hok
    rw [hstep, toCore_tick, Core.cycle_tick, hok, ih hbefore]
    rfl

/-- The line of a step tells what the step fetches and decodes, and how many cycles it makes. -/
theorem line?_steps_iff (hdebug : r.machine.cpu.debug = true) :
    (r.steps j).1.line? = some line ↔ r.Lists j line := by
  have hlisting := (r.debug_steps j).trans hdebug
  constructor
  · intro hline
    rw [line?] at hline
    split at hline
    · next hrun =>
      obtain ⟨hfetch, hdecode, haddress, hcycle⟩ := (Core.trace?_eq_some_iff hlisting).mp hline
      refine ⟨hrun, hfetch, hdecode, haddress, ?_⟩
      rw [hcycle, cycle_steps hrun, Nat.add_assoc]
    · cases hline
  · rintro ⟨hrun, hfetch, hdecode, haddress, hcycle⟩
    rw [line?, if_pos hrun]
    refine (Core.trace?_eq_some_iff hlisting).mpr ⟨hfetch, hdecode, haddress, ?_⟩
    rw [hcycle, cycle_steps hrun, Nat.add_assoc]

/-- If the machine still runs, each of the steps so far has a line. -/
theorem exists_lists (hdebug : r.machine.cpu.debug = true)
    (hrun : (r.steps n).1.machine.state = .running) (hj : j < n) : ∃ line, r.Lists j line := by
  have hnext := running_of_le hrun hj
  rw [steps_concat] at hnext
  obtain ⟨hbefore, hok, _⟩ := tick_of_running_step hnext
  rw [answer_tick] at hok
  obtain ⟨line, hline⟩ := Core.exists_trace?_of_tick_ok ((r.debug_steps j).trans hdebug) hok
  refine ⟨line, (line?_steps_iff hdebug).mp ?_⟩
  rw [line?, if_pos hbefore, hline]

/-- Lines that belong to the steps are as many as the steps if the machine still runs. -/
theorem length_lines (hdebug : r.machine.cpu.debug = true)
    (hrun : (r.steps n).1.machine.state = .running) {lines : List TraceLine}
    (hlines : ∀ j line, lines[j]? = some line ↔ j < n ∧ r.Lists j line) : lines.length = n := by
  apply Nat.le_antisymm
  · refine Nat.not_lt.mp fun hlong => ?_
    have hextra := List.getElem?_eq_getElem hlong
    exact Nat.lt_irrefl n ((hlines n _).mp hextra).1
  · refine Nat.not_lt.mp fun hshort => ?_
    obtain ⟨line, hlists⟩ := exists_lists hdebug hrun hshort
    have hpresent := (hlines lines.length line).mpr ⟨hshort, hlists⟩
    rw [List.getElem?_eq_none (Nat.le_refl _)] at hpresent
    cases hpresent

/-- One more step puts its line, if it has one, in the place that its number says. -/
theorem lines_concat (hdebug : r.machine.cpu.debug = true) {lines : List TraceLine}
    (hlines : ∀ j line, lines[j]? = some line ↔ j < n ∧ r.Lists j line) (j : Nat)
    (line : TraceLine) :
    (lines ++ (r.steps n).1.line?.toList)[j]? = some line ↔ j < n + 1 ∧ r.Lists j line := by
  have hlast (line : TraceLine) : (r.steps n).1.line? = some line ↔ r.Lists n line :=
    line?_steps_iff hdebug
  cases hline : (r.steps n).1.line? with
  | none =>
    have hnot : ¬ r.Lists n line := fun h => nomatch hline.symm.trans ((hlast line).mpr h)
    rw [Option.toList_none, List.append_nil, hlines, Nat.lt_succ_iff_lt_or_eq]
    constructor
    · rintro ⟨hj, hlists⟩
      exact ⟨Or.inl hj, hlists⟩
    · rintro ⟨hj | rfl, hlists⟩
      · exact ⟨hj, hlists⟩
      · exact absurd hlists hnot
  | some last =>
    -- The machine still runs, so that the lines before this one are as many as the steps.
    have hlists := (hlast last).mp hline
    have hlength := length_lines hdebug hlists.running hlines
    rw [Option.toList_some, List.getElem?_append, hlength, Nat.lt_succ_iff_lt_or_eq]
    by_cases hj : j < n
    · rw [if_pos hj, hlines]
      simp only [hj, true_or, true_and]
    · rw [if_neg hj]
      by_cases heq : j = n
      · subst heq
        rw [Nat.sub_self, ← hlast, hline]
        simp
      · rw [List.getElem?_eq_none (by rw [List.length_singleton]; omega)]
        simp [hj, heq]

/-- The lines stand in the order of the steps, and none is missing between two of them. -/
theorem exists_lines (hdebug : r.machine.cpu.debug = true) (n : Nat) :
    ∃ lines, (r.steps n).1.trace.toList = r.trace.toList ++ lines ∧
      ∀ j line, lines[j]? = some line ↔ j < n ∧ r.Lists j line := by
  induction n with
  | zero => exact ⟨[], (List.append_nil _).symm, by simp⟩
  | succ n ih =>
    obtain ⟨lines, htrace, hlines⟩ := ih
    refine ⟨lines ++ (r.steps n).1.line?.toList, ?_, lines_concat hdebug hlines⟩
    rw [steps_concat, trace_step, htrace, List.append_assoc]

end Lines

section Inert

/-- What a step does to the machine does not depend on what was listed. -/
theorem step_machine (r : Run) :
    r.step.1.machine = (r.machine.step r.noise.next).1 ∧
      r.step.2 = (r.machine.step r.noise.next).2 := by
  rw [step]
  split
  · dsimp only
    rw [machine_listNext, noise_listNext]
    exact ⟨rfl, rfl⟩
  · next hstopped =>
    rw [Machine.step, if_neg hstopped]
    exact ⟨rfl, rfl⟩

/-- A step takes a byte of chance only if it executes an instruction. -/
theorem noise_step (r : Run) :
    r.step.1.noise = if r.machine.state = .running then r.noise.rest else r.noise := by
  rw [step]
  split
  · dsimp only
    rw [noise_listNext]
  · rfl

theorem SameButListing.state (h : r.SameButListing s) : r.machine.state = s.machine.state := by
  have hstate := congrArg Machine.state h.machine
  exact hstate

/-- Whether a step is listed makes no difference to what it does and answers. -/
theorem SameButListing.step (h : r.SameButListing s) :
    r.step.2 = s.step.2 ∧ r.step.1.SameButListing s.step.1 := by
  have hstate := h.state
  obtain ⟨hmachine, hnoise⟩ := h
  obtain ⟨hr, hranswer⟩ := r.step_machine
  obtain ⟨hs, hsanswer⟩ := s.step_machine
  have hrsilent := r.machine.step_withDebug false r.noise.next
  have hssilent := s.machine.step_withDebug false s.noise.next
  -- With listing off both are the same machine, so that both make the same step.
  rw [hmachine, hnoise, hssilent] at hrsilent
  rw [← hnoise] at hrsilent hs hsanswer
  refine ⟨?_, ?_, ?_⟩
  · rw [hranswer, hsanswer]
    exact (congrArg Prod.snd hrsilent).symm
  · rw [hr, hs]
    exact (congrArg Prod.fst hrsilent).symm
  · rw [noise_step, noise_step, hstate, hnoise]

theorem SameButListing.steps (h : r.SameButListing s) (n : Nat) :
    (r.steps n).2 = (s.steps n).2 ∧ (r.steps n).1.SameButListing (s.steps n).1 := by
  induction n generalizing r s with
  | zero => exact ⟨rfl, h⟩
  | succ n ih =>
    obtain ⟨hanswer, hnext⟩ := h.step
    obtain ⟨hanswers, hlast⟩ := ih hnext
    rw [steps_succ, steps_succ, hanswer, hanswers]
    exact ⟨rfl, hlast⟩

/-- Several steps at once answer the same. -/
theorem SameButListing.answer_multistep (h : r.SameButListing s) (n : Nat) :
    (r.multistep n).2 = (s.multistep n).2 := by
  induction n generalizing r s with
  | zero =>
    rw [multistep, multistep, h.state]
  | succ n ih =>
    obtain ⟨hanswer, hnext⟩ := h.step
    by_cases hrunning : r.step.2 = .ok .running
    · rw [multistep_succ_of_running hrunning, multistep_succ_of_running (hanswer ▸ hrunning)]
      exact ih hnext
    · rw [multistep_succ_of_stopped hrunning, multistep_succ_of_stopped (hanswer ▸ hrunning)]
      exact hanswer

end Inert

/-- A listing is complete and does no harm. With listing on, the machine prints a line for each
instruction that it fetches and decodes, in their order and also if the instruction faults then, and
for nothing else: the `j`-th line counts `j` cycles more than there were at first, and names the
address from which the instruction came, the instruction and its word. All of this can be read off the
text of the line, and the instruction off its own text. With listing off the machine prints nothing,
and neither the answers nor what becomes of it are any different. -/
theorem listing_is_faithful_and_inert (r : Run) (n : Nat) :
    (∃ lines, ((r.withDebug true).steps n).1.trace.toList = r.trace.toList ++ lines ∧
        ((r.withDebug true).steps n).1.printed =
          r.printed ++ String.join (lines.map TraceLine.render) ∧
        ∀ j line, lines[j]? = some line ↔ j < n ∧ (r.withDebug true).Lists j line) ∧
      (∀ line : TraceLine, Text.IsLine line.render ∧
        Entry.ofLine? line.render =
          some ⟨line.cycle, line.pc.toNat, line.insn.listing, line.word.toNat⟩ ∧
        Instruction.ofText? line.insn.listing = some (line.insn.map Fin.val)) ∧
      ((r.withDebug false).steps n).1.trace = r.trace ∧
      ((r.withDebug true).steps n).2 = ((r.withDebug false).steps n).2 ∧
      ((r.withDebug true).steps n).1.SameButListing ((r.withDebug false).steps n).1 ∧
      (∀ on, ((r.withDebug on).steps n).1.machine.cpu.debug = on) ∧
      (∀ on, ((r.withDebug on).multistep n).1 = ((r.withDebug on).steps n).1) ∧
      ((r.withDebug true).multistep n).2 = ((r.withDebug false).multistep n).2 := by
  have hsame : (r.withDebug true).SameButListing (r.withDebug false) := ⟨rfl, rfl⟩
  obtain ⟨hanswers, hlast⟩ := hsame.steps n
  obtain ⟨lines, htrace, hlines⟩ := exists_lines (r := r.withDebug true) rfl n
  refine ⟨⟨lines, htrace, ?_, hlines⟩, ?_, trace_steps_of_silent rfl n, hanswers, hlast, ?_, ?_,
    hsame.answer_multistep n⟩
  · rw [printed, htrace, List.map_append, String.join_append]
    rfl
  · intro line
    exact ⟨line.isLine_render, line.ofLine?_render, Instruction.ofText?_text _⟩
  · exact fun on => debug_steps _ n
  · exact fun on => (multistep_sumsUp _ n).run

-- A return without an open call faults, and has its line all the same. After it nothing is printed.
example :
    ((start ⟨.loaded (.initial true) [0x00, 0xEE], .zero, .released, .running⟩
      (.ofSeed 0)).multistep 2).1.trace.toList = [⟨1, 0x200, .ret, 0x00EE⟩] := by decide +kernel

end Run

end Chip8
