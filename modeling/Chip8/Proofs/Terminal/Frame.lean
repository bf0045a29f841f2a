import Chip8.Proofs.Machine.Plain
import Chip8.Terminal.Program
import Mathlib.Algebra.GroupWithZero.Nat

namespace Chip8

namespace Timers

/-- `t'` is `t` after both timers were counted down `n` times, each no further than to zero. -/
structure CountedDown (t : Timers) (n : Nat) (t' : Timers) : Prop where
  delay : t'.delay.toNat = t.delay.toNat - n
  sound : t'.sound.toNat = t.sound.toNat - n

variable {t t' : Timers} {n : Nat}

theorem CountedDown.refl (t : Timers) : t.CountedDown 0 t :=
  ⟨rfl, rfl⟩

/-- Counting down once more makes one more, also at zero. -/
theorem CountedDown.tick (h : t.CountedDown n t') : t.CountedDown (n + 1) t'.tick := by
  constructor
  · rw [Timers.tick, toNat_countDown, h.delay, Nat.sub_sub]
  · rw [Timers.tick, toNat_countDown, h.sound, Nat.sub_sub]

end Timers

namespace Run

/-- The breakpoint at which the plain run of `r` stands after `count` ticks that follow `start` others,
if there is one and the last of these ticks has led there. A tick that faults leads nowhere. -/
def landing? (r : Run) (start count : Nat) : Option Word :=
  let pc := (r.plain (start + count)).cpu.pc
  if 0 < count ∧ r.plainAnswer (start + count - 1) = .ok () ∧ pc ∈ r.machine.cpu.breakpoints then
    some pc
  else none

/-- The breakpoints at which the plain run stands at the ends of stretches of ticks. -/
def landings (r : Run) (start : Nat) : List Nat → List Word
  | [] => []
  | count :: rest => (r.landing? start count).toList ++ r.landings (start + count) rest

/-- The last stretch begins where all the others end. -/
theorem landings_concat (r : Run) (start : Nat) (counts : List Nat) (count : Nat) :
    r.landings start (counts ++ [count]) =
      r.landings start counts ++ (r.landing? (start + counts.sum) count).toList := by
  induction counts generalizing start with
  | nil => simp [landings]
  | cons first rest ih =>
    rw [List.cons_append, landings, ih, landings, List.sum_cons, List.append_assoc, Nat.add_assoc]

/-- A landing can be told from wherever the run stands when the stretch begins. -/
theorem StandsAt.landing?_eq {r s : Run} {a : Nat} (h : r.StandsAt a s) (count : Nat) :
    s.landing? 0 count = r.landing? a count := by
  by_cases hpos : 0 < count
  · have hlast : a + count - 1 = a + (0 + count - 1) := by omega
    rw [landing?, landing?, h.plain_eq, h.plainAnswer_eq, h.breakpoints, hlast, Nat.zero_add]
  · rw [landing?, landing?, if_neg (fun h => hpos h.1), if_neg (fun h => hpos h.1)]

end Run

namespace Terminal.Session

/-- What the user was told on the error channel. -/
def interruptions (s : Session) : List Notice :=
  s.notices.toList.filter fun n => n.channel = .errors

/-- The session with the run that a frame made, after what it listed was told. -/
def listed (s : Session) (r : Run) : Session :=
  tellTrace { s with run := r }

variable {s : Session} {r : Run}

/-- Only what is told on the error channel adds to the interruptions. -/
theorem interruptions_tell (s : Session) (n : Notice) : (s.tell n).interruptions =
    if n.channel = .errors then s.interruptions ++ [n] else s.interruptions := by
  rw [interruptions, tell, Array.toList_push, List.filter_append, List.filter_cons, List.filter_nil]
  by_cases herrors : n.channel = .errors
  · simp only [herrors, decide_true, if_true, interruptions]
  · simp only [herrors, decide_false, Bool.false_eq_true, if_false, List.append_nil, interruptions]

/-- The listing of instructions goes to the other channel. -/
theorem interruptions_listed (s : Session) (r : Run) :
    (s.listed r).interruptions = s.interruptions := by
  have hnone : (r.trace.toList.map Notice.trace).filter (fun n => n.channel = .errors) = [] := by
    simp [Notice.channel]
  rw [interruptions, listed, tellTrace, Array.toList_append, Array.toList_map, List.filter_append,
    hnone, List.append_nil, interruptions]

theorem interruptions_tellRegisters (s : Session) :
    s.tellRegisters.interruptions = s.interruptions := by
  rw [tellRegisters]
  split
  · exact interruptions_tell _ _
  · rfl

/-- The session with a run that has arrived at a breakpoint, after the user was told and the machine
was let go on. -/
def resumed (s : Session) (r : Run) : Session :=
  ((s.listed r).tell (.breakpoint r.machine.cpu.pc)).tellRegisters.mapMachine
    fun m => m.resume.tickTimers

/-- The machine that was let go on is as it was at the breakpoint, but for its run state and
its timers. -/
theorem run_resumed (s : Session) (r : Run) :
    (s.resumed r).run = { r with machine := r.machine.resume.tickTimers, trace := #[] } := by
  rw [resumed, mapMachine, tellRegisters]
  split <;> rfl

theorem ipf_resumed (s : Session) (r : Run) : (s.resumed r).ipf = s.ipf := by
  rw [resumed, mapMachine, tellRegisters]
  split <;> rfl

/-- The user is told the address of the breakpoint, once. -/
theorem interruptions_resumed (s : Session) (r : Run) :
    (s.resumed r).interruptions = s.interruptions ++ [.breakpoint r.machine.cpu.pc] := by
  calc (s.resumed r).interruptions
      = ((s.listed r).tell (.breakpoint r.machine.cpu.pc)).interruptions :=
        interruptions_tellRegisters _
    _ = (s.listed r).interruptions ++ [.breakpoint r.machine.cpu.pc] := interruptions_tell _ _
    _ = s.interruptions ++ [.breakpoint r.machine.cpu.pc] := by rw [interruptions_listed]

section Frame

theorem frame_of_error {e : Error} (h : s.run.multistep s.ipf = (r, .error e)) :
    s.frame = (s.listed r, .faulted e) := by
  rw [frame, execute, h]
  rfl

theorem frame_of_running (h : s.run.multistep s.ipf = (r, .ok .running)) :
    s.frame = ((s.listed r).mapMachine .tickTimers, .completed) := by
  rw [frame, execute, h]
  rfl

/-- A breakpoint ends the frame as well, but the machine goes on in the next one. -/
theorem frame_of_paused (h : s.run.multistep s.ipf = (r, .ok .paused)) :
    s.frame = (s.resumed r, .completed) := by
  rw [frame, execute, h]
  rfl

/-- A frame of `s` executes `count` instructions, completes, and leaves `next`. -/
structure CompletesFrame (s : Session) (count : Nat) (next : Session) : Prop where
  frame : s.frame = (next, .completed)
  count_le : count ≤ s.ipf
  count_pos : 0 < s.ipf → 0 < count
  /-- Only a breakpoint cuts it short. -/
  full : s.run.landing? 0 count = none → count = s.ipf
  quiet : ∀ i < count, s.run.plainAnswer i = .ok ()
  stands : s.run.StandsAt count next.run
  state : next.run.machine.state = .running
  timers : next.run.machine.timers = s.run.machine.timers.tick
  told : next.interruptions =
    s.interruptions ++ (s.run.landing? 0 count).toList.map .breakpoint
  ipf : next.ipf = s.ipf

/-- The first frame of `s` ends with the fault of the instruction that comes after `j` others. -/
structure FaultsInFrame (s : Session) (j : Nat) (e : Error) (next : Session) : Prop where
  frame : s.frame = (next, .faulted e)
  lt_ipf : j < s.ipf
  quiet : ∀ i < j, s.run.plainAnswer i = .ok ()
  fault : s.run.plainAnswer j = .error e
  stands : s.run.StandsAt (j + 1) next.run
  state : next.run.machine.state = .quit
  timers : next.run.machine.timers = s.run.machine.timers
  told : next.interruptions = s.interruptions

/-- A frame of a running machine completes or ends with a fault. It is never halted. -/
theorem frame_ends (hrun : s.run.machine.state = .running) :
    (∃ count next, s.CompletesFrame count next) ∨ ∃ j e next, s.FaultsInFrame j e next := by
  have hadvances := Run.multistep_advances hrun s.ipf
  generalize hsteps : s.run.multistep s.ipf = o at hadvances
  cases hadvances with
  | @faulted j e hj hquiet hanswer =>
    refine Or.inr ⟨j, e, _, ⟨frame_of_error hsteps, hj, hquiet, hanswer, ?_, rfl, ?_, ?_⟩⟩
    · exact (s.run.stands_ticks (j + 1)).congr rfl rfl
    · exact s.run.timers_ticks (j + 1)
    · exact interruptions_listed _ _
  | @paused j hj hquiet hbreak =>
    have hlanding : s.run.landing? 0 (j + 1) = some (s.run.plain (j + 1)).cpu.pc := by
      rw [Run.landing?, Nat.zero_add]
      exact if_pos ⟨Nat.succ_pos j, hquiet j (Nat.lt_succ_self j), hbreak⟩
    have hrun := s.run_resumed ((s.run.ticks (j + 1)).withState .paused)
    refine Or.inl ⟨j + 1, _, frame_of_paused hsteps, hj, fun _ => Nat.succ_pos j, ?_, hquiet, ?_, ?_,
      ?_, ?_, ipf_resumed _ _⟩
    · rw [hlanding]
      exact nofun
    · exact (s.run.stands_ticks (j + 1)).congr (by rw [hrun]; rfl) (by rw [hrun]; rfl)
    · rw [hrun]
      rfl
    · rw [hrun]
      exact congrArg Timers.tick (s.run.timers_ticks (j + 1))
    · rw [hlanding, interruptions_resumed, Run.toCore_withState, Run.pc_ticks]
      rfl
  | completed hquiet hclear =>
    have hlanding : s.run.landing? 0 s.ipf = none := by
      rw [Run.landing?, Nat.zero_add]
      exact if_neg fun h => hclear h.1 h.2.2
    refine Or.inl ⟨s.ipf, _, frame_of_running hsteps, Nat.le_refl _, id, fun _ => rfl, hquiet, ?_, rfl,
      ?_, ?_, rfl⟩
    · exact (s.run.stands_ticks s.ipf).congr rfl rfl
    · exact congrArg Timers.tick (s.run.timers_ticks s.ipf)
    · rw [hlanding]
      exact (interruptions_listed _ _).trans (List.append_nil _).symm

end Frame

section Frames

/-- Frames of the given numbers of instructions have led from `s` to `t`. -/
inductive Completes (s : Session) : List Nat → Session → Prop where
  | start : Completes s [] s
  | frame {counts : List Nat} {t next : Session} {count : Nat} (h : Completes s counts t)
      (hframe : t.CompletesFrame count next) : Completes s (counts ++ [count]) next

/-- What frames of the given numbers of instructions make of a session, told by its plain run. -/
structure Progress (s : Session) (counts : List Nat) (t : Session) : Prop where
  /-- However many frames are to follow, they are run from here. -/
  onward : ∀ n, s.runFrames (counts.length + n) = t.runFrames n
  bounds : ∀ count ∈ counts, count ≤ s.ipf ∧ (0 < s.ipf → 0 < count)
  quiet : ∀ i < counts.sum, s.run.plainAnswer i = .ok ()
  stands : s.run.StandsAt counts.sum t.run
  state : t.run.machine.state = .running
  timers : s.run.machine.timers.CountedDown counts.length t.run.machine.timers
  told : t.interruptions = s.interruptions ++ (s.run.landings 0 counts).map .breakpoint
  ipf : t.ipf = s.ipf

variable {t next : Session} {counts : List Nat} {count n j : Nat} {e : Error}

theorem Progress.refl (hrun : s.run.machine.state = .running) : s.Progress [] s where
  onward n := by rw [List.length_nil, Nat.zero_add]
  bounds _ h := absurd h List.not_mem_nil
  quiet _ h := absurd h (Nat.not_lt_zero _)
  stands := .refl s.run
  state := hrun
  timers := .refl _
  told := (List.append_nil _).symm
  ipf := rfl

theorem runFrames_of_completed (h : s.frame = (next, .completed)) (n : Nat) :
    s.runFrames (n + 1) = next.runFrames n := by
  rw [runFrames, h]

theorem runFrames_of_faulted (h : s.frame = (next, .faulted e)) (n : Nat) :
    s.runFrames (n + 1) = (next, .error e) := by
  rw [runFrames, h]

/-- One more frame adds its instructions, its count of the timers and its landing. -/
theorem Progress.frame (h : s.Progress counts t) (hframe : t.CompletesFrame count next) :
    s.Progress (counts ++ [count]) next := by
  have hlength : (counts ++ [count]).length = counts.length + 1 := List.length_append
  have hsum : (counts ++ [count]).sum = counts.sum + count := by simp
  constructor
  case onward =>
    intro n
    rw [hlength, Nat.add_assoc, Nat.add_comm 1 n, h.onward, runFrames_of_completed hframe.frame]
  case bounds =>
    refine List.forall_mem_append.mpr ⟨h.bounds, List.forall_mem_singleton.mpr ?_⟩
    rw [← h.ipf]
    exact ⟨hframe.count_le, hframe.count_pos⟩
  case quiet =>
    rw [hsum]
    exact h.stands.quiet_add h.quiet hframe.quiet
  case stands =>
    rw [hsum]
    exact h.stands.trans hframe.stands
  case state => exact hframe.state
  case timers =>
    rw [hlength, hframe.timers]
    exact h.timers.tick
  case told =>
    rw [hframe.told, h.told, Run.landings_concat, Nat.zero_add, h.stands.landing?_eq,
      List.map_append, List.append_assoc]
  case ipf => exact hframe.ipf.trans h.ipf

/-- The frame that faults ends with the first fault of the plain run. -/
theorem Progress.first_fault (h : s.Progress counts t) (hframe : t.FaultsInFrame j e next) :
    (∀ i < counts.sum + j, s.run.plainAnswer i = .ok ()) ∧
      s.run.plainAnswer (counts.sum + j) = .error e ∧
      s.run.StandsAt (counts.sum + j + 1) next.run := by
  refine ⟨h.stands.quiet_add h.quiet hframe.quiet, ?_, h.stands.trans hframe.stands⟩
  rw [← h.stands.plainAnswer_eq]
  exact hframe.fault

/-- However many frames have completed, the plain run tells what they have come to. -/
theorem Completes.progress (hrun : s.run.machine.state = .running) (h : s.Completes counts t) :
    s.Progress counts t := by
  induction h with
  | start => exact .refl hrun
  | frame _ hframe ih => exact ih.frame hframe

/-- After each of the first frames the session had got as far as their instructions lead. -/
theorem Completes.exists_take (h : s.Completes counts t) (j : Nat) :
    ∃ top, s.Completes (counts.take j) top := by
  induction h with
  | start =>
    rw [List.take_nil]
    exact ⟨s, .start⟩
  | @frame counts t next count h hframe ih =>
    by_cases hj : j ≤ counts.length
    · rw [List.take_append_of_le_length hj]
      exact ih
    · rw [List.take_of_length_le (by rw [List.length_append, List.length_singleton]; omega)]
      exact ⟨next, h.frame hframe⟩

/-- The ways in which at most `n` frames come to an end. -/
inductive RunEnds (s : Session) (n : Nat) : Session × Except Error Unit → Prop where
  | completed {counts : List Nat} {t : Session} (h : s.Completes counts t)
      (hall : counts.length = n) : RunEnds s n (t, .ok ())
  | faulted {counts : List Nat} {t next : Session} {j : Nat} {e : Error} (h : s.Completes counts t)
      (hlt : counts.length < n) (hframe : t.FaultsInFrame j e next) : RunEnds s n (next, .error e)

/-- There is no third way. A session of a running machine is not stopped by its breakpoints. -/
theorem runFrames_ends (hrun : s.run.machine.state = .running) (n : Nat) :
    s.RunEnds n (s.runFrames n) := by
  induction n with
  | zero => exact .completed .start rfl
  | succ n ih =>
    generalize s.runFrames n = o at ih
    cases ih with
    | @completed counts t h hall =>
      have hprogress := h.progress hrun
      rw [← hall, hprogress.onward 1]
      obtain ⟨count, next, hframe⟩ | ⟨j, e, next, hframe⟩ := frame_ends hprogress.state
      · rw [runFrames_of_completed hframe.frame]
        exact .completed (h.frame hframe) (by simp)
      · rw [runFrames_of_faulted hframe.frame]
        exact .faulted h (Nat.lt_succ_self _) hframe
    | @faulted counts t next j e h hlt hframe =>
      obtain ⟨rest, rfl⟩ := Nat.exists_eq_add_of_le (Nat.le_of_lt hlt)
      rw [Nat.add_assoc, (h.progress hrun).onward, runFrames_of_faulted hframe.frame]
      exact .faulted h (Nat.lt_succ_of_lt hlt) hframe

end Frames

end Terminal.Session

end Chip8
