import Chip8.Proofs.Terminal.Frame

namespace Chip8

namespace Run

/-- The `q`-th of a sequence of ticks, counted from one, is the first that faults. -/
structure FaultsFirstAt (r : Run) (q : Nat) (e : Error) : Prop where
  pos : 1 ≤ q
  before : ∀ j, 1 ≤ j → j < q → (r.nthTick j).2 = .ok ()
  fault : (r.nthTick q).2 = .error e

/-- What is left of a run of `n` instructions that only a fault can end early, and whether it was. -/
inductive EndsPlain (r : Run) (n : Nat) (next : Run) : Except Error Unit → Prop where
  | completed (hquiet : ∀ i < n, r.plainAnswer i = .ok ()) (hstands : r.StandsAt n next) :
      EndsPlain r n next (.ok ())
  | faulted {j : Nat} {e : Error} (hj : j < n) (hquiet : ∀ i < j, r.plainAnswer i = .ok ())
      (hfault : r.plainAnswer j = .error e) (hstands : r.StandsAt (j + 1) next) :
      EndsPlain r n next (.error e)

variable {r next other : Run} {n : Nat} {answer answer' : Except Error Unit}

theorem faultsFirstAt_succ {j : Nat} {e : Error} (hquiet : ∀ i < j, r.plainAnswer i = .ok ())
    (hfault : r.plainAnswer j = .error e) : r.FaultsFirstAt (j + 1) e := by
  refine ⟨Nat.succ_pos j, ?_, (r.answer_nthTick j).trans hfault⟩
  intro i hpos hlt
  obtain ⟨k, rfl⟩ : ∃ k, i = k + 1 := Nat.exists_eq_add_one.mpr hpos
  exact (r.answer_nthTick k).trans (hquiet k (Nat.succ_lt_succ_iff.mp hlt))

/-- A tick before the first fault does not fault. -/
theorem plain_fault_unique {i j : Nat} {e : Error} (hquiet : ∀ k < j, r.plainAnswer k = .ok ())
    (hfault : r.plainAnswer i = .error e) : j ≤ i :=
  Nat.not_lt.mp fun hlt => nomatch (hquiet i hlt).symm.trans hfault

/-- The number of instructions decides on what is left, however they are portioned out. -/
theorem EndsPlain.unique (h : r.EndsPlain n next answer) (h' : r.EndsPlain n other answer') :
    next.machine.toCore = other.machine.toCore ∧ answer = answer' := by
  cases h with
  | completed hquiet hstands =>
    cases h' with
    | completed _ hstands' => exact ⟨hstands.toCore_eq hstands', rfl⟩
    | faulted hj _ hfault _ => exact absurd hj (Nat.not_lt.mpr (plain_fault_unique hquiet hfault))
  | @faulted j e hj hquiet hfault hstands =>
    cases h' with
    | completed hquiet' _ => exact absurd hj (Nat.not_lt.mpr (plain_fault_unique hquiet' hfault))
    | @faulted j' e' _ hquiet' hfault' hstands' =>
      obtain rfl : j = j' :=
        Nat.le_antisymm (plain_fault_unique hquiet hfault') (plain_fault_unique hquiet' hfault)
      obtain rfl : e = e' := Except.error.inj (hfault.symm.trans hfault')
      exact ⟨hstands.toCore_eq hstands', rfl⟩

theorem multistep_endsPlain (hrun : r.machine.state = .running)
    (hnone : r.machine.cpu.breakpoints = []) (n : Nat) :
    r.EndsPlain n (r.multistep n).1 ((r.multistep n).2.map fun _ => ()) := by
  have hadvances := multistep_advances hrun n
  generalize r.multistep n = o at hadvances
  cases hadvances with
  | @faulted j e hj hquiet hanswer =>
    exact .faulted hj hquiet hanswer ((r.stands_ticks (j + 1)).congr rfl rfl)
  | paused _ _ hbreak =>
    rw [hnone] at hbreak
    exact absurd hbreak List.not_mem_nil
  | completed hquiet _ => exact .completed hquiet ((r.stands_ticks n).congr rfl rfl)

theorem landing?_of_no_breakpoints (hnone : r.machine.cpu.breakpoints = []) (start count : Nat) :
    r.landing? start count = none := by
  rw [landing?, hnone]
  exact if_neg fun h => absurd h.2.2 List.not_mem_nil

end Run

namespace Terminal.Session

variable {s t : Session} {counts : List Nat} {n : Nat}

/-- Without breakpoints every frame that completes has its full number of instructions. -/
theorem Completes.sum_eq (hrun : s.run.machine.state = .running)
    (hnone : s.run.machine.cpu.breakpoints = []) (h : s.Completes counts t) :
    counts.sum = counts.length * s.ipf := by
  induction h with
  | start => exact (Nat.zero_mul _).symm
  | @frame counts t next count h hframe ih =>
    have hprogress := h.progress hrun
    have hcount : count = s.ipf := by
      rw [← hprogress.ipf]
      apply hframe.full
      exact Run.landing?_of_no_breakpoints (hprogress.stands.breakpoints.trans hnone) _ _
    rw [List.sum_append, ih, hcount, List.length_append, List.length_singleton, Nat.succ_mul,
      List.sum_singleton]

/-- What frames without breakpoints come to, and how often they count down the timers: once for each
frame, but not for the one that faults. -/
theorem runFrames_endsPlain (hrun : s.run.machine.state = .running)
    (hnone : s.run.machine.cpu.breakpoints = []) (n : Nat) :
    s.run.EndsPlain (n * s.ipf) (s.runFrames n).1.run (s.runFrames n).2 ∧
      ((s.runFrames n).2 = .ok () →
        s.run.machine.timers.CountedDown n (s.runFrames n).1.run.machine.timers) ∧
      ∀ e, (s.runFrames n).2 = .error e → ∃ q ≤ n * s.ipf, s.run.FaultsFirstAt q e ∧
        s.run.machine.timers.CountedDown ((q - 1) / s.ipf)
          (s.runFrames n).1.run.machine.timers := by
  have hends := runFrames_ends hrun n
  generalize s.runFrames n = o at hends
  cases hends with
  | @completed counts t h hall =>
    have hprogress := h.progress hrun
    have hsum := h.sum_eq hrun hnone
    have hquiet := hprogress.quiet
    have hstands := hprogress.stands
    have htimers := hprogress.timers
    rw [hsum, hall] at hquiet hstands
    rw [hall] at htimers
    exact ⟨.completed hquiet hstands, fun _ => htimers, nofun⟩
  | @faulted counts t next j e h hlt hframe =>
    have hprogress := h.progress hrun
    have hsum := h.sum_eq hrun hnone
    have hj : j < s.ipf := hprogress.ipf ▸ hframe.lt_ipf
    obtain ⟨hquiet, hfault, hstands⟩ := hprogress.first_fault hframe
    have hbound : counts.sum + j < n * s.ipf := by
      calc counts.sum + j < counts.length * s.ipf + s.ipf := hsum ▸ Nat.add_lt_add_left hj _
        _ = (counts.length + 1) * s.ipf := (Nat.succ_mul _ _).symm
        _ ≤ n * s.ipf := Nat.mul_le_mul_right _ hlt
    have hframes : (counts.sum + j + 1 - 1) / s.ipf = counts.length := by
      rw [Nat.add_sub_cancel, hsum, Nat.mul_comm, Nat.mul_add_div (Nat.zero_lt_of_lt hj),
        Nat.div_eq_of_lt hj, Nat.add_zero]
    refine ⟨.faulted hbound hquiet hfault hstands, nofun, ?_⟩
    intro e' he
    cases he
    refine ⟨counts.sum + j + 1, hbound, Run.faultsFirstAt_succ hquiet hfault, ?_⟩
    rw [hframes, hframe.timers]
    exact hprogress.timers

/-- Without breakpoints the division into frames does not matter to the program: as many instructions at
once leave the same core and end the same way. The timers are counted down once for each frame, or as
many times as whole frames fit before the first instruction that faults. -/
theorem frames_equal_one_multistep (s : Session) (hrun : s.run.machine.state = .running)
    (hnone : s.run.machine.cpu.breakpoints = []) :
    (s.runFrames s.frames).1.run.machine.toCore =
        (s.run.multistep (s.frames * s.ipf)).1.machine.toCore ∧
      (s.runFrames s.frames).2 = (s.run.multistep (s.frames * s.ipf)).2.map (fun _ => ()) ∧
      (∀ t : Session, t.run = s.run → t.frames * t.ipf = s.frames * s.ipf →
        (t.runFrames t.frames).1.run.machine.toCore =
            (s.runFrames s.frames).1.run.machine.toCore ∧
          (t.runFrames t.frames).2 = (s.runFrames s.frames).2) ∧
      ((s.runFrames s.frames).2 = .ok () →
        s.run.machine.timers.CountedDown s.frames
          (s.runFrames s.frames).1.run.machine.timers) ∧
      ∀ e, (s.runFrames s.frames).2 = .error e →
        ∃ q ≤ s.frames * s.ipf, s.run.FaultsFirstAt q e ∧
          s.run.machine.timers.CountedDown ((q - 1) / s.ipf)
            (s.runFrames s.frames).1.run.machine.timers := by
  obtain ⟨hframes, hok, herror⟩ := runFrames_endsPlain hrun hnone s.frames
  obtain ⟨hcore, hanswer⟩ := hframes.unique (Run.multistep_endsPlain hrun hnone _)
  refine ⟨hcore, hanswer, ?_, hok, herror⟩
  intro t hsame hproduct
  have hother := (runFrames_endsPlain (hsame ▸ hrun) (hsame ▸ hnone) t.frames).1
  rw [hsame, hproduct] at hother
  exact hother.unique hframes

/-- A session whose fourth instruction returns although no call is open. -/
def underflowing (frames ipf : Nat) : Session where
  run :=
    .start ⟨.loaded (.initial false) [0x71, 0x01, 0x71, 0x01, 0x71, 0x01, 0x00, 0xEE], ⟨3, 0⟩,
      .released, .running⟩ (.ofSeed 0)
  frames := frames
  ipf := ipf
  rate := 60
  realtime := false
  debug := false
  notices := #[]

/-- Frames of two instructions get to the fault in the second of them, frames of five in the first. -/
theorem frames_equal_one_multistep_underflowing :
    (underflowing 5 2).run.machine.state = .running ∧
      (underflowing 5 2).run.machine.cpu.breakpoints = [] ∧
      (underflowing 2 5).run = (underflowing 5 2).run ∧
      ((underflowing 5 2).runFrames 5).2 = .error (.stackUnderflow 0x206) ∧
      ((underflowing 2 5).runFrames 2).2 = .error (.stackUnderflow 0x206) ∧
      ((underflowing 5 2).runFrames 5).1.run.machine.timers.delay = 2 ∧
      ∃ q ≤ 10, (underflowing 5 2).run.FaultsFirstAt q (.stackUnderflow 0x206) ∧
        (underflowing 5 2).run.machine.timers.CountedDown ((q - 1) / 2)
          ((underflowing 5 2).runFrames 5).1.run.machine.timers := by
  obtain ⟨hanswer, hdelay⟩ : ((underflowing 5 2).runFrames 5).2 = .error (.stackUnderflow 0x206) ∧
      ((underflowing 5 2).runFrames 5).1.run.machine.timers.delay = 2 := by
    decide +kernel
  have hframes : (underflowing 5 2).frames = 5 := rfl
  have hframes' : (underflowing 2 5).frames = 2 := rfl
  have hipf : (underflowing 5 2).ipf = 2 := rfl
  obtain ⟨_, _, hproduct, _, herror⟩ := frames_equal_one_multistep (underflowing 5 2) rfl rfl
  have hother := (hproduct (underflowing 2 5) rfl rfl).2
  rw [hframes, hframes', hanswer] at hother
  rw [hframes, hipf] at herror
  exact ⟨rfl, rfl, rfl, hanswer, hother, hdelay, herror _ hanswer⟩

end Terminal.Session

end Chip8
