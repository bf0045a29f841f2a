import Chip8.Proofs.Cpu.Breakpoints
import Chip8.Proofs.Machine.Operation
import Chip8.Proofs.Machine.Stop

namespace Chip8

namespace Operation

/-- An operation that sets or unsets a breakpoint at `p`. -/
def names (p : Word) : Operation → Bool
  | .cpu (.setBreak addr) => addr == p
  | .cpu (.unsetBreak addr) => addr == p
  | _ => false

/-- The last of some operations that name `p` sets it. -/
def LastSets (ops : List Operation) (p : Word) : Prop :=
  (ops.filter (names p)).getLast? = some (.cpu (.setBreak p))

variable {ops : List Operation} {op : Operation} {p : Word}

/-- An operation that names an address sets or unsets it. -/
theorem kinds (op : Operation) : (∃ addr, op = .cpu (.setBreak addr)) ∨
    (∃ addr, op = .cpu (.unsetBreak addr)) ∨ ∀ addr, op.names addr = false := by
  cases op with
  | cpu op =>
    cases op with
    | setBreak addr => exact Or.inl ⟨addr, rfl⟩
    | unsetBreak addr => exact Or.inr (Or.inl ⟨addr, rfl⟩)
    | _ => exact Or.inr (Or.inr fun _ => rfl)
  | _ => exact Or.inr (Or.inr fun _ => rfl)

/-- An operation that names the address decides, whatever came before. -/
theorem lastSets_concat_of_names (h : op.names p = true) :
    LastSets (ops ++ [op]) p ↔ op = .cpu (.setBreak p) := by
  rw [LastSets, List.filter_append, List.filter_cons_of_pos h, List.filter_nil,
    List.getLast?_append, List.getLast?_singleton, Option.some_or, Option.some.injEq]

theorem lastSets_concat_of_not_names (h : op.names p = false) :
    LastSets (ops ++ [op]) p ↔ LastSets ops p := by
  rw [LastSets, List.filter_append, List.filter_cons_of_neg (by simp [h]), List.filter_nil,
    List.append_nil, LastSets]

/-- Setting an address counts for this one, and the others stay as they were. -/
theorem lastSets_concat_set (addr : Word) :
    LastSets (ops ++ [.cpu (.setBreak addr)]) p ↔ p = addr ∨ LastSets ops p := by
  by_cases hp : addr = p
  · have hnames : names p (.cpu (.setBreak addr)) = true := beq_iff_eq.mpr hp
    rw [lastSets_concat_of_names hnames, hp]
    simp
  · have hnames : names p (.cpu (.setBreak addr)) = false := beq_false_of_ne hp
    rw [lastSets_concat_of_not_names hnames, or_iff_right (Ne.symm hp)]

/-- Unsetting an address counts for this one, and the others stay as they were. -/
theorem lastSets_concat_unset (addr : Word) :
    LastSets (ops ++ [.cpu (.unsetBreak addr)]) p ↔ LastSets ops p ∧ p ≠ addr := by
  by_cases hp : addr = p
  · have hnames : names p (.cpu (.unsetBreak addr)) = true := beq_iff_eq.mpr hp
    rw [lastSets_concat_of_names hnames, hp]
    simp
  · have hnames : names p (.cpu (.unsetBreak addr)) = false := beq_false_of_ne hp
    rw [lastSets_concat_of_not_names hnames, and_iff_left (Ne.symm hp)]

/-- An address that was unset and not set since is not the one that was last set. -/
theorem not_lastSets_of_unset {before between : List Operation}
    (hnever : .cpu (.setBreak p) ∉ between) :
    ¬ LastSets (before ++ .cpu (.unsetBreak p) :: between) p := by
  intro hlast
  rw [LastSets, List.filter_append, List.getLast?_append_of_ne_nil] at hlast
  -- The last that names `p` is the unsetting or comes after it.
  · have hmem := (List.mem_filter.mp (List.mem_of_getLast? hlast)).1
    obtain heq | hbetween := List.mem_cons.mp hmem
    · cases heq
    · exact hnever hbetween
  · simp [names]

end Operation

namespace Run

open Operation (names LastSets)

/-- What some operations leave. -/
def after (r : Run) (ops : List Operation) : Run :=
  (r.handleAll ops).1

def breakpointsAfter (r : Run) (ops : List Operation) : List Word :=
  (r.after ops).machine.cpu.breakpoints

/-- Operation number `i` is the one that has put `p` among the breakpoints: it asked for `p` when `p`
was not there, and `p` has been there ever since. -/
structure InsertedBy (r : Run) (ops : List Operation) (i : Nat) (p : Word) : Prop where
  asks : ops[i]? = some (.cpu (.setBreak p))
  absent : p ∉ r.breakpointsAfter (ops.take i)
  stays : ∀ j, i < j → j ≤ ops.length → p ∈ r.breakpointsAfter (ops.take j)

variable {r : Run} {ops : List Operation} {op : Operation} {p addr : Word} {i : Nat}

section Quiet

/-- A program cannot set or unset a breakpoint by running. -/
theorem breakpoints_step (r : Run) :
    r.step.1.machine.cpu.breakpoints = r.machine.cpu.breakpoints := by
  have hends := r.step_ends
  generalize r.step = o at hends ⊢
  cases hends with
  | stopped => rfl
  | faulted | paused | completed => exact r.breakpoints_tick

theorem breakpoints_multistep (r : Run) (n : Nat) :
    (r.multistep n).1.machine.cpu.breakpoints = r.machine.cpu.breakpoints := by
  induction n generalizing r with
  | zero => rfl
  | succ n ih =>
    by_cases hanswer : r.step.2 = .ok .running
    · rw [multistep_succ_of_running hanswer, ih, breakpoints_step]
    · rw [multistep_succ_of_stopped hanswer, breakpoints_step]

/-- Only the operations that set and unset breakpoints change them. A load and a reset do not. -/
theorem breakpoints_handle_of_quiet (hquiet : ∀ addr, op.names addr = false) :
    (r.handle op).1.machine.cpu.breakpoints = r.machine.cpu.breakpoints := by
  have hload {font program : List UInt8} :
      (r.machine.load font program).1.cpu.breakpoints = r.machine.cpu.breakpoints := by
    have hends := r.machine.load_ends font program
    generalize r.machine.load font program = o at hends
    cases hends <;> rfl
  cases op with
  | load | loadProgram => exact hload
  | tick => exact r.breakpoints_tick
  | step => exact r.breakpoints_step
  | multistep n => exact r.breakpoints_multistep n
  | pause =>
    change r.machine.pause.cpu.breakpoints = _
    unfold Machine.pause
    split <;> rfl
  | resume =>
    change r.machine.resume.cpu.breakpoints = _
    unfold Machine.resume
    split <;> rfl
  | cpu op =>
    cases op with
    | setV reg value =>
      change (Cpu.setV _ _ _).1.breakpoints = _
      unfold Cpu.setV
      split <;> rfl
    | setBreak addr => exact absurd (hquiet addr) (by simp [names])
    | unsetBreak addr => exact absurd (hquiet addr) (by simp [names])
    | setPc | setI | reset | toggleDebug | stack => rfl
  | memory | screen | timers | keypad => rfl

end Quiet

theorem breakpointsAfter_concat_set (r : Run) (ops : List Operation) (addr : Word) :
    r.breakpointsAfter (ops ++ [.cpu (.setBreak addr)]) =
      ((r.after ops).machine.cpu.setBreak addr).breakpoints := by
  rw [breakpointsAfter, after, handleAll_concat]
  rfl

theorem breakpointsAfter_concat_unset (r : Run) (ops : List Operation) (addr : Word) :
    r.breakpointsAfter (ops ++ [.cpu (.unsetBreak addr)]) =
      ((r.after ops).machine.cpu.unsetBreak addr).breakpoints := by
  rw [breakpointsAfter, after, handleAll_concat]
  rfl

/-- An operation that names no address leaves the breakpoints as they are. -/
theorem breakpointsAfter_concat_of_quiet (r : Run) (ops : List Operation)
    (hquiet : ∀ addr, op.names addr = false) :
    r.breakpointsAfter (ops ++ [op]) = r.breakpointsAfter ops := by
  rw [breakpointsAfter, after, handleAll_concat, breakpoints_handle_of_quiet hquiet]
  rfl

/-- An entry has been put there only once since it was last missing. -/
theorem InsertedBy.unique {i' : Nat} (h : r.InsertedBy ops i p) (h' : r.InsertedBy ops i' p) :
    i = i' := by
  have hnot {j k : Nat} (hj : r.InsertedBy ops j p) (hk : r.InsertedBy ops k p) : ¬ j < k := by
    intro hlt
    have hle : k < ops.length := (List.getElem?_eq_some_iff.mp hk.asks).1
    exact hk.absent (hj.stays k hlt (Nat.le_of_lt hle))
  exact Nat.le_antisymm (Nat.not_lt.mp (hnot h' h)) (Nat.not_lt.mp (hnot h h'))

/-- What has been put there stays put as long as it is there. -/
theorem InsertedBy.concat (h : r.InsertedBy ops i p) (hstays : p ∈ r.breakpointsAfter (ops ++ [op])) :
    r.InsertedBy (ops ++ [op]) i p := by
  have hi : i < ops.length := (List.getElem?_eq_some_iff.mp h.asks).1
  have htake {j : Nat} (hj : j ≤ ops.length) : (ops ++ [op]).take j = ops.take j :=
    List.take_append_of_le_length hj
  constructor
  case asks => rw [List.getElem?_append_left hi, h.asks]
  case absent =>
    rw [htake (Nat.le_of_lt hi)]
    exact h.absent
  case stays =>
    intro j hlt hle
    rw [List.length_append, List.length_singleton] at hle
    obtain hj | rfl := Nat.le_or_eq_of_le_succ hle
    · rw [htake hj]
      exact h.stays j hlt hj
    · rw [List.take_of_length_le (by simp)]
      exact hstays

/-- A breakpoint that was not there is put there by the operation that sets it. -/
theorem insertedBy_concat (habsent : p ∉ r.breakpointsAfter ops) :
    r.InsertedBy (ops ++ [.cpu (.setBreak p)]) ops.length p := by
  constructor
  case asks => exact List.getElem?_concat_length
  case absent =>
    rw [List.take_append_of_le_length (Nat.le_refl _), List.take_length]
    exact habsent
  case stays =>
    intro j hlt hle
    rw [List.length_append, List.length_singleton] at hle
    obtain rfl := Nat.le_antisymm hle hlt
    rw [List.take_of_length_le (by simp), breakpointsAfter_concat_set]
    exact (Cpu.mem_breakpoints_setBreak _ _ _).mpr (Or.inl rfl)

/-- Of two breakpoints the operation that has put `p` there came first. -/
def InsertedBefore (r : Run) (ops : List Operation) (p q : Word) : Prop :=
  ∃ i j, i < j ∧ r.InsertedBy ops i p ∧ r.InsertedBy ops j q

/-- The breakpoints after some operations are those that were last set, each once, in the order in
which they were put there. -/
structure Tracks (r : Run) (ops : List Operation) : Prop where
  nodup : (r.breakpointsAfter ops).Nodup
  mem_iff : ∀ p, p ∈ r.breakpointsAfter ops ↔ LastSets ops p
  inserted : ∀ p ∈ r.breakpointsAfter ops, ∃ i, r.InsertedBy ops i p
  order : (r.breakpointsAfter ops).Pairwise (r.InsertedBefore ops)

section Tracks

/-- Breakpoints that stay keep the order that they had. -/
theorem Tracks.order_concat {kept : List Word} (h : r.Tracks ops)
    (hkept : kept.Sublist (r.breakpointsAfter ops))
    (hstay : ∀ p ∈ kept, p ∈ r.breakpointsAfter (ops ++ [op])) :
    kept.Pairwise (r.InsertedBefore (ops ++ [op])) := by
  apply (h.order.sublist hkept).imp_of_mem
  rintro p q hp hq ⟨i, j, hlt, hi, hj⟩
  exact ⟨i, j, hlt, hi.concat (hstay p hp), hj.concat (hstay q hq)⟩

/-- A breakpoint that stays was put there by the same operation as before. -/
theorem Tracks.inserted_concat (h : r.Tracks ops) (hold : p ∈ r.breakpointsAfter ops)
    (hstays : p ∈ r.breakpointsAfter (ops ++ [op])) : ∃ i, r.InsertedBy (ops ++ [op]) i p := by
  obtain ⟨i, hi⟩ := h.inserted p hold
  exact ⟨i, hi.concat hstays⟩

/-- An operation that names no address keeps track without doing anything. -/
theorem Tracks.quiet (h : r.Tracks ops) (hquiet : ∀ addr, op.names addr = false) :
    r.Tracks (ops ++ [op]) := by
  have hsame := r.breakpointsAfter_concat_of_quiet ops hquiet
  constructor
  case nodup =>
    rw [hsame]
    exact h.nodup
  case mem_iff =>
    intro p
    rw [hsame, h.mem_iff, Operation.lastSets_concat_of_not_names (hquiet p)]
  case inserted =>
    intro p hp
    exact h.inserted_concat (hsame ▸ hp) hp
  case order =>
    rw [hsame]
    exact h.order_concat (List.Sublist.refl _) fun p hp => hsame ▸ hp

/-- Unsetting removes every trace of an address and keeps the order of the others. -/
theorem Tracks.unset (h : r.Tracks ops) (addr : Word) :
    r.Tracks (ops ++ [.cpu (.unsetBreak addr)]) := by
  have hafter : r.breakpointsAfter (ops ++ [.cpu (.unsetBreak addr)]) =
      (r.breakpointsAfter ops).filter (· != addr) := r.breakpointsAfter_concat_unset ops addr
  have hmem (p : Word) : p ∈ r.breakpointsAfter (ops ++ [.cpu (.unsetBreak addr)]) ↔
      p ∈ r.breakpointsAfter ops ∧ p ≠ addr := by
    rw [breakpointsAfter_concat_unset]
    exact Cpu.mem_breakpoints_unsetBreak _ _ _
  constructor
  case nodup =>
    rw [hafter]
    exact h.nodup.filter _
  case mem_iff =>
    intro p
    rw [hmem, h.mem_iff, Operation.lastSets_concat_unset]
  case inserted =>
    intro p hp
    exact h.inserted_concat ((hmem p).mp hp).1 hp
  case order =>
    rw [hafter]
    exact h.order_concat List.filter_sublist fun p hp => hafter ▸ hp

/-- Setting adds an address at the end, unless it is there already. -/
theorem Tracks.set (h : r.Tracks ops) (addr : Word) :
    r.Tracks (ops ++ [.cpu (.setBreak addr)]) := by
  have hafter := r.breakpointsAfter_concat_set ops addr
  have hmem (p : Word) : p ∈ r.breakpointsAfter (ops ++ [.cpu (.setBreak addr)]) ↔
      p = addr ∨ p ∈ r.breakpointsAfter ops := by
    rw [hafter]
    exact Cpu.mem_breakpoints_setBreak _ _ _
  have hstay (p : Word) (hp : p ∈ r.breakpointsAfter ops) :
      p ∈ r.breakpointsAfter (ops ++ [.cpu (.setBreak addr)]) := (hmem p).mpr (Or.inr hp)
  constructor
  case nodup =>
    rw [hafter]
    exact Cpu.nodup_setBreak h.nodup addr
  case mem_iff =>
    intro p
    rw [hmem, h.mem_iff, Operation.lastSets_concat_set]
  case inserted =>
    intro p hp
    by_cases hold : p ∈ r.breakpointsAfter ops
    · exact h.inserted_concat hold hp
    · obtain rfl | hold' := (hmem p).mp hp
      · exact ⟨ops.length, insertedBy_concat hold⟩
      · exact absurd hold' hold
  case order =>
    have hkept := h.order_concat (List.Sublist.refl _) hstay
    rw [hafter]
    by_cases hset : addr ∈ r.breakpointsAfter ops
    · rw [Cpu.breakpoints_setBreak_of_mem hset]
      exact hkept
    -- All that are there were put there before this operation, and the new one stands behind them.
    · rw [Cpu.breakpoints_setBreak_of_not_mem hset, List.pairwise_append]
      refine ⟨hkept, List.pairwise_singleton _ _, ?_⟩
      intro p hp q hq
      rw [List.mem_singleton] at hq
      obtain rfl := hq
      obtain ⟨i, hi⟩ := h.inserted p hp
      exact ⟨i, ops.length, (List.getElem?_eq_some_iff.mp hi.asks).1, hi.concat (hstay p hp),
        insertedBy_concat hset⟩

/-- One operation after the other is kept track of. -/
theorem tracks (hnone : r.machine.cpu.breakpoints = []) (ops : List Operation) : r.Tracks ops := by
  induction ops using List.reverseRecOn with
  | nil =>
    have hafter : r.breakpointsAfter [] = [] := hnone
    constructor <;> simp [hafter, LastSets]
  | append_singleton ops op ih =>
    obtain ⟨addr, rfl⟩ | ⟨addr, rfl⟩ | hquiet := op.kinds
    · exact ih.set addr
    · exact ih.unset addr
    · exact ih.quiet hquiet

end Tracks

section Pausing

variable {n : Nat} {state : RunState}

/-- The breakpoints are looked at after the step, with those that were set before it. -/
theorem step_paused_iff (hrun : r.machine.state = .running) (hok : r.step.2 = .ok state) :
    r.step.1.machine.state = .paused ↔ r.step.1.machine.cpu.pc ∈ r.machine.cpu.breakpoints := by
  have hends := r.step_ends
  have hbreakpoints := r.breakpoints_tick
  generalize r.step = o at hends hok ⊢
  cases hends with
  | stopped hstopped => exact absurd hrun hstopped
  | faulted => cases hok
  | paused _ _ hbreak =>
    rw [state_withState, toCore_withState, ← hbreakpoints]
    exact iff_of_true rfl (decide_eq_true_iff.mp hbreak)
  | completed _ _ hclear =>
    rw [state_tick, hrun, ← hbreakpoints]
    exact iff_of_false (by decide) (of_decide_eq_false hclear)

/-- A step that faults does not leave the machine paused. -/
theorem pc_mem_of_step_paused (hrun : r.machine.state = .running)
    (hpaused : r.step.1.machine.state = .paused) :
    r.step.1.machine.cpu.pc ∈ r.machine.cpu.breakpoints := by
  cases hanswer : r.step.2 with
  | ok state => exact (step_paused_iff hrun hanswer).mp hpaused
  | error e =>
    have hends := r.step_ends
    generalize r.step = o at hends hpaused hanswer
    cases hends with
    | stopped | paused | completed => cases hanswer
    | faulted => cases hpaused

/-- Nor do several steps pause anywhere but at a breakpoint. -/
theorem pc_mem_of_multistep_paused (hrun : r.machine.state = .running)
    (hpaused : (r.multistep n).1.machine.state = .paused) :
    (r.multistep n).1.machine.cpu.pc ∈ r.machine.cpu.breakpoints := by
  cases n with
  | zero => cases hrun.symm.trans hpaused
  | succ n =>
    obtain ⟨k, hk⟩ := r.exists_stopsAt (Nat.succ_pos n)
    have hexecutes := executes_of_stopsAt hrun hk
    generalize r.multistep (n + 1) = o at hexecutes hpaused ⊢
    cases hexecutes with
    | faulted | completed => cases hpaused
    | paused _ hbreak _ => exact hbreak

end Pausing

/-- Whatever a host does with a machine without breakpoints, afterwards its breakpoints are the
addresses that were last set and not unset, each once, in the order in which they were put there. A
step that does not fault pauses at these and nowhere else, so that unsetting an address once is enough
however often it was set. Nothing but setting and unsetting breakpoints changes them. -/
theorem breakpoints_follow_calls (r : Run) (hnone : r.machine.cpu.breakpoints = [])
    (ops : List Operation) :
    (r.breakpointsAfter ops).Nodup ∧
      (∀ p, p ∈ r.breakpointsAfter ops ↔ LastSets ops p) ∧
      (∀ p ∈ r.breakpointsAfter ops, ∃! i, r.InsertedBy ops i p) ∧
      (r.breakpointsAfter ops).Pairwise (r.InsertedBefore ops) ∧
      (∀ op : Operation, (∀ p, op.names p = false) →
        r.breakpointsAfter (ops ++ [op]) = r.breakpointsAfter ops) ∧
      ((r.after ops).machine.state = .running →
        (∀ state, (r.after ops).step.2 = .ok state →
          ((r.after ops).step.1.machine.state = .paused ↔
            LastSets ops (r.after ops).step.1.machine.cpu.pc)) ∧
        ∀ before between p, ops = before ++ .cpu (.unsetBreak p) :: between →
          .cpu (.setBreak p) ∉ between →
          ∀ o, (o = (r.after ops).step ∨ ∃ n, o = (r.after ops).multistep n) →
            o.1.machine.state = .paused → o.1.machine.cpu.pc ≠ p) := by
  have htracks := r.tracks hnone ops
  refine ⟨htracks.nodup, htracks.mem_iff, ?_, htracks.order,
    fun _ => r.breakpointsAfter_concat_of_quiet ops, fun hrun => ⟨?_, ?_⟩⟩
  · intro p hp
    obtain ⟨i, hi⟩ := htracks.inserted p hp
    exact ⟨i, hi, fun j hj => hj.unique hi⟩
  · intro state hok
    rw [step_paused_iff hrun hok]
    exact htracks.mem_iff _
  · rintro before between p hops hnever o hdrive hpaused rfl
    have hstop : o.1.machine.cpu.pc ∈ r.breakpointsAfter ops := by
      obtain rfl | ⟨n, rfl⟩ := hdrive
      · exact pc_mem_of_step_paused hrun hpaused
      · exact pc_mem_of_multistep_paused hrun hpaused
    have hlast := (htracks.mem_iff _).mp hstop
    rw [hops] at hlast
    exact Operation.not_lastSets_of_unset hnever hlast

def watched : Run :=
  start .standard (.ofSeed 0)

/-- Two assignments at the start of the program, of which the address of the second is set twice. -/
def watchCalls : List Operation :=
  [.memory (.write 0x200 0x60), .memory (.write 0x202 0x60), .cpu (.setBreak 0x204),
    .cpu (.setBreak 0x202), .cpu (.setBreak 0x200), .cpu (.setBreak 0x202)]

/-- The address is unset once, and the processor is reset. -/
def watchOnward : List Operation :=
  watchCalls ++ .cpu (.unsetBreak 0x202) :: [.cpu .reset]

/-- The machine passes the address that was unset and stops at the next. -/
theorem breakpoints_follow_calls_unset_once :
    watched.machine.cpu.breakpoints = [] ∧ watched.breakpointsAfter watchOnward = [0x204, 0x200] ∧
      LastSets watchOnward 0x204 ∧ ¬ LastSets watchOnward 0x202 ∧
      watched.InsertedBefore watchOnward 0x204 0x200 ∧
      watched.breakpointsAfter (watchOnward ++ [.loadProgram []]) = [0x204, 0x200] ∧
      (watched.after watchOnward).step.1.machine.cpu.pc = 0x202 ∧
      (watched.after watchOnward).step.1.machine.state ≠ .paused ∧
      ((watched.after watchOnward).multistep 5).1.machine.state = .paused ∧
      ((watched.after watchOnward).multistep 5).1.machine.cpu.pc ≠ 0x202 := by
  obtain ⟨hafter, hrun, hok, hpc, hpaused⟩ :
      watched.breakpointsAfter watchOnward = [0x204, 0x200] ∧
        (watched.after watchOnward).machine.state = .running ∧
        (watched.after watchOnward).step.2 = .ok .running ∧
        (watched.after watchOnward).step.1.machine.cpu.pc = 0x202 ∧
        ((watched.after watchOnward).multistep 5).1.machine.state = .paused := by
    decide +kernel
  obtain ⟨_, hmem, _, horder, hquiet, hstep⟩ := breakpoints_follow_calls watched rfl watchOnward
  obtain ⟨hstops, hpasses⟩ := hstep hrun
  have hset : LastSets watchOnward 0x204 := by
    rw [← hmem, hafter]
    decide
  have hunset : ¬ LastSets watchOnward 0x202 := by
    rw [← hmem, hafter]
    decide
  have hgoes : (watched.after watchOnward).step.1.machine.state ≠ .paused := by
    rw [Ne, hstops _ hok, hpc]
    exact hunset
  rw [hafter] at horder
  have hbefore := List.rel_of_pairwise_cons horder (List.mem_singleton_self _)
  have hload := (hquiet (.loadProgram []) fun _ => rfl).trans hafter
  have hpass := hpasses watchCalls _ 0x202 rfl (by simp) _ (Or.inr ⟨5, rfl⟩) hpaused
  exact ⟨rfl, hafter, hset, hunset, hbefore, hload, hpc, hgoes, hpaused, hpass⟩

end Run

end Chip8
