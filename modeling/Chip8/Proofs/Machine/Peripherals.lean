import Chip8.Proofs.Machine.Operation

namespace Chip8

/-- The third list consists of the elements of the other two, those of each in their order. -/
inductive Interleaves {α : Type} : List α → List α → List α → Prop where
  | nil : Interleaves [] [] []
  | left {a : α} {as bs cs : List α} (h : Interleaves as bs cs) : Interleaves (a :: as) bs (a :: cs)
  | right {b : α} {as bs cs : List α} (h : Interleaves as bs cs) : Interleaves as (b :: bs) (b :: cs)

namespace Operation

/-- The operation executes instructions, or decides whether they are executed. -/
inductive IsExecution : Operation → Prop where
  | step : IsExecution .step
  | multistep (n : Nat) : IsExecution (.multistep n)
  | pause : IsExecution .pause
  | resume : IsExecution .resume

/-- The operation is one on the timers or on the keypad. -/
inductive IsPeripheral : Operation → Prop where
  | timers (op : Timers.Operation) : IsPeripheral (.timers op)
  | keypad (op : Keypad.Operation) : IsPeripheral (.keypad op)

end Operation

/-- The machine with the timers and the keypad of another one. -/
def Machine.attach (m n : Machine) : Machine :=
  { m with timers := n.timers, keypad := n.keypad }

namespace Machine

variable (m n : Machine)

theorem step_attach (roll : UInt8) :
    (m.attach n).step roll = ((m.step roll).1.attach n, (m.step roll).2) := by
  have hcore : (m.attach n).toCore = m.toCore := rfl
  have hstate : (m.attach n).state = m.state := rfl
  rw [step, step, hcore, hstate]
  split
  · generalize m.toCore.tick roll = o
    obtain ⟨core, answer⟩ := o
    cases answer <;> rfl
  · rfl

theorem pause_attach : (m.attach n).pause = m.pause.attach n := by
  have hstate : (m.attach n).state = m.state := rfl
  rw [pause, pause, hstate]
  split <;> rfl

theorem resume_attach : (m.attach n).resume = m.resume.attach n := by
  have hstate : (m.attach n).state = m.state := rfl
  rw [resume, resume, hstate]
  split <;> rfl

end Machine

namespace Run

/-- The run with the timers and the keypad of another one. -/
def attach (r q : Run) : Run :=
  r.mapMachine fun m => m.attach q.machine

@[simp] theorem toCore_attach (r q : Run) :
    (r.attach q).machine.toCore = r.machine.toCore := rfl

@[simp] theorem timers_attach (r q : Run) :
    (r.attach q).machine.timers = q.machine.timers := rfl

theorem step_attach (r q : Run) : (r.attach q).step = (r.step.1.attach q, r.step.2) := by
  have hstate : (r.attach q).machine.state = r.machine.state := rfl
  have hlist : (r.attach q).listNext = r.listNext.attach q := by
    have hcore : (r.attach q).machine.toCore = r.machine.toCore := rfl
    rw [listNext, listNext, hcore]
    cases r.machine.toCore.trace? <;> rfl
  have hstep := r.listNext.machine.step_attach q.machine r.listNext.noise.next
  rw [step, step, hstate, hlist]
  split
  · dsimp only [attach, mapMachine]
    rw [hstep]
  · rfl

/-- However long instructions are executed, they need no peripherals. -/
theorem multistep_attach (r q : Run) (n : Nat) :
    (r.attach q).multistep n = ((r.multistep n).1.attach q, (r.multistep n).2) := by
  induction n generalizing r with
  | zero => rfl
  | succ n ih =>
    rw [multistep, multistep, step_attach]
    generalize r.step = o
    obtain ⟨next, answer⟩ := o
    cases answer with
    | error e => rfl
    | ok state =>
      cases state with
      | running => exact ih next
      | paused => rfl
      | quit => rfl

variable {op : Operation}

/-- Executing has nothing to do with the peripherals. -/
theorem handle_attach_of_execution (h : op.IsExecution) (r q : Run) :
    (r.attach q).handle op = ((r.handle op).1.attach q, (r.handle op).2) := by
  cases h with
  | step =>
    rw [handle, step_attach]
    rfl
  | multistep n =>
    rw [handle, multistep_attach]
    rfl
  | pause =>
    have h := r.machine.pause_attach q.machine
    simp only [handle, attach, mapMachine, h]
  | resume =>
    have h := r.machine.resume_attach q.machine
    simp only [handle, attach, mapMachine, h]

/-- Operations on the peripherals have nothing to do with the rest. -/
theorem handle_attach_of_peripheral (h : op.IsPeripheral) (r q : Run) :
    (r.attach q).handle op = (r.attach (q.handle op).1, (q.handle op).2) := by
  cases h with
  | timers op => rfl
  | keypad op => rfl

/-- Operations one after the other, each with what it answers. -/
def replies (r : Run) (ops : List Operation) : List (Operation × Reply) :=
  ops.zip (r.handleAll ops).2

theorem replies_cons (r : Run) (op : Operation) (rest : List Operation) :
    r.replies (op :: rest) = (op, (r.handle op).2) :: (r.handle op).1.replies rest := rfl

/-- Two runs in one, of which the second lends its peripherals: each operation goes on with its own. -/
theorem handleAll_attach {as bs ops : List Operation} (hexecution : ∀ op ∈ as, op.IsExecution)
    (hperipheral : ∀ op ∈ bs, op.IsPeripheral) (hops : Interleaves as bs ops) (r q : Run) :
    ((r.attach q).handleAll ops).1 = (r.handleAll as).1.attach (q.handleAll bs).1 ∧
      Interleaves (r.replies as) (q.replies bs) ((r.attach q).replies ops) := by
  induction hops generalizing r q with
  | nil => exact ⟨rfl, .nil⟩
  | left _ ih =>
    obtain ⟨hop, hrest⟩ := List.forall_mem_cons.mp hexecution
    obtain ⟨hlast, hreplies⟩ := ih hrest hperipheral (r.handle _).1 q
    simp only [handleAll_cons, replies_cons, handle_attach_of_execution hop]
    exact ⟨hlast, hreplies.left⟩
  | right _ ih =>
    obtain ⟨hop, hrest⟩ := List.forall_mem_cons.mp hperipheral
    obtain ⟨hlast, hreplies⟩ := ih hexecution hrest r (q.handle _).1
    simp only [handleAll_cons, replies_cons, handle_attach_of_peripheral hop]
    exact ⟨hlast, hreplies.right⟩

/-- Executing and attending to the peripherals may alternate in any way: all calls answer the same. The
run becomes what executing alone makes of it, but for the timers and the keypad, and these become what
attending to them alone makes of them. -/
theorem peripherals_are_independent_of_execution (r : Run) {as bs ops : List Operation}
    (hexecution : ∀ op ∈ as, op.IsExecution) (hperipheral : ∀ op ∈ bs, op.IsPeripheral)
    (hops : Interleaves as bs ops) :
    (r.handleAll ops).1 = (r.handleAll as).1.attach (r.handleAll bs).1 ∧
      Interleaves (r.replies as) (r.replies bs) (r.replies ops) :=
  handleAll_attach hexecution hperipheral hops r r

/-- A program that rolls for `v1` over and over. -/
def rolling : Run :=
  start ⟨.loaded (.initial false) [0xC1, 0xFF, 0x12, 0x00], .zero, .released, .running⟩ (.ofSeed 0)

def executing : List Operation := [.step, .pause, .multistep 3, .resume, .multistep 2]

def attending : List Operation := [.timers (.setDelay 3), .keypad (.press 16), .timers .tick]

def alternating : List Operation :=
  [.timers (.setDelay 3), .step, .pause, .keypad (.press 16), .multistep 3, .timers .tick, .resume,
    .multistep 2]

/-- Three instructions are executed while a timer is set and counted down, and a key that does not
exist is refused. -/
theorem peripherals_are_independent_of_execution_rolling :
    (∀ op ∈ executing, op.IsExecution) ∧ (∀ op ∈ attending, op.IsPeripheral) ∧
      Interleaves executing attending alternating ∧
      (rolling.handleAll alternating).1.machine.cpu.cycle = 3 ∧
      (rolling.handleAll alternating).1.machine.timers.delay = 2 ∧
      Interleaves (rolling.replies executing) (rolling.replies attending)
        (rolling.replies alternating) := by
  have hexecuting : ∀ op ∈ executing, op.IsExecution := by
    simp only [executing, List.forall_mem_cons, List.not_mem_nil, false_implies, implies_true,
      and_true]
    exact ⟨.step, .pause, .multistep 3, .resume, .multistep 2⟩
  have hattending : ∀ op ∈ attending, op.IsPeripheral := by
    simp only [attending, List.forall_mem_cons, List.not_mem_nil, false_implies, implies_true,
      and_true]
    exact ⟨.timers _, .keypad _, .timers _⟩
  have halternating : Interleaves executing attending alternating :=
    .right (.left (.left (.right (.left (.right (.left (.left .nil)))))))
  have hcycle : (rolling.handleAll executing).1.machine.cpu.cycle = 3 := by decide +kernel
  obtain ⟨hlast, hreplies⟩ :=
    peripherals_are_independent_of_execution rolling hexecuting hattending halternating
  refine ⟨hexecuting, hattending, halternating, ?_, ?_, hreplies⟩
  · rw [hlast, toCore_attach]
    exact hcycle
  · rw [hlast, timers_attach]
    rfl

end Run

end Chip8
