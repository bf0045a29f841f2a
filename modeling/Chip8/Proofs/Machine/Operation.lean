import Chip8.Proofs.Machine.Lifecycle

namespace Chip8

/-- What an operation answers. -/
inductive Reply where
  | silent
  | done (result : Except Error Unit)
  | state (result : Except Error RunState)
  | byte (result : Except Error UInt8)
  | bytes (result : Except Error (List UInt8))
  | words (words : List Word)
  | pixel (lit : Option Bool)
  | truth (value : Bool)
  | changed (result : Except Error Bool)

/-- What an operation leaves, whether it failed or not, and its answer as a reply. -/
def Outcome.reply {σ α : Type} (o : Outcome σ α) (wrap : Except Error α → Reply) : σ × Reply :=
  (o.1, wrap o.2)

inductive Cpu.Operation where
  | setV (reg : Nat) (value : UInt8)
  | setPc (pc : Word)
  | setI (i : Word)
  | setBreak (addr : Word)
  | unsetBreak (addr : Word)
  | reset
  | toggleDebug
  | stack

def Cpu.handle (c : Cpu) : Operation → Cpu × Reply
  | .setV reg value => (c.setV reg value).reply .done
  | .setPc pc => ({ c with pc := pc }, .silent)
  | .setI i => ({ c with i := i }, .silent)
  | .setBreak addr => (c.setBreak addr, .silent)
  | .unsetBreak addr => (c.unsetBreak addr, .silent)
  | .reset => (c.reset, .silent)
  | .toggleDebug => (c.toggleDebug, .silent)
  | .stack => (c, .words c.stack.toList)

inductive Memory.Operation where
  | load (font program : List UInt8)
  | read (addr : Nat)
  | write (addr : Nat) (value : UInt8)
  | slice (start stop : Nat)
  | fill (start stop : Nat) (value : UInt8)
  | region (r : Region)
  | clearRegion (r : Region)

def Memory.handle (m : Memory) : Operation → Memory × Reply
  | .load font program => (m.load font program).reply .done
  | .read addr => (m, .byte (m.read addr))
  | .write addr value => (m.write addr value).reply .done
  | .slice start stop => (m, .bytes (m.slice start stop))
  | .fill start stop value => (m.fill start stop value).reply .done
  | .region r => (m, .bytes (.ok (m.region r)))
  | .clearRegion r => (m.clearRegion r, .silent)

inductive Screen.Operation where
  | draw (x y : Nat) (sprite : List UInt8)
  | get (x y : Nat)
  | clear

def Screen.handle (s : Screen) : Operation → Screen × Reply
  | .draw x y sprite => ((s.draw x y sprite).1, .truth (s.draw x y sprite).2)
  | .get x y => (s, .pixel (s.get? x y))
  | .clear => (s.clear, .silent)

inductive Timers.Operation where
  | setDelay (value : UInt8)
  | setSound (value : UInt8)
  | tick

def Timers.handle (t : Timers) : Operation → Timers × Reply
  | .setDelay value => ({ t with delay := value }, .silent)
  | .setSound value => ({ t with sound := value }, .silent)
  | .tick => (t.tick, .silent)

inductive Keypad.Operation where
  | press (key : Nat)
  | release (key : Nat)
  | releaseAll
  | isPressed (key : Nat)

def Keypad.handle (k : Keypad) : Operation → Keypad × Reply
  | .press key => (k.press key).reply .changed
  | .release key => (k.release key).reply .changed
  | .releaseAll => (.released, .silent)
  | .isPressed key => (k, .truth (k.isPressed key))

/-- Everything that a host can do with a machine through the operations of its parts. -/
inductive Operation where
  | load (font program : List UInt8)
  | loadProgram (program : List UInt8)
  /-- An instruction, whatever the run state is. -/
  | tick
  | step
  | multistep (n : Nat)
  | pause
  | resume
  | cpu (op : Cpu.Operation)
  | memory (op : Memory.Operation)
  | screen (op : Screen.Operation)
  | timers (op : Timers.Operation)
  | keypad (op : Keypad.Operation)

/-- The operation that a call of the host is. An edit is none, since it puts anything in the place of
the parts at once. -/
def HostCall.operation? : HostCall → Option Operation
  | .load font program => some (.load font program)
  | .loadProgram program => some (.loadProgram program)
  | .step => some .step
  | .multistep n => some (.multistep n)
  | .tickTimers => some (.timers .tick)
  | .pause => some .pause
  | .resume => some .resume
  | .edit _ _ _ => none

/-- The answer of a call as the reply of an operation. -/
def HostAnswer.reply : HostAnswer → Reply
  | .silent => .silent
  | .loaded result => .done result
  | .stepped result => .state result

namespace Run

/-- The same run with another machine. -/
def withMachine (r : Run) (machine : Machine) : Run :=
  r.mapMachine fun _ => machine

def handle (r : Run) : Operation → Run × Reply
  | .load font program =>
    let (machine, result) := r.machine.load font program
    (r.withMachine machine, .done result)
  | .loadProgram program =>
    let (machine, result) := r.machine.loadProgram program
    (r.withMachine machine, .done result)
  | .tick => r.tick.reply .done
  | .step => r.step.reply .state
  | .multistep n => (r.multistep n).reply .state
  | .pause => (r.mapMachine .pause, .silent)
  | .resume => (r.mapMachine .resume, .silent)
  | .cpu op =>
    let (cpu, reply) := r.machine.cpu.handle op
    (r.mapMachine fun m => { m with cpu := cpu }, reply)
  | .memory op =>
    let (mem, reply) := r.machine.mem.handle op
    (r.mapMachine fun m => { m with mem := mem }, reply)
  | .screen op =>
    let (screen, reply) := r.machine.screen.handle op
    (r.mapMachine fun m => { m with screen := screen }, reply)
  | .timers op =>
    let (timers, reply) := r.machine.timers.handle op
    (r.mapMachine fun m => { m with timers := timers }, reply)
  | .keypad op =>
    let (keypad, reply) := r.machine.keypad.handle op
    (r.mapMachine fun m => { m with keypad := keypad }, reply)

/-- Operations one after the other, with all that they answer. -/
def handleAll (r : Run) : List Operation → Run × List Reply
  | [] => (r, [])
  | op :: rest =>
    let (next, reply) := r.handle op
    let (last, replies) := next.handleAll rest
    (last, reply :: replies)

theorem handleAll_cons (r : Run) (op : Operation) (rest : List Operation) :
    r.handleAll (op :: rest) =
      (((r.handle op).1.handleAll rest).1,
        (r.handle op).2 :: ((r.handle op).1.handleAll rest).2) := rfl

theorem handleAll_concat (r : Run) (ops : List Operation) (op : Operation) :
    (r.handleAll (ops ++ [op])).1 = ((r.handleAll ops).1.handle op).1 := by
  induction ops generalizing r with
  | nil => rfl
  | cons first rest ih => exact ih (r.handle first).1

/-- What every operation keeps, any sequence of them keeps. -/
theorem handleAll_keeps {P : Run → Prop} (hkeeps : ∀ r op, P r → P (r.handle op).1)
    (ops : List Operation) {r : Run} (h : P r) : P (r.handleAll ops).1 := by
  induction ops generalizing r with
  | nil => exact h
  | cons op rest ih => exact ih (hkeeps r op h)

/-- A call of the host does what its operation does, and answers the same. -/
theorem handle_eq_perform {call : HostCall} {op : Operation} (h : call.operation? = some op)
    (r : Run) : r.handle op = ((r.perform call).1, (r.perform call).2.reply) := by
  cases call <;> cases h <;> rfl

/-- Every operation but a tick is a call of the host: a load, a step or a pause as such, and what it
does to a part as an edit of that part. -/
theorem exists_perform_eq_handle {op : Operation} (htick : op ≠ .tick) (r : Run) :
    ∃ call : HostCall, (r.perform call).1 = (r.handle op).1 := by
  have hedit (core : Core) (timers : Timers) (keypad : Keypad) :
      (r.perform (.edit core timers keypad)).1 =
        r.mapMachine fun m => ⟨core, timers, keypad, m.state⟩ := rfl
  cases op with
  | load font program => exact ⟨.load font program, rfl⟩
  | loadProgram program => exact ⟨.loadProgram program, rfl⟩
  | tick => exact absurd rfl htick
  | step => exact ⟨.step, rfl⟩
  | multistep n => exact ⟨.multistep n, rfl⟩
  | pause => exact ⟨.pause, rfl⟩
  | resume => exact ⟨.resume, rfl⟩
  | cpu op => exact ⟨_, hedit { r.machine.toCore with cpu := (r.machine.cpu.handle op).1 } _ _⟩
  | memory op => exact ⟨_, hedit { r.machine.toCore with mem := (r.machine.mem.handle op).1 } _ _⟩
  | screen op =>
    exact ⟨_, hedit { r.machine.toCore with screen := (r.machine.screen.handle op).1 } _ _⟩
  | timers op => exact ⟨_, hedit _ (r.machine.timers.handle op).1 _⟩
  | keypad op => exact ⟨_, hedit _ _ (r.machine.keypad.handle op).1⟩

/-- So what operations come to, calls of the host come to as well. -/
theorem exists_performAll_eq_handleAll {ops : List Operation} (hticks : ∀ op ∈ ops, op ≠ .tick)
    (r : Run) : ∃ calls : List HostCall, (r.performAll calls).1 = (r.handleAll ops).1 := by
  induction ops generalizing r with
  | nil => exact ⟨[], rfl⟩
  | cons op rest ih =>
    obtain ⟨hop, hrest⟩ := List.forall_mem_cons.mp hticks
    obtain ⟨call, hcall⟩ := exists_perform_eq_handle hop r
    obtain ⟨calls, hcalls⟩ := ih hrest (r.handle op).1
    refine ⟨call :: calls, ?_⟩
    rw [performAll_cons, handleAll_cons, hcall]
    exact hcalls

/-- A run that operations have brought a new machine to. -/
def Reachable (r : Run) : Prop :=
  ∃ (m : Machine) (noise : Noise) (ops : List Operation),
    m.IsNew ∧ ((start m noise).handleAll ops).1 = r

end Run

end Chip8
