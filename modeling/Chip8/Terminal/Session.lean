import Chip8.Machine.Run
import Chip8.Terminal.Notice
import Chip8.Terminal.Options

namespace Chip8.Terminal

/-- A machine that runs frame by frame, and what it has told the user so far. -/
structure Session where
  run : Run
  frames : Nat
  ipf : Nat
  rate : Nat
  realtime : Bool
  debug : Bool
  notices : Array Notice

/-- How a frame ended. -/
inductive FrameEnd where
  /-- The timers were counted down and another frame may follow. -/
  | completed
  | halted
  | faulted (error : Error)
deriving DecidableEq, Repr

namespace Session

def tell (s : Session) (notice : Notice) : Session :=
  { s with notices := s.notices.push notice }

/-- Tells the user what the machine has listed. -/
def tellTrace (s : Session) : Session :=
  { s with
    run := { s.run with trace := #[] }
    notices := s.notices ++ s.run.trace.map .trace }

/-- Shows the registers if instructions are listed too. -/
def tellRegisters (s : Session) : Session :=
  if s.debug then s.tell (.registers s.run.machine.cpu) else s

def mapMachine (s : Session) (f : Machine → Machine) : Session :=
  { s with run := { s.run with machine := f s.run.machine } }

/-- Executes the instructions of a frame and tells the user what they listed. -/
def execute (s : Session) : Outcome Session RunState :=
  let (run, result) := s.run.multistep s.ipf
  (tellTrace { s with run := run }, result)

/-- Runs one frame: its instructions, fewer if the machine arrives at a breakpoint, and then one tick
of the timers. From a breakpoint the machine goes on in the next frame. -/
def frame (s : Session) : Session × FrameEnd :=
  match s.execute with
  | (s, .error e) => (s, .faulted e)
  | (s, .ok .quit) => (s, .halted)
  | (s, .ok .running) => (s.mapMachine .tickTimers, .completed)
  | (s, .ok .paused) =>
    let told := (s.tell (.breakpoint s.run.machine.cpu.pc)).tellRegisters
    (told.mapMachine fun m => m.resume.tickTimers, .completed)

/-- Runs up to `n` frames, fewer if one does not complete. -/
def runFrames (s : Session) : Nat → Outcome Session Unit
  | 0 => (s, .ok ())
  | n + 1 =>
    match s.frame with
    | (s, .completed) => s.runFrames n
    | (s, .halted) => (s, .ok ())
    | (s, .faulted e) => (s, .error e)

/-- Tells the user how a run ended: the fault if there was one, and the picture in any case. -/
def conclude (s : Session) (result : Except Error Unit) : Session :=
  let told :=
    match result with
    | .ok () => s
    | .error e => s.tell (.fault e)
  (told.tell (.screen told.run.machine.screen)).tellRegisters

end Session

end Chip8.Terminal
